import PrimeAgent.Types.Json

/-! # Values at paths of a document

A path names the members to follow from the root. The leaf at a path is the scalar or the array found
there: a `null` is a member left unset, and an object is its members. Two documents agree when they
have the same leaves.
-/
namespace PrimeAgent.Json

def members : Json → JsonMap
  | .object members => members
  | _ => []

@[simp]
theorem lookup_members (doc : Json) (key : String) : doc.members.lookup key = doc.get key := by
  cases doc <;> rfl

def leaf : List String → Json → Option Json
  | [], .null => none
  | [], .object _ => none
  | [], value => some value
  | key :: path, doc => (doc.get key).bind (leaf path)

/-- The document with `value` put at the path, with an object made for each step that has none. -/
def put : List String → Json → Json → Json
  | [], value, _ => value
  | key :: path, value, doc =>
    .object (doc.members.set key (put path value ((doc.get key).getD .null)))

@[simp]
theorem leaf_null (path : List String) : leaf path .null = none := by
  cases path <;> rfl

theorem leaf_getD (path : List String) (found : Option Json) :
    leaf path (found.getD .null) = found.bind (leaf path) := by
  cases found with
  | none => exact leaf_null path
  | some doc => rfl

def Crosses (path other : List String) : Prop :=
  path <+: other ∨ other <+: path

instance (path other : List String) : Decidable (Crosses path other) :=
  inferInstanceAs (Decidable (_ ∨ _))

theorem crosses_cons {key : String} {path other : List String} :
    Crosses (key :: path) (key :: other) ↔ Crosses path other := by
  simp [Crosses, List.cons_prefix_cons]

theorem not_crosses_cons {key other : String} (hNe : other ≠ key) (path rest : List String) :
    ¬ Crosses (key :: path) (other :: rest) := by
  rintro (hCross | hCross)
  · exact hNe (List.cons_prefix_cons.mp hCross).1.symm
  · exact hNe (List.cons_prefix_cons.mp hCross).1

theorem get_put_self (key : String) (path : List String) (value doc : Json) :
    (put (key :: path) value doc).get key = some (put path value ((doc.get key).getD .null)) :=
  JsonMap.lookup_set_self _ _ _

theorem get_put_of_ne {key other : String} (hNe : other ≠ key) (path : List String) (value doc : Json) :
    (put (key :: path) value doc).get other = doc.get other := by
  have hSet := JsonMap.lookup_set_of_ne hNe (put path value ((doc.get key).getD .null)) doc.members
  rw [lookup_members] at hSet
  exact hSet

theorem leaf_put_of_not_crosses {path other : List String} (hApart : ¬ Crosses path other) (value doc : Json) :
    leaf other (put path value doc) = leaf other doc := by
  induction path generalizing other doc with
  | nil => exact absurd (Or.inl (List.nil_prefix)) hApart
  | cons key path ih =>
    cases other with
    | nil => exact absurd (Or.inr (List.nil_prefix)) hApart
    | cons other rest =>
      by_cases hKey : other = key
      · subst hKey
        rw [crosses_cons] at hApart
        simp only [leaf, get_put_self, Option.bind_some]
        rw [ih hApart, leaf_getD]
      · simp only [leaf, get_put_of_ne hKey]

theorem leaf_put_of_crosses {path other : List String} (hCross : Crosses path other) (value doc doc' : Json) :
    leaf other (put path value doc) = leaf other (put path value doc') := by
  induction path generalizing other doc doc' with
  | nil => rfl
  | cons key path ih =>
    cases other with
    | nil => rfl
    | cons other rest =>
      have hKey : other = key := by
        by_contra hNe
        exact not_crosses_cons hNe path rest hCross
      subst hKey
      simp only [leaf, get_put_self, Option.bind_some]
      exact ih (crosses_cons.mp hCross) _ _

def Agrees (doc other : Json) : Prop :=
  ∀ path, leaf path doc = leaf path other

theorem Agrees.refl (doc : Json) : Agrees doc doc :=
  fun _ => rfl

variable {doc other : Json} {paths : List (List String)} {writes : List (List String × Json)}

theorem Agrees.symm (hAgrees : Agrees doc other) : Agrees other doc :=
  fun path => (hAgrees path).symm

theorem Agrees.trans {doc other third : Json} (hLeft : Agrees doc other) (hRight : Agrees other third) :
    Agrees doc third :=
  fun path => (hLeft path).trans (hRight path)

theorem agrees_put (hAgrees : Agrees doc other) (path : List String) (value : Json) :
    Agrees (put path value doc) (put path value other) := by
  intro read
  by_cases hCross : Crosses path read
  · exact leaf_put_of_crosses hCross _ _ _
  · rw [leaf_put_of_not_crosses hCross, leaf_put_of_not_crosses hCross]
    exact hAgrees read

def AgreesOff (paths : List (List String)) (doc other : Json) : Prop :=
  ∀ path, (∀ written ∈ paths, ¬ Crosses written path) → leaf path doc = leaf path other

theorem Agrees.off (hAgrees : Agrees doc other) (paths : List (List String)) :
    AgreesOff paths doc other :=
  fun path _ => hAgrees path

theorem agreesOff_nil : AgreesOff [] doc other ↔ Agrees doc other := by
  simp [AgreesOff, Agrees]

theorem AgreesOff.trans {doc other third : Json} (hLeft : AgreesOff paths doc other)
    (hRight : AgreesOff paths other third) : AgreesOff paths doc third :=
  fun path hApart => (hLeft path hApart).trans (hRight path hApart)

def putAll (writes : List (List String × Json)) (doc : Json) : Json :=
  writes.foldl (fun doc write => put write.1 write.2 doc) doc

theorem leaf_putAll_of_apart {path : List String} (hApart : ∀ written ∈ writes.map Prod.fst, ¬ Crosses written path)
    (doc : Json) :
    leaf path (putAll writes doc) = leaf path doc := by
  induction writes generalizing doc with
  | nil => rfl
  | cons write writes ih =>
    rw [List.map_cons, List.forall_mem_cons] at hApart
    calc leaf path (putAll (write :: writes) doc)
        = leaf path (put write.1 write.2 doc) := ih hApart.2 _
      _ = leaf path doc := leaf_put_of_not_crosses hApart.1 _ _

theorem agreesOff_put {write : List String × Json} (hOff : AgreesOff (write.1 :: paths) doc other) :
    AgreesOff paths (put write.1 write.2 doc) (put write.1 write.2 other) := by
  intro path hApart
  by_cases hCross : Crosses write.1 path
  · exact leaf_put_of_crosses hCross _ _ _
  · rw [leaf_put_of_not_crosses hCross, leaf_put_of_not_crosses hCross]
    exact hOff path (List.forall_mem_cons.mpr ⟨hCross, hApart⟩)

theorem agrees_putAll (hOff : AgreesOff (writes.map Prod.fst) doc other) :
    Agrees (putAll writes doc) (putAll writes other) := by
  induction writes generalizing doc other with
  | nil => exact agreesOff_nil.mp hOff
  | cons write writes ih => exact ih (agreesOff_put hOff)

theorem agrees_putAll_iff :
    Agrees (putAll writes doc) (putAll writes other) ↔ AgreesOff (writes.map Prod.fst) doc other := by
  constructor
  · intro hAgrees path hApart
    have hPut := hAgrees path
    rwa [leaf_putAll_of_apart hApart, leaf_putAll_of_apart hApart] at hPut
  · exact agrees_putAll

end PrimeAgent.Json
