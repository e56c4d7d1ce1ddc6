import PrimeAgent.Settings.Migrated
import PrimeAgent.Settings.Survival

/-! # The merge of settings

The node at a path of a document is the value found there, or the mark of an object; a member that is
`null` is no node. The merge is followed path by path.
-/
namespace PrimeAgent.Json

def member (key : String) (doc : Json) : Json :=
  (doc.get key).getD .null

inductive Node where
  | object
  | value (json : Json)
deriving DecidableEq

def top : Json → Option Node
  | .null => none
  | .object _ => some .object
  | json => some (.value json)

def node : List String → Json → Option Node
  | [], doc => doc.top
  | key :: path, doc => node path (doc.member key)

/-- The same document, up to the order of members and members that are `null`. -/
def Same (doc other : Json) : Prop :=
  ∀ path, node path doc = node path other

def Passes : List String → Json → Prop
  | [], _ => True
  | key :: path, doc => (∀ value, doc.top ≠ some (.value value)) ∧ Passes path (doc.member key)

mutual

def keyed : Json → Bool
  | .object members => decide ((members.map Prod.fst).Nodup) && keyedMembers members
  | _ => true

def keyedMembers : JsonMap → Bool
  | [] => true
  | (_, value) :: rest => value.keyed && keyedMembers rest

end

variable {members : JsonMap} {value : Json}

theorem keyedMembers_iff : keyedMembers members = true ↔ ∀ member ∈ members, member.2.keyed = true := by
  induction members with
  | nil => simp [keyedMembers]
  | cons member members ih =>
    obtain ⟨key, value⟩ := member
    simp [keyedMembers, ih]

theorem keyed_object :
    (Json.object members).keyed = true ↔ (members.map Prod.fst).Nodup ∧ ∀ member ∈ members, member.2.keyed = true := by
  rw [keyed, Bool.and_eq_true, decide_eq_true_eq, keyedMembers_iff]

theorem mem_of_lookup {key : String} (hLookup : members.lookup key = some value) :
    (key, value) ∈ members := by
  obtain ⟨before, after, hSplit, -⟩ := List.lookup_eq_some_iff.mp hLookup
  rw [hSplit]
  exact List.mem_append_right before List.mem_cons_self

theorem keyed_member {doc : Json} (hKeyed : doc.keyed = true) (key : String) : (doc.member key).keyed = true := by
  cases doc with
  | object members =>
    show ((members.lookup key).getD .null).keyed = true
    cases hLookup : members.lookup key with
    | none => rfl
    | some value => exact (keyed_object.mp hKeyed).2 _ (mem_of_lookup hLookup)
  | _ => rfl

theorem member_of_top {doc : Json} (hTop : doc.top = some (.value value)) (key : String) :
    doc.member key = .null := by
  cases doc with
  | object members => cases hTop
  | _ => rfl

theorem node_null (path : List String) : node path .null = none := by
  induction path with
  | nil => rfl
  | cons key path ih => exact ih

end PrimeAgent.Json

namespace PrimeAgent.Settings

open Json

/-! ## The merge of documents -/

theorem merge_null_left (json : Json) : merge_values .null json = json := by
  cases json <;> rfl

theorem merge_value {base overlay value : Json} (hTop : overlay.top = some (.value value)) : merge_values base overlay = overlay := by
  cases overlay <;> first | rfl | cases hTop

theorem top_merge (base overlay : Json) : (merge_values base overlay).top = overlay.top.or base.top := by
  cases overlay with
  | object overrides => cases base <;> rfl
  | _ => rfl

variable {key : String} {value : Json} {base overlay : Json} {path : List String} {inner : Fields} {members : JsonMap}
  {shape : Shape} {overrides : List Settings}

theorem merge_members_step {base rest : JsonMap} (hNull : value ≠ .null) :
    merge_members base ((key, value) :: rest) = match base.lookup key with
      | some existing =>
        if existing.isObject && value.isObject then merge_members (base.set key (merge_values existing value)) rest
        else merge_members (base.set key value) rest
      | none => merge_members (base.set key value) rest := by
  cases value <;> first | rfl | exact absurd rfl hNull

theorem merge_members_cons {base rest : JsonMap} (hNull : value ≠ .null) :
    merge_members base ((key, value) :: rest) =
      merge_members (base.set key (merge_values ((base.lookup key).getD .null) value)) rest := by
  rw [merge_members_step hNull]
  cases base.lookup key with
  | none => rw [Option.getD_none, merge_null_left]
  | some existing =>
    dsimp only
    split
    next => rfl
    next hPlain =>
      have hValue : merge_values existing value = value := by
        cases value with
        | object overrides => cases existing <;> first | rfl | exact absurd rfl hPlain
        | null => exact absurd rfl hNull
        | _ => rfl
      rw [Option.getD_some, hValue]

theorem lookup_merge_members {key : String} : (base overrides : JsonMap) → Distinct overrides →
    ((merge_members base overrides).lookup key).getD .null =
      merge_values ((base.lookup key).getD .null) ((overrides.lookup key).getD .null)
  | _, [], _ => rfl
  | base, (name, value) :: rest, hDistinct => by
    obtain ⟨hFresh, hRest⟩ := List.nodup_cons.mp hDistinct
    by_cases hNull : value = .null
    · subst hNull
      rw [show merge_members base ((name, .null) :: rest) = merge_members base rest from rfl,
        lookup_merge_members base rest hRest, List.lookup_cons]
      by_cases hKey : key = name
      · subst hKey
        rw [lookup_eq_none_of_keys hFresh, beq_self_eq_true]
        rfl
      · rw [beq_false_of_ne hKey]
    · rw [merge_members_cons hNull, lookup_merge_members _ rest hRest, List.lookup_cons, lookup_set]
      by_cases hKey : key = name
      · subst hKey
        rw [lookup_eq_none_of_keys hFresh, beq_self_eq_true, if_pos rfl]
        rfl
      · rw [beq_false_of_ne hKey, if_neg hKey]

theorem member_merge {base overlay : Json} (hKeyed : overlay.keyed = true) (hObject : ∀ value, overlay.top ≠ some (.value value))
    (key : String) : (merge_values base overlay).member key = merge_values (base.member key) (overlay.member key) := by
  cases overlay with
  | null => rfl
  | object overrides =>
    cases base with
    | object members => exact lookup_merge_members members overrides (keyed_object.mp hKeyed).1
    | _ => exact (merge_null_left _).symm
  | _ => exact absurd rfl (hObject _)

theorem node_merge_over (hKeyed : overlay.keyed = true) (hSet : node path overlay ≠ none) :
    node path (merge_values base overlay) = node path overlay := by
  induction path generalizing base overlay with
  | nil =>
    obtain ⟨found, hFound⟩ := Option.ne_none_iff_exists'.mp hSet
    have hTop : overlay.top = some found := hFound
    exact (top_merge base overlay).trans (by rw [hTop]; rfl) |>.trans hTop.symm
  | cons key path ih =>
    have hObject : ∀ value, overlay.top ≠ some (.value value) := by
      intro value hTop
      rw [node, member_of_top hTop, node_null] at hSet
      exact hSet rfl
    rw [node, member_merge hKeyed hObject]
    exact ih (keyed_member hKeyed key) hSet

theorem node_merge (hKeyed : overlay.keyed = true) (hPasses : Passes path overlay) :
    node path (merge_values base overlay) = (node path overlay).or (node path base) := by
  induction path generalizing base overlay with
  | nil => exact top_merge base overlay
  | cons key path ih =>
    rw [node, member_merge hKeyed hPasses.1]
    exact ih (keyed_member hKeyed key) hPasses.2

theorem keys_merge_members : (base overrides : JsonMap) → Distinct base → Distinct (merge_members base overrides)
  | _, [], hDistinct => hDistinct
  | base, (name, value) :: rest, hDistinct => by
    by_cases hNull : value = .null
    · subst hNull
      exact keys_merge_members base rest hDistinct
    · rw [merge_members_cons hNull]
      exact keys_merge_members _ rest (hDistinct.set name _)

theorem mem_set {key : String} {value : Json} {member : String × Json} (members : JsonMap) :
    member ∈ members.set key value → member.2 = value ∨ member ∈ members := by
  induction members with
  | nil => simp [JsonMap.set, Prod.ext_iff]
  | cons head members ih =>
    rw [JsonMap.set]
    intro hMember
    split at hMember
    · obtain rfl | hTail := List.mem_cons.mp hMember
      · exact .inl rfl
      · exact .inr (List.mem_cons_of_mem _ hTail)
    · obtain rfl | hTail := List.mem_cons.mp hMember
      · exact .inr List.mem_cons_self
      · exact (ih hTail).imp_right (List.mem_cons_of_mem _)

mutual

theorem keyed_merge {base : Json} (hBase : base.keyed = true) : (overlay : Json) → overlay.keyed = true →
    (merge_values base overlay).keyed = true
  | .object overrides, hOver => by
    cases base with
    | object members =>
      have hMembers := keyed_object.mp hBase
      refine keyed_object.mpr ⟨keys_merge_members members overrides hMembers.1, ?_⟩
      exact keyed_merge_members overrides hMembers.2 (keyed_object.mp hOver).2
    | _ => exact hOver
  | .null, _ => hBase
  | .bool _, _ => rfl
  | .number _, _ => rfl
  | .string _, _ => rfl
  | .array _, _ => rfl

theorem keyed_merge_members {base : JsonMap} : (overrides : JsonMap) → (∀ member ∈ base, member.2.keyed = true) →
    (∀ member ∈ overrides, member.2.keyed = true) → ∀ member ∈ merge_members base overrides, member.2.keyed = true
  | [], hBase, _ => hBase
  | (name, value) :: rest, hBase, hOver => by
    have hRest := fun member hMember => hOver member (List.mem_cons_of_mem _ hMember)
    by_cases hNull : value = .null
    · subst hNull
      exact keyed_merge_members rest hBase hRest
    · rw [merge_members_cons hNull]
      refine keyed_merge_members rest (fun member hMember => ?_) hRest
      obtain hNew | hOld := mem_set base hMember
      · rw [hNew]
        refine keyed_merge ?_ value (hOver (name, value) List.mem_cons_self)
        cases hLookup : base.lookup name with
        | none => rfl
        | some existing => exact hBase _ (mem_of_lookup hLookup)
      · exact hBase member hOld

end

theorem merge_assoc {first second third : Json} (hSecond : second.keyed = true) (hThird : third.keyed = true)
    (hFirst : first.keyed = true)
    (hApart : ∀ path value, ¬ (node path first = some .object ∧ node path second = some (.value value) ∧
      node path third = some .object)) :
    Same (merge_values (merge_values first second) third) (merge_values first (merge_values second third)) := by
  intro path
  induction path generalizing first second third with
  | nil =>
    show top _ = top _
    rw [top_merge, top_merge, top_merge, top_merge, Option.or_assoc]
  | cons key path ih =>
    cases hTop : third.top with
    | none =>
      have hNull : third = .null := by cases third <;> first | rfl | cases hTop
      rw [hNull]
      rfl
    | some found =>
      cases found with
      | value json => rw [merge_value hTop, merge_value hTop, merge_value hTop]
      | object =>
        have hObject : ∀ value, third.top ≠ some (.value value) := by
          intro value hValue
          rw [hTop] at hValue
          cases hValue
        have hBoth : ∀ value, (merge_values second third).top ≠ some (.value value) := by
          intro value hValue
          rw [top_merge, hTop] at hValue
          cases hValue
        have hKeyed := keyed_merge hSecond third hThird
        cases hMiddle : second.top with
        | none =>
          have hNull : second = .null := by cases second <;> first | rfl | cases hMiddle
          rw [hNull, merge_null_left]
          rfl
        | some middle =>
          cases middle with
          | object =>
            have hPlain : ∀ value, second.top ≠ some (.value value) := by
              intro value hValue
              rw [hMiddle] at hValue
              cases hValue
            rw [node, node, member_merge hThird hObject, member_merge hSecond hPlain, member_merge hKeyed hBoth,
              member_merge hThird hObject]
            exact ih (keyed_member hSecond key) (keyed_member hThird key) (keyed_member hFirst key)
              fun rest value => hApart (key :: rest) value
          | value json =>
            have hFlat : first.top ≠ some .object := fun hFirst => hApart [] json ⟨hFirst, hMiddle, hTop⟩
            have hReplaced : ∀ base : Json, base.top ≠ some .object → merge_values base third = third := by
              intro base hBase
              cases third with
              | object _ => cases base <;> first | rfl | exact absurd rfl hBase
              | _ => cases hTop
            have hSecondFlat : second.top ≠ some .object := by
              rw [hMiddle]
              nofun
            rw [merge_value hMiddle, hReplaced second hSecondFlat, hReplaced first hFlat]

/-! ## The merge of typed values -/

theorem set_keys (members : JsonMap) (hKey : key ∈ members.map Prod.fst) :
    (members.set key value).map Prod.fst = members.map Prod.fst := by
  induction members with
  | nil => cases hKey
  | cons member members ih =>
    rw [JsonMap.set]
    split
    next => rfl
    next hNe =>
      rw [List.map_cons, List.map_cons, ih ((List.mem_cons.mp hKey).resolve_left fun hSame => hNe hSame.symm)]

theorem merge_members_keys : (base overrides : JsonMap) → (∀ key ∈ overrides.map Prod.fst, key ∈ base.map Prod.fst) →
    (merge_members base overrides).map Prod.fst = base.map Prod.fst
  | _, [], _ => rfl
  | base, (name, value) :: rest, hKeys => by
    have hRest := fun key hKey => hKeys key (List.mem_cons_of_mem name hKey)
    by_cases hNull : value = .null
    · subst hNull
      exact merge_members_keys base rest hRest
    · have hSet : (base.set name (merge_values ((base.lookup name).getD .null) value)).map Prod.fst = base.map Prod.fst :=
        set_keys base (hKeys name List.mem_cons_self)
      rw [merge_members_cons hNull, merge_members_keys _ rest (by rwa [hSet]), hSet]

theorem eq_of_lookup : {members others : JsonMap} → members.map Prod.fst = others.map Prod.fst → Distinct members →
    (∀ key ∈ members.map Prod.fst, members.lookup key = others.lookup key) → members = others
  | [], [], _, _, _ => rfl
  | [], _ :: _, hKeys, _, _ => nomatch hKeys
  | _ :: _, [], hKeys, _, _ => nomatch hKeys
  | (key, value) :: members, (other, found) :: others, hKeys, hDistinct, hLookup => by
    obtain ⟨rfl, hKeys⟩ := List.cons.inj hKeys
    obtain ⟨hFresh, hRest⟩ := List.nodup_cons.mp hDistinct
    have hHead := hLookup key List.mem_cons_self
    simp only [List.lookup_cons, beq_self_eq_true, Option.some.injEq] at hHead
    have hTail : members = others := by
      refine @eq_of_lookup members others (by assumption) hRest fun name hName => ?_
      have hNe : name ≠ key := fun hSame => hFresh (hSame ▸ hName)
      have hFound := hLookup name (List.mem_cons_of_mem key hName)
      rwa [List.lookup_cons, List.lookup_cons, beq_false_of_ne hNe] at hFound
    rw [hHead, hTail]

def Written (shape : Shape) (value : Json) : Prop :=
  shape.readSlot (some value) = some value

theorem written_keys (hSound : inner.sound = true) (hRead : inner.read members = some members) : Distinct members := by
  unfold Distinct
  rw [Fields.read_names inner hRead]
  exact names_nodup inner hSound

theorem written_lookup (hSound : inner.sound = true) (hRead : inner.read members = some members)
    (hField : inner.lookup key = some shape) :
    members.lookup key = some ((members.lookup key).getD .null) ∧ Written shape ((members.lookup key).getD .null) := by
  have hSlot := Fields.read_lookup inner hRead hField
  have hSome := (Fields.read_isSome_iff inner hSound).mp (by rw [hRead]; rfl) key shape hField
  rw [← hSlot] at hSome
  obtain ⟨value, hValue⟩ := Option.isSome_iff_exists.mp hSome
  rw [hValue] at hSlot ⊢
  exact ⟨rfl, hSlot.symm⟩

theorem written_object (hWritten : Written shape (.object members)) :
    shape = .value ∨ shape = .map ∨ ∃ inner, shape = .record inner ∧ inner.read members = some members := by
  have hRead : shape.read (.object members) = some (.object members) := hWritten
  cases shape with
  | value => exact .inl rfl
  | map => exact .inr (.inl rfl)
  | record inner =>
    obtain ⟨written, hInner, hSame⟩ := Option.map_eq_some_iff.mp hRead
    exact .inr (.inr ⟨inner, rfl, Json.object.inj hSame ▸ hInner⟩)
  | choice names aliases =>
    obtain ⟨name, hString⟩ := ofChoice_string hRead
    cases hString
  | _ => cases hRead

theorem written_plain (hPlain : ∀ members, ¬ Written shape (.object members)) (hBase : Written shape base)
    (hOver : Written shape overlay) : Written shape (merge_values base overlay) := by
  cases overlay with
  | object members => exact absurd hOver (hPlain members)
  | null => exact hBase
  | _ => exact hOver

theorem read_merge_members {members overrides : JsonMap} (hSound : inner.sound = true)
    (hMembers : inner.read members = some members) (hOverrides : inner.read overrides = some overrides)
    (hEach : ∀ key shape, inner.lookup key = some shape → ∀ base overlay, Written shape base → Written shape overlay →
      Written shape (merge_values base overlay)) :
    inner.read (merge_members members overrides) = some (merge_members members overrides) := by
  have hKeys : (merge_members members overrides).map Prod.fst = inner.names := by
    rw [merge_members_keys members overrides, Fields.read_names inner hMembers]
    rw [Fields.read_names inner hMembers, Fields.read_names inner hOverrides]
    exact fun _ => id
  have hDistinct : Distinct (merge_members members overrides) := by
    unfold Distinct
    rw [hKeys]
    exact names_nodup inner hSound
  have hSlots : ∀ key shape, inner.lookup key = some shape → (merge_members members overrides).lookup key =
      shape.readSlot ((merge_members members overrides).lookup key) := by
    intro key shape hField
    have hMerged := @lookup_merge_members key members overrides (written_keys hSound hOverrides)
    have hWritten := hEach key shape hField _ _ (written_lookup hSound hMembers hField).2
      (written_lookup hSound hOverrides hField).2
    rw [← hMerged] at hWritten
    have hKey : key ∈ (merge_members members overrides).map Prod.fst := hKeys ▸ Fields.mem_names inner hField
    cases hFound : (merge_members members overrides).lookup key with
    | none =>
      obtain ⟨member, hMember, rfl⟩ := List.mem_map.mp hKey
      have hTest := List.lookup_eq_none_iff.mp hFound member hMember
      simp at hTest
    | some value =>
      rw [hFound] at hWritten
      exact hWritten.symm
  have hReads : (inner.read (merge_members members overrides)).isSome := by
    refine (Fields.read_isSome_iff inner hSound).mpr fun key shape hField => ?_
    have hMerged := @lookup_merge_members key members overrides (written_keys hSound hOverrides)
    rw [← hSlots key shape hField]
    have hKey : key ∈ (merge_members members overrides).map Prod.fst := hKeys ▸ Fields.mem_names inner hField
    obtain ⟨member, hMember, rfl⟩ := List.mem_map.mp hKey
    rw [Option.isSome_iff_ne_none, ne_eq, List.lookup_eq_none_iff]
    exact fun hNone => by simpa using hNone member hMember
  obtain ⟨written, hRead⟩ := Option.isSome_iff_exists.mp hReads
  have hSame : written = merge_members members overrides := by
    have hNames : written.map Prod.fst = inner.names := Fields.read_names inner hRead
    refine eq_of_lookup (hNames.trans hKeys.symm) (by unfold Distinct; rw [hNames]; exact names_nodup inner hSound) ?_
    intro key hKey
    obtain ⟨shape, hField⟩ := Fields.exists_lookup inner (hNames ▸ hKey)
    rw [Fields.read_lookup inner hRead hField, ← hSlots key shape hField]
  rw [hRead, hSame]

mutual

theorem written_merge {base overlay : Json} : (shape : Shape) → shape.sound = true → Written shape base → Written shape overlay →
    Written shape (merge_values base overlay)
  | .record inner, hSound, hBase, hOver => by
    have hInner : inner.sound = true := by simpa [Shape.sound] using hSound
    cases overlay with
    | object overrides =>
      cases base with
      | object members =>
        obtain hNot | hNot | ⟨_, hSame, hMembers⟩ := written_object hBase
        · cases hNot
        · cases hNot
        obtain rfl := Shape.record.inj hSame
        obtain hNot | hNot | ⟨_, hSame, hOverrides⟩ := written_object hOver
        · cases hNot
        · cases hNot
        obtain rfl := Shape.record.inj hSame
        show (inner.read (merge_members members overrides)).map Json.object = some (.object (merge_members members overrides))
        rw [read_merge_members hInner hMembers hOverrides
          fun key shape hField => written_merge_field inner hInner key shape hField]
        rfl
      | null | bool _ | number _ | string _ | array _ => exact hOver
    | null => exact hBase
    | bool _ | number _ | string _ | array _ => exact hOver
  | .value, _, _, _ => by
    show Shape.value.readSlot (some _) = some _
    cases merge_values base overlay <;> rfl
  | .map, _, hBase, hOver => by
    cases overlay with
    | object overrides => cases base <;> rfl
    | null => exact hBase
    | _ => exact hOver
  | .bool, _, hBase, hOver => written_plain (fun _ h => nomatch written_object h) hBase hOver
  | .string, _, hBase, hOver => written_plain (fun _ h => nomatch written_object h) hBase hOver
  | .u64, _, hBase, hOver => written_plain (fun _ h => nomatch written_object h) hBase hOver
  | .strings, _, hBase, hOver => written_plain (fun _ h => nomatch written_object h) hBase hOver
  | .values, _, hBase, hOver => written_plain (fun _ h => nomatch written_object h) hBase hOver
  | .choice _ _, _, hBase, hOver => written_plain (fun _ h => nomatch written_object h) hBase hOver
  | .limit, _, hBase, hOver => written_plain (fun _ h => nomatch written_object h) hBase hOver

theorem written_merge_field : (inner : Fields) → inner.sound = true → ∀ key shape, inner.lookup key = some shape →
    ∀ base overlay, Written shape base → Written shape overlay → Written shape (merge_values base overlay)
  | .none, _, _, _, hField => nomatch hField
  | .field name slot rest, hSound, key, shape, hField => by
    simp only [Fields.sound, Bool.and_eq_true, decide_eq_true_eq] at hSound
    rw [Fields.lookup] at hField
    split at hField
    next =>
      obtain rfl := Option.some.inj hField
      exact fun base overlay => written_merge slot hSound.1.2
    next => exact written_merge_field rest hSound.2 key shape hField

end

/-! ## The merge of settings -/

/-- Settings as their type has them: each field as it is written, and each object with distinct keys. -/
structure WellFormed (settings : Settings) : Prop where
  typed : fields.read settings.known = some settings.known
  keyed : settings.to_value.keyed = true

def node (path : List String) (settings : Settings) : Option Node :=
  Json.node path settings.to_value

theorem default_wellFormed : WellFormed .default :=
  ⟨by decide +kernel, by decide +kernel⟩

theorem lookup_unknown_other (hKey : key ∉ fields.names) (members : JsonMap) :
    (unknown members).lookup key = members.lookup key := by
  unfold unknown
  induction members with
  | nil => rfl
  | cons member members ih =>
    obtain ⟨name, value⟩ := member
    by_cases hName : name ∈ fields.names
    · have hNe : key ≠ name := fun hSame => hKey (hSame ▸ hName)
      rw [List.filter_cons_of_neg (by simpa using hName), ih, List.lookup_cons, beq_false_of_ne hNe]
    · rw [List.filter_cons_of_pos (by simpa using hName), List.lookup_cons, List.lookup_cons, ih]

theorem lookup_of_mem {member : String × Json} (hDistinct : Distinct members) (hMember : member ∈ members) :
    members.lookup member.1 = some member.2 := by
  induction members with
  | nil => cases hMember
  | cons head members ih =>
    obtain ⟨hFresh, hRest⟩ := List.nodup_cons.mp hDistinct
    rw [List.lookup_cons]
    obtain rfl | hTail := List.mem_cons.mp hMember
    · rw [beq_self_eq_true]
    · have hNe : member.1 ≠ head.1 := fun hSame => hFresh (hSame ▸ List.mem_map_of_mem hTail)
      rw [beq_false_of_ne hNe]
      exact ih hRest hTail

variable {first second third base overlay settings : Settings}

theorem member_known (hFormed : WellFormed settings) (hField : fields.lookup key = some shape) :
    Written shape (settings.to_value.member key) := by
  have hLookup : settings.to_value.member key = (settings.known.lookup key).getD .null := by
    show ((settings.known ++ settings.extra).lookup key).getD .null = _
    rw [List.lookup_append, settings.extra_unknown key (Fields.mem_names fields hField), Option.or_none]
  rw [hLookup]
  exact (written_lookup fields_sound hFormed.typed hField).2

theorem deep_merge_same (hBase : WellFormed base) (hOver : WellFormed overlay) :
    WellFormed (deep_merge base overlay) ∧
      Same (deep_merge base overlay).to_value (merge_values base.to_value overlay.to_value) := by
  obtain ⟨merged, hMerged⟩ : ∃ merged, merge_values base.to_value overlay.to_value = .object merged := ⟨_, rfl⟩
  have hKeyed : (Json.object merged).keyed = true := hMerged ▸ keyed_merge hBase.keyed _ hOver.keyed
  obtain ⟨hDistinct, hValues⟩ := keyed_object.mp hKeyed
  have hSlot : ∀ key shape, fields.lookup key = some shape →
      shape.readSlot (merged.lookup key) = some ((merged.lookup key).getD .null) := by
    intro key shape hField
    have hMember : (merged.lookup key).getD .null = merge_values (base.to_value.member key) (overlay.to_value.member key) := by
      have hMember := @member_merge base.to_value overlay.to_value hOver.keyed nofun key
      rw [hMerged] at hMember
      exact hMember
    have hWritten := written_merge_field fields fields_sound key shape hField _ _ (member_known hBase hField)
      (member_known hOver hField)
    rw [← hMember] at hWritten
    cases hFound : merged.lookup key with
    | none => rfl
    | some value =>
      rw [hFound] at hWritten
      exact hWritten
  have hReads : (fields.read merged).isSome := by
    refine (Fields.read_isSome_iff fields fields_sound).mpr fun key shape hField => ?_
    rw [hSlot key shape hField]
    rfl
  obtain ⟨written, hRead⟩ := Option.isSome_iff_exists.mp hReads
  have hKnown : ∀ key shape, fields.lookup key = some shape → written.lookup key = some ((merged.lookup key).getD .null) :=
    fun key shape hField => (Fields.read_lookup fields hRead hField).trans (hSlot key shape hField)
  have hResult : ∃ hUnknown, deep_merge base overlay = ⟨written, unknown merged, hUnknown⟩ := by
    refine ⟨fun _ hKey => lookup_unknown hKey merged, ?_⟩
    unfold deep_merge Settings.from_value
    simp only [hMerged, hRead, Option.map_some, Option.getD_some]
  obtain ⟨hUnknown, hResult⟩ := hResult
  rw [hResult]
  have hNames := Fields.read_names fields hRead
  have hFresh : Distinct written := by
    unfold Distinct
    rw [hNames]
    exact names_nodup fields fields_sound
  have hSub : List.Sublist ((unknown merged).map Prod.fst) (merged.map Prod.fst) := List.filter_sublist.map Prod.fst
  refine ⟨⟨Fields.read_written fields fields_sound hRead, keyed_object.mpr ⟨?_, ?_⟩⟩, ?_⟩
  · rw [List.map_append, List.nodup_append]
    refine ⟨hFresh, hSub.nodup hDistinct, ?_⟩
    intro name hName other hOther hSame
    obtain ⟨member, hMember, rfl⟩ := List.mem_map.mp hOther
    have hUnnamed : member.1 ∉ fields.names := by simpa using (List.mem_filter.mp hMember).2
    rw [hNames, hSame] at hName
    exact hUnnamed hName
  · intro member hMember
    obtain hMember | hMember := List.mem_append.mp hMember
    · have hLookup := lookup_of_mem hFresh hMember
      obtain ⟨shape, hField⟩ := Fields.exists_lookup fields (hNames ▸ List.mem_map_of_mem hMember)
      rw [hKnown member.1 shape hField] at hLookup
      rw [← Option.some.inj hLookup]
      exact keyed_member hKeyed member.1
    · exact hValues member (List.mem_filter.mp hMember).1
  · rw [hMerged]
    intro path
    cases path with
    | nil => rfl
    | cons key path =>
      show Json.node path (((written ++ unknown merged).lookup key).getD .null) = Json.node path ((merged.lookup key).getD .null)
      rw [List.lookup_append]
      by_cases hKey : key ∈ fields.names
      · obtain ⟨shape, hField⟩ := Fields.exists_lookup fields hKey
        rw [hKnown key shape hField]
        rfl
      · rw [lookup_eq_none_of_keys (by rwa [hNames]), Option.none_or, lookup_unknown_other hKey]

theorem merge_congr {doc doc' other other' : Json} (hDoc : Same doc doc') (hOther : Same other other')
    (hKeyed : other.keyed = true) (hKeyed' : other'.keyed = true) :
    Same (merge_values doc other) (merge_values doc' other') := by
  intro path
  induction path generalizing doc doc' other other' with
  | nil =>
    have hTop : doc.top = doc'.top := hDoc []
    have hOverTop : other.top = other'.top := hOther []
    exact (top_merge doc other).trans ((by rw [hTop, hOverTop] : _ = _).trans (top_merge doc' other').symm)
  | cons key path ih =>
    have hOverTop : other.top = other'.top := hOther []
    by_cases hValue : ∃ value, other.top = some (.value value)
    · obtain ⟨value, hValue⟩ := hValue
      have hSame : ∀ json : Json, json.top = some (.value value) → json = value := by
        intro json hJson
        cases json <;> first | cases hJson; rfl | cases hJson
      rw [merge_value hValue, merge_value (hOverTop ▸ hValue), hSame other hValue, hSame other' (hOverTop ▸ hValue)]
    · have hPlain : ∀ value, other.top ≠ some (.value value) := fun value hTop => hValue ⟨value, hTop⟩
      rw [Json.node, Json.node, member_merge hKeyed hPlain, member_merge hKeyed' (hOverTop ▸ hPlain)]
      exact ih (fun rest => hDoc (key :: rest)) (fun rest => hOther (key :: rest)) (keyed_member hKeyed key)
        (keyed_member hKeyed' key)

/-! ## The laws of the merge -/

def Leaves (path : List String) (settings : Settings) : Prop :=
  settings.node path = none ∧ Passes path settings.to_value

theorem deep_merge_over (hBase : WellFormed base) (hOver : WellFormed overlay) (hSet : overlay.node path ≠ none) :
    (deep_merge base overlay).node path = overlay.node path :=
  ((deep_merge_same hBase hOver).2 path).trans (node_merge_over hOver.keyed hSet)

theorem deep_merge_node (hBase : WellFormed base) (hOver : WellFormed overlay) (hPasses : Passes path overlay.to_value) :
    (deep_merge base overlay).node path = (overlay.node path).or (base.node path) :=
  ((deep_merge_same hBase hOver).2 path).trans (node_merge hOver.keyed hPasses)

theorem deep_merge_leaves (hBase : WellFormed base) (hOver : WellFormed overlay) (hLeaves : overlay.Leaves path) :
    (deep_merge base overlay).node path = base.node path := by
  rw [deep_merge_node hBase hOver hLeaves.2, hLeaves.1, Option.none_or]

theorem deep_merge_assoc (hFirst : WellFormed first) (hSecond : WellFormed second) (hThird : WellFormed third)
    (hApart : ∀ path value, ¬ (first.node path = some .object ∧ second.node path = some (.value value) ∧
      third.node path = some .object)) (path : List String) :
    (deep_merge (deep_merge first second) third).node path = (deep_merge first (deep_merge second third)).node path := by
  obtain ⟨hLeft, hLeftSame⟩ := deep_merge_same hFirst hSecond
  obtain ⟨hRight, hRightSame⟩ := deep_merge_same hSecond hThird
  have hKeyed := keyed_merge hSecond.keyed _ hThird.keyed
  calc
    (deep_merge (deep_merge first second) third).node path =
        Json.node path (merge_values (deep_merge first second).to_value third.to_value) := (deep_merge_same hLeft hThird).2 path
    _ = Json.node path (merge_values (merge_values first.to_value second.to_value) third.to_value) :=
        merge_congr hLeftSame (fun _ => rfl) hThird.keyed hThird.keyed path
    _ = Json.node path (merge_values first.to_value (merge_values second.to_value third.to_value)) :=
        merge_assoc hSecond.keyed hThird.keyed hFirst.keyed hApart path
    _ = Json.node path (merge_values first.to_value (deep_merge second third).to_value) :=
        merge_congr (fun _ => rfl) (fun rest => (hRightSame rest).symm) hKeyed hRight.keyed path
    _ = (deep_merge first (deep_merge second third)).node path := ((deep_merge_same hFirst hRight).2 path).symm

theorem member_default (key : String) : (Settings.default.to_value).member key = .null := by
  show ((fields.unset ++ []).lookup key).getD .null = .null
  rw [List.append_nil]
  obtain hNone | hNull := lookup_unset key fields
  · rw [hNone]
    rfl
  · rw [hNull]
    rfl

theorem default_leaves (key : String) (path : List String) : Settings.default.Leaves (key :: path) := by
  unfold Leaves node Json.node Passes
  rw [member_default, Json.node_null]
  refine ⟨rfl, nofun, ?_⟩
  induction path with
  | nil => trivial
  | cons key path ih => exact ⟨nofun, ih⟩

theorem deep_merge_default (hFormed : WellFormed settings) (path : List String) :
    (deep_merge settings .default).node path = settings.node path := by
  cases path with
  | nil => exact (deep_merge_same hFormed default_wellFormed).2 []
  | cons key path => exact deep_merge_leaves hFormed default_wellFormed (default_leaves key path)

theorem default_deep_merge (hFormed : WellFormed settings) (path : List String) :
    (deep_merge .default settings).node path = settings.node path := by
  refine ((deep_merge_same default_wellFormed hFormed).2 path).trans ?_
  cases path with
  | nil => rfl
  | cons key path =>
    rw [Json.node, member_merge hFormed.keyed nofun, member_default, merge_null_left]
    rfl

/-- What the merge keeps: it is associative where no value stands between two objects, settings with no
field set change nothing on either side, and no field is lost that the override does not replace. -/
structure MergeLaws : Prop where
  assoc : ∀ first second third, WellFormed first → WellFormed second → WellFormed third →
    (∀ path value, ¬ (first.node path = some .object ∧ second.node path = some (.value value) ∧
      third.node path = some .object)) →
    ∀ path, (deep_merge (deep_merge first second) third).node path = (deep_merge first (deep_merge second third)).node path
  right_unit : ∀ settings, WellFormed settings → ∀ path, (deep_merge settings .default).node path = settings.node path
  left_unit : ∀ settings, WellFormed settings → ∀ path, (deep_merge .default settings).node path = settings.node path
  keeps_over : ∀ base overlay path, WellFormed base → WellFormed overlay → overlay.node path ≠ none →
    (deep_merge base overlay).node path = overlay.node path
  keeps_base : ∀ base overlay path, WellFormed base → WellFormed overlay → Passes path overlay.to_value →
    (deep_merge base overlay).node path = (overlay.node path).or (base.node path)

theorem mergeLaws : MergeLaws where
  assoc := fun _ _ _ hFirst hSecond hThird hApart => deep_merge_assoc hFirst hSecond hThird hApart
  right_unit := fun _ => deep_merge_default
  left_unit := fun _ => default_deep_merge
  keeps_over := fun _ _ _ => deep_merge_over
  keeps_base := fun _ _ _ => deep_merge_node

/-! ## Overrides over a run -/

def effective (global project : Settings) (overrides : List Settings) : Settings :=
  overrides.foldl deep_merge (deep_merge global project)

theorem overridden_formed (hBase : WellFormed base) (hOverrides : ∀ override ∈ overrides, WellFormed override) :
    WellFormed (overrides.foldl deep_merge base) := by
  induction overrides generalizing base with
  | nil => exact hBase
  | cons override overrides ih =>
    obtain ⟨hHead, hTail⟩ := List.forall_mem_cons.mp hOverrides
    exact ih (deep_merge_same hBase hHead).1 hTail

theorem overridden_leaves (hBase : WellFormed base) (hOverrides : ∀ override ∈ overrides, WellFormed override)
    (hLeaves : ∀ override ∈ overrides, override.Leaves path) :
    (overrides.foldl deep_merge base).node path = base.node path := by
  induction overrides generalizing base with
  | nil => rfl
  | cons override overrides ih =>
    obtain ⟨hHead, hTail⟩ := List.forall_mem_cons.mp hOverrides
    obtain ⟨hLeft, hRest⟩ := List.forall_mem_cons.mp hLeaves
    exact (ih (deep_merge_same hBase hHead).1 hTail hRest).trans (deep_merge_leaves hBase hHead hLeft)

namespace Session

def overridesOf (events : List Event) : List Settings :=
  events.filterMap fun
    | .call (.apply_overrides overrides) => some overrides
    | _ => none

/-- The event rebuilds the effective settings from the scopes only before any override, and changes no
scope without rebuilding them. -/
def Steady (session : Session) (overrides : List Settings) : Event → Prop
  | .edited _ _ | .call (.apply_overrides _) | .call .drain_errors => True
  | .call (.record_model_use provider model) =>
    session.manager.global.write (record_model_use provider model session.manager.global) = session.manager.global
  | .call (.set call fault) => ∀ writes, call.setter session.manager.global = .ok writes →
    match fault with
    | none => overrides = []
    | some _ => session.manager.global.writeAll writes = session.manager.global
  | .call (.set_global_resource_array key _ _) | .call (.set_project_resource_array key _ _) =>
    key ∈ SettingsManager.resourceFields → overrides = []
  | .call (.reload _) | .call (.set_packages _ _) | .call (.set_project_packages _ _) => overrides = []

def Layered (session : Session) (overrides : List Settings) : Prop :=
  session.manager.merged = effective session.manager.global session.manager.project overrides

variable {overrides : List Settings} {session : Session} {path : List String}

theorem setResourceArray_layered (hLayered : session.Layered overrides) (scope : SettingsScope) (key : String)
    (values : List String) (fault : Option String) (hSteady : key ∈ SettingsManager.resourceFields → overrides = []) :
    let after := (SettingsManager.setResourceArray scope key values session.manager session.storage fault).manager
    after.merged = effective after.global after.project overrides := by
  unfold SettingsManager.setResourceArray
  split
  next hKey =>
    obtain rfl := hSteady hKey
    rfl
  next => exact hLayered

theorem set_layered (hLayered : session.Layered overrides) (call : Call) (fault : Option String)
    (hSteady : session.Steady overrides (.call (.set call fault))) :
    let after := (session.manager.set call.setter session.storage fault).manager
    after.merged = effective after.global after.project overrides := by
  cases hSetter : call.setter session.manager.global with
  | error refusal =>
    rw [set_of_refused hSetter]
    exact hLayered
  | ok writes =>
    have hSaved := hSteady writes hSetter
    cases fault with
    | none =>
      obtain rfl : overrides = [] := hSaved
      rw [set_of_saved hSetter]
      rfl
    | some error =>
      rw [set_of_fault hSetter]
      show session.manager.merged = effective (session.manager.global.writeAll writes) _ _
      rw [show session.manager.global.writeAll writes = _ from hSaved]
      exact hLayered

theorem step_layered (hLayered : session.Layered overrides) (event : Event) (hSteady : session.Steady overrides event) :
    (session.step event).Layered (overrides ++ overridesOf [event]) := by
  cases event with
  | edited scope content => exact (List.append_nil overrides).symm ▸ hLayered
  | call op =>
    cases op with
    | apply_overrides override =>
      show deep_merge session.manager.merged override =
        (overrides ++ [override]).foldl deep_merge (deep_merge session.manager.global session.manager.project)
      rw [List.foldl_append, show session.manager.merged = _ from hLayered]
      rfl
    | reload faults =>
      obtain rfl : overrides = [] := hSteady
      rfl
    | drain_errors => exact (List.append_nil overrides).symm ▸ hLayered
    | record_model_use provider model =>
      refine (List.append_nil overrides).symm ▸ ?_
      show session.manager.merged = effective (session.manager.global.write _) _ _
      rw [show session.manager.global.write _ = _ from hSteady]
      exact hLayered
    | set call fault => exact (List.append_nil overrides).symm ▸ set_layered hLayered call fault hSteady
    | set_packages packages fault | set_project_packages packages fault =>
      obtain rfl : overrides = [] := hSteady
      rfl
    | set_global_resource_array key values fault =>
      exact (List.append_nil overrides).symm ▸ setResourceArray_layered hLayered .global key values fault hSteady
    | set_project_resource_array key values fault =>
      exact (List.append_nil overrides).symm ▸ setResourceArray_layered hLayered .project key values fault hSteady

def SteadyRun (session : Session) (events : List Event) : Prop :=
  ∀ before event, before ++ [event] <+: events → (session.run before).Steady (overridesOf before) event

theorem run_layered (storage : Storage) (faults : ReadFaults) (events : List Event)
    (hSteady : (start storage faults).SteadyRun events) :
    ((start storage faults).run events).Layered (overridesOf events) := by
  induction events using List.reverseRecOn with
  | nil => rfl
  | append_singleton events event ih =>
    have hBefore := ih fun before other hPrefix => hSteady before other (hPrefix.trans (List.prefix_append _ _))
    have hStep := step_layered hBefore event (hSteady events event (List.prefix_refl _))
    rw [run, List.foldl_append]
    unfold overridesOf
    rw [List.filterMap_append]
    exact hStep

structure Formed (session : Session) (overrides : List Settings) : Prop where
  global : WellFormed session.manager.global
  project : WellFormed session.manager.project
  overrides : ∀ override ∈ overrides, WellFormed override

theorem overridden_shown {before later : List Settings} {override : Settings}
    (hLayered : session.Layered (before ++ override :: later)) (hFormed : session.Formed (before ++ override :: later))
    (hSet : override.node path ≠ none) (hLater : ∀ other ∈ later, other.Leaves path) :
    session.manager.merged.node path = override.node path := by
  obtain ⟨hBefore, hRest⟩ := List.forall_mem_append.mp hFormed.overrides
  obtain ⟨hOverride, hLaterFormed⟩ := List.forall_mem_cons.mp hRest
  have hBase := overridden_formed (deep_merge_same hFormed.global hFormed.project).1 hBefore
  rw [hLayered, effective, List.foldl_append, List.foldl_cons,
    overridden_leaves (deep_merge_same hBase hOverride).1 hLaterFormed hLater]
  exact deep_merge_over hBase hOverride hSet

theorem inherited_shown (hLayered : session.Layered overrides) (hFormed : session.Formed overrides)
    (hProject : session.manager.project.Leaves path) (hOverrides : ∀ override ∈ overrides, override.Leaves path) :
    session.manager.merged.node path = session.manager.global.node path := by
  rw [hLayered, effective, overridden_leaves (deep_merge_same hFormed.global hFormed.project).1 hFormed.overrides
    hOverrides]
  exact deep_merge_leaves hFormed.global hFormed.project hProject

end Session

/-- The effective settings are the scopes and the overrides merged in order, an override's field stays
until a later override touches it, a field that only the global scope has shows it, and the merge keeps
its laws. -/
theorem overrides_layered (storage : Storage) (faults : ReadFaults) (events : List Event)
    (hSteady : (Session.start storage faults).SteadyRun events) :
    let session := (Session.start storage faults).run events
    session.manager.merged =
        effective session.manager.global session.manager.project (Session.overridesOf events) ∧
      (session.Formed (Session.overridesOf events) →
        (∀ before override later path, Session.overridesOf events = before ++ override :: later →
          override.node path ≠ none → (∀ other ∈ later, other.Leaves path) →
          session.manager.merged.node path = override.node path) ∧
        ∀ path, session.manager.project.Leaves path → (∀ override ∈ Session.overridesOf events, override.Leaves path) →
          session.manager.merged.node path = session.manager.global.node path) ∧
      MergeLaws := by
  have hLayered := Session.run_layered storage faults events hSteady
  refine ⟨hLayered, fun hFormed => ⟨?_, ?_⟩, mergeLaws⟩
  · intro before override later path hSplit hSet hLater
    rw [hSplit] at hLayered hFormed
    exact Session.overridden_shown hLayered hFormed hSet hLater
  · intro path hProject hOverrides
    exact Session.inherited_shown hLayered hFormed hProject hOverrides

theorem theme_known : "theme" ∈ fields.names := by
  decide

def themed (theme : String) : Settings :=
  Settings.default.write (field "theme" (.string theme) theme_known)

theorem theme_overridden :
    ((Session.start ⟨none, none⟩ ⟨none, none⟩).run
      [.call (.set (.theme "prime") none), .call (.apply_overrides (themed "dusk"))]).manager.merged =
      effective (themed "prime") .default [themed "dusk"] := by
  refine (overrides_layered ⟨none, none⟩ ⟨none, none⟩
    [.call (.set (.theme "prime") none), .call (.apply_overrides (themed "dusk"))] ?_).1
  intro before event hPrefix
  match before, hPrefix with
  | [], hPrefix =>
    obtain rfl : event = .call (.set (.theme "prime") none) := by simpa using hPrefix
    exact fun _ _ => rfl
  | [_], hPrefix =>
    obtain ⟨-, rfl⟩ : _ ∧ event = .call (.apply_overrides (themed "dusk")) := by simpa using hPrefix
    trivial
  | _ :: _ :: _, hPrefix => simp at hPrefix

def extras (value : Json) : Settings :=
  ⟨fields.unset, unknown [("palette", value)], fun _ hKey => lookup_unknown hKey _⟩

/-- A setter that saves takes an override back, and three objects merge in one order to what they do not
in the other. -/
theorem override_dropped :
    (¬ ∀ (storage : Storage) (faults : ReadFaults) (events : List Event),
      let session := (Session.start storage faults).run events
      session.manager.merged =
        effective session.manager.global session.manager.project (Session.overridesOf events)) ∧
    ¬ ∀ first second third path, WellFormed first → WellFormed second → WellFormed third →
      (deep_merge (deep_merge first second) third).node path = (deep_merge first (deep_merge second third)).node path := by
  constructor
  · intro hAll
    have hDropped := hAll ⟨none, none⟩ ⟨none, none⟩
      [.call (.apply_overrides (themed "dusk")), .call (.set (.quietStartup true) none)]
    exact absurd (congrArg (Settings.node ["theme"]) hDropped) (by decide +kernel)
  · intro hAll
    have hAssoc := hAll (extras (.object [("ink", .bool true)])) (extras (.bool false))
      (extras (.object [("paper", .bool true)])) ["palette", "ink"]
      ⟨by decide +kernel, by decide +kernel⟩ ⟨by decide +kernel, by decide +kernel⟩ ⟨by decide +kernel, by decide +kernel⟩
    exact absurd hAssoc (by decide +kernel)

end PrimeAgent.Settings
