import Mathlib.Algebra.Group.Submonoid.BigOperators
import PrimeAgent.Lib.KeyMap

/-! # An iterative post-order fold

A stack stands in for the recursion over the children of a path; what is folded is kept, and what is on the stack is not
put there again. Where every path is the child of one parent at most, the walk ends after every root, also around a
cycle, and without cycles it gives the recursive sum.
-/
namespace PostOrder

structure Walk (κ M : Type) where
  contribution : KeyMap κ M
  onStack : Finset κ
  stack : List κ

section Definitions

variable {κ M : Type} [DecidableEq κ] [AddCommMonoid M] (children : κ → List κ) (own : κ → M)

def Walk.start : Walk κ M :=
  ⟨.empty, ∅, []⟩

def addFolded (contribution : KeyMap κ M) (total : M) (paths : List κ) : M :=
  paths.foldl (fun total path =>
    match contribution.get path with
    | some folded => total + folded
    | none => total) total

def step (w : Walk κ M) : Walk κ M :=
  match w.stack with
  | [] => w
  | current :: rest =>
    if (w.contribution.get current).isSome then { w with onStack := w.onStack.erase current, stack := rest }
    else
      let pending := (children current).filter fun path => (w.contribution.get path).isNone ∧ path ∉ w.onStack
      if pending = [] then
        { contribution := w.contribution.insert current (addFolded w.contribution (own current) (children current))
          onStack := w.onStack.erase current
          stack := rest }
      else { w with onStack := w.onStack ∪ pending.toFinset, stack := pending.reverse ++ current :: rest }

def run : Nat → Walk κ M → Option (Walk κ M)
  | 0, w => if w.stack = [] then some w else none
  | fuel + 1, w => if w.stack = [] then some w else run fuel (step children own w)

def walkRoot (fuel : Nat) (w : Walk κ M) (root : κ) : Option (Walk κ M) :=
  if (w.contribution.get root).isSome then some w
  else run children own fuel { w with onStack := insert root w.onStack, stack := [root] }

def walkAll (fuel : Nat) : List κ → Walk κ M → Option (Walk κ M)
  | [], w => some w
  | root :: roots, w => (walkRoot children own fuel w root).bind (walkAll fuel roots)

structure Forest : Prop where
  once : ∀ parent, (children parent).Nodup
  alone : ∀ first second child, child ∈ children first → child ∈ children second → first = second

def Acyclic : Prop :=
  ∀ path, ¬ Relation.TransGen (fun parent child => child ∈ children parent) path path

inductive Total : κ → M → Prop where
  | node {path : κ} (sum : κ → M) (hChildren : ∀ child ∈ children path, Total child (sum child)) :
      Total path (own path + ((children path).map sum).sum)

def Linked : List κ → Prop
  | path :: below :: rest => (∃ parent ∈ below :: rest, path ∈ children parent) ∧ Linked (below :: rest)
  | _ => True

def Folded (contribution : KeyMap κ M) (path : κ) (m : M) : Prop :=
  ∃ counted : List κ, counted.Sublist (children path) ∧ (∀ child ∈ counted, (contribution.get child).isSome = true) ∧
    m = own path + (counted.map fun child => (contribution.get child).getD 0).sum

structure Sound (w : Walk κ M) : Prop where
  marks : ∀ path, path ∈ w.onStack ↔ path ∈ w.stack
  nodup : w.stack.Nodup
  unfolded : ∀ path ∈ w.stack, w.contribution.get path = none
  linked : Linked children w.stack
  folded : ∀ path m, w.contribution.get path = some m → Folded children own w.contribution path m

def Summed (w : Walk κ M) : Prop :=
  ∀ path m, w.contribution.get path = some m → Total children own path m

structure Within (values : AddSubmonoid M) (w : Walk κ M) : Prop where
  stacked : ∀ path ∈ w.stack, own path ∈ values
  folded : ∀ path m, w.contribution.get path = some m → m ∈ values

def turns (paths : Finset κ) (w : Walk κ M) : Nat :=
  2 * (paths.filter fun path => w.contribution.get path = none ∧ path ∉ w.onStack).card + w.stack.length

end Definitions

section Links

variable {κ M : Type} [AddCommMonoid M] {children : κ → List κ} {own : κ → M}
  {current path : κ} {rest : List κ} {m : M}

theorem Total.unique {other : M} (hTotal : Total children own path m) (hOther : Total children own path other) :
    m = other := by
  induction hTotal generalizing other with
  | @node path sum hChildren ih =>
    cases hOther with
    | node sum' hChildren' =>
      have hSame : (children path).map sum = (children path).map sum' :=
        List.map_congr_left fun child hMem => ih child hMem (hChildren' child hMem)
      rw [hSame]

theorem addFolded_eq (contribution : KeyMap κ M) (paths : List κ) : ∀ total,
    addFolded contribution total paths = total +
    ((paths.filter fun path => (contribution.get path).isSome).map fun path => (contribution.get path).getD 0).sum := by
  induction paths with
  | nil => exact fun total => (add_zero total).symm
  | cons path paths ih =>
    intro total
    rw [addFolded, List.foldl_cons, ← addFolded, ih]
    cases hFolded : contribution.get path with
    | none => rw [List.filter_cons_of_neg (by rw [hFolded]; exact Bool.false_ne_true)]
    | some folded =>
      rw [List.filter_cons_of_pos (by rw [hFolded]; rfl), List.map_cons, List.sum_cons, hFolded, Option.getD_some,
        add_assoc]

theorem linked_append {parent : κ} (hLinked : Linked children (parent :: rest)) : ∀ pending : List κ,
    (∀ path ∈ pending, path ∈ children parent) → Linked children (pending ++ parent :: rest)
  | [], _ => hLinked
  | [path], hPending => ⟨⟨parent, List.mem_cons_self, hPending path List.mem_cons_self⟩, hLinked⟩
  | path :: next :: pending, hPending =>
    ⟨⟨parent, List.mem_append_right (next :: pending) List.mem_cons_self, hPending path List.mem_cons_self⟩,
      linked_append hLinked (next :: pending) fun later hLater => hPending later (List.mem_cons_of_mem _ hLater)⟩

theorem Linked.tail (hLinked : Linked children (current :: rest)) : Linked children rest := by
  cases rest with
  | nil => trivial
  | cons below rest => exact hLinked.2

theorem Linked.reach : ∀ {stack : List κ}, Linked children stack → ∀ {root : κ}, stack.getLast? = some root →
    ∀ path ∈ stack, Relation.ReflTransGen (fun parent child => child ∈ children parent) root path
  | [], _, _, hLast, _, _ => nomatch hLast
  | [only], _, root, hLast, path, hMem => by
    rw [List.mem_singleton.mp hMem, ← Option.some.inj hLast]
    exact .refl
  | top :: below :: rest, hLinked, root, hLast, path, hMem => by
    have hBelow := Linked.reach hLinked.2 (List.getLast?_cons_cons.symm.trans hLast)
    rcases List.mem_cons.mp hMem with rfl | hMem
    · obtain ⟨parent, hParent, hChild⟩ := hLinked.1
      exact (hBelow parent hParent).tail hChild
    · exact hBelow path hMem

theorem Linked.parent : ∀ {stack : List κ}, Linked children stack → ∀ path ∈ stack,
    stack.getLast? = some path ∨ ∃ before after parent, stack = before ++ path :: after ∧ parent ∈ after ∧
      path ∈ children parent
  | [], _, _, hMem => nomatch hMem
  | [only], _, path, hMem => .inl (by rw [List.mem_singleton.mp hMem]; rfl)
  | top :: below :: rest, hLinked, path, hMem => by
    rcases List.mem_cons.mp hMem with rfl | hMem
    · obtain ⟨parent, hParent, hChild⟩ := hLinked.1
      exact .inr ⟨[], below :: rest, parent, rfl, hParent, hChild⟩
    · obtain hLast | ⟨before, after, parent, hStack, hParent, hChild⟩ := Linked.parent hLinked.2 path hMem
      · exact .inl (List.getLast?_cons_cons.trans hLast)
      · exact .inr ⟨top :: before, after, parent, by rw [hStack]; rfl, hParent, hChild⟩

theorem no_child_on_stack (hForest : Forest children) (hAcyclic : Acyclic children) (hNodup : (current :: rest).Nodup)
    (hLinked : Linked children (current :: rest)) : ∀ child ∈ children current, child ∉ current :: rest := by
  intro child hChild hMem
  obtain hLast | ⟨before, after, parent, hStack, hParent, hOther⟩ := hLinked.parent child hMem
  · have hReach := hLinked.reach hLast current List.mem_cons_self
    exact hAcyclic child (Relation.TransGen.tail' hReach hChild)
  · obtain rfl := hForest.alone _ _ _ hOther hChild
    cases before with
    | nil =>
      obtain ⟨rfl, rfl⟩ := List.cons.inj hStack
      exact (List.nodup_cons.mp hNodup).1 hParent
    | cons top before =>
      obtain ⟨rfl, rfl⟩ := List.cons.inj hStack
      exact (List.nodup_cons.mp hNodup).1 (List.mem_append_right before (List.mem_cons_of_mem _ hParent))

end Links

section Turns

variable {κ M : Type} [DecidableEq κ] [AddCommMonoid M] {children : κ → List κ} {own : κ → M}
  {contribution : KeyMap κ M}
  {w : Walk κ M} {current path : κ} {rest : List κ} {m : M} {paths : Finset κ}

def pendingOf (children : κ → List κ) (w : Walk κ M) (current : κ) : List κ :=
  (children current).filter fun path => (w.contribution.get path).isNone ∧ path ∉ w.onStack

omit [AddCommMonoid M] in
theorem mem_pendingOf {child : κ} : child ∈ pendingOf children w current ↔
    child ∈ children current ∧ w.contribution.get child = none ∧ child ∉ w.onStack := by
  rw [pendingOf, List.mem_filter, decide_eq_true_eq, Option.isNone_iff_eq_none]

theorem step_push (hStack : w.stack = current :: rest) (hNone : w.contribution.get current = none)
    (hPending : pendingOf children w current ≠ []) : step children own w =
      { w with
        onStack := w.onStack ∪ (pendingOf children w current).toFinset
        stack := (pendingOf children w current).reverse ++ current :: rest } := by
  simp only [step, hStack, hNone, Option.isSome_none, Bool.false_eq_true, if_false]
  exact if_neg hPending

theorem step_fold (hStack : w.stack = current :: rest) (hNone : w.contribution.get current = none)
    (hPending : pendingOf children w current = []) : step children own w =
      { contribution := w.contribution.insert current (addFolded w.contribution (own current) (children current))
        onStack := w.onStack.erase current
        stack := rest } := by
  simp only [step, hStack, hNone, Option.isSome_none, Bool.false_eq_true, if_false]
  exact if_pos hPending

theorem Sound.step_cases (hSound : Sound children own w) (hStack : w.stack = current :: rest) :
    (pendingOf children w current ≠ [] ∧ step children own w =
      { w with
        onStack := w.onStack ∪ (pendingOf children w current).toFinset
        stack := (pendingOf children w current).reverse ++ current :: rest }) ∨
    (pendingOf children w current = [] ∧ step children own w =
      { contribution := w.contribution.insert current (addFolded w.contribution (own current) (children current))
        onStack := w.onStack.erase current
        stack := rest }) := by
  have hNone : w.contribution.get current = none := hSound.unfolded current (hStack ▸ List.mem_cons_self)
  by_cases hPending : pendingOf children w current = []
  · exact .inr ⟨hPending, step_fold hStack hNone hPending⟩
  · exact .inl ⟨hPending, step_push hStack hNone hPending⟩

theorem Folded.insert {other : κ} {new : M} (hNone : contribution.get current = none)
    (hFolded : Folded children own contribution other m) :
      Folded children own (contribution.insert current new) other m := by
  obtain ⟨counted, hSublist, hSome, hSum⟩ := hFolded
  have hKeep : ∀ child ∈ counted, (contribution.insert current new).get child = contribution.get child := by
    intro child hMem
    refine KeyMap.get_insert_of_ne _ ?_ _
    rintro rfl
    have hIs := hSome child hMem
    rw [hNone] at hIs
    cases hIs
  refine ⟨counted, hSublist, fun child hMem => by rw [hKeep child hMem]; exact hSome child hMem, ?_⟩
  rw [hSum]
  congr 2
  exact List.map_congr_left fun child hMem => by rw [hKeep child hMem]

theorem folded_new (hNone : contribution.get current = none) : Folded children own
    (contribution.insert current (addFolded contribution (own current) (children current))) current
    (addFolded contribution (own current) (children current)) :=
  Folded.insert hNone ⟨(children current).filter fun path => (contribution.get path).isSome, List.filter_sublist,
    fun _ hMem => (List.mem_filter.mp hMem).2, addFolded_eq _ _ _⟩

theorem Sound.step (hForest : Forest children) (hSound : Sound children own w) :
    Sound children own (step children own w) := by
  cases hStack : w.stack with
  | nil =>
    rw [PostOrder.step, hStack]
    exact hSound
  | cons current rest =>
    have hNone : w.contribution.get current = none := hSound.unfolded current (hStack ▸ List.mem_cons_self)
    have hNodup : (current :: rest).Nodup := hStack ▸ hSound.nodup
    have hLinked : Linked children (current :: rest) := hStack ▸ hSound.linked
    have hMarks : ∀ path, path ∈ w.onStack ↔ path ∈ current :: rest := fun path => hStack ▸ hSound.marks path
    obtain ⟨-, hStep⟩ | ⟨-, hStep⟩ := hSound.step_cases hStack
    · rw [hStep]
      refine ⟨fun path => ?_, ?_, fun path hMem => ?_, ?_, hSound.folded⟩
      · rw [Finset.mem_union, List.mem_toFinset, List.mem_append, List.mem_reverse, hMarks, or_comm]
      · refine List.nodup_append.mpr ⟨List.nodup_reverse.mpr ((hForest.once current).filter _), hNodup, ?_⟩
        rintro path hPending _ hOther rfl
        exact (mem_pendingOf.mp (List.mem_reverse.mp hPending)).2.2 ((hMarks path).mpr hOther)
      · rcases List.mem_append.mp hMem with hPending | hOther
        · exact (mem_pendingOf.mp (List.mem_reverse.mp hPending)).2.1
        · exact hSound.unfolded path (hStack ▸ hOther)
      · exact linked_append hLinked _ fun path hPending => (mem_pendingOf.mp (List.mem_reverse.mp hPending)).1
    · rw [hStep]
      have hCurrent : current ∉ rest := (List.nodup_cons.mp hNodup).1
      refine ⟨fun path => ?_, (List.nodup_cons.mp hNodup).2, fun path hMem => ?_, hLinked.tail, fun path m hGet => ?_⟩
      · rw [Finset.mem_erase, hMarks, List.mem_cons]
        constructor
        · rintro ⟨hOther, hSame | hRest⟩
          · exact absurd hSame hOther
          · exact hRest
        · exact fun hRest => ⟨fun hSame => hCurrent (hSame ▸ hRest), .inr hRest⟩
      · have hOther : path ≠ current := by
          rintro rfl
          exact hCurrent hMem
        rw [KeyMap.get_insert_of_ne _ hOther _]
        exact hSound.unfolded path (hStack ▸ List.mem_cons_of_mem _ hMem)
      · dsimp only at hGet
        rw [KeyMap.get_insert] at hGet
        split at hGet
        next hSame =>
          obtain rfl := Option.some.inj hGet
          rw [hSame]
          exact folded_new hNone
        next => exact (hSound.folded path m hGet).insert hNone

theorem turns_step (hForest : Forest children) (hPaths : ∀ parent, ∀ child ∈ children parent, child ∈ paths)
    (hSound : Sound children own w) (hStack : w.stack ≠ []) : turns paths (step children own w) < turns paths w := by
  obtain ⟨current, rest, hTop⟩ := List.exists_cons_of_ne_nil hStack
  have hNone : w.contribution.get current = none := hSound.unfolded current (hTop ▸ List.mem_cons_self)
  have hMarks : ∀ path, path ∈ w.onStack ↔ path ∈ current :: rest := fun path => hTop ▸ hSound.marks path
  obtain ⟨hPending, hStep⟩ | ⟨hPending, hStep⟩ := hSound.step_cases hTop
  · have hSubset : (pendingOf children w current).toFinset ⊆
        paths.filter fun path => w.contribution.get path = none ∧ path ∉ w.onStack := by
      intro child hMem
      obtain ⟨hChild, hFresh⟩ := mem_pendingOf.mp (List.mem_toFinset.mp hMem)
      exact Finset.mem_filter.mpr ⟨hPaths current child hChild, hFresh⟩
    have hLess : (paths.filter fun path => w.contribution.get path = none ∧
        path ∉ w.onStack ∪ (pendingOf children w current).toFinset) =
        (paths.filter fun path => w.contribution.get path = none ∧ path ∉ w.onStack) \
          (pendingOf children w current).toFinset := by
      ext path
      simp only [Finset.mem_filter, Finset.mem_union, Finset.mem_sdiff, not_or, and_assoc]
    have hCard : (pendingOf children w current).toFinset.card = (pendingOf children w current).length :=
      List.toFinset_card_of_nodup ((hForest.once current).filter _)
    have hLe := Finset.card_le_card hSubset
    have hPos := List.length_pos_of_ne_nil hPending
    rw [hStep, turns, turns, hTop]
    dsimp only
    rw [hLess, Finset.card_sdiff_of_subset hSubset, List.length_append, List.length_reverse]
    omega
  · have hSame : (paths.filter fun path => (w.contribution.insert current
        (addFolded w.contribution (own current) (children current))).get path = none ∧ path ∉ w.onStack.erase current) =
        paths.filter fun path => w.contribution.get path = none ∧ path ∉ w.onStack := by
      refine Finset.filter_congr fun path _ => ?_
      rw [KeyMap.get_insert, Finset.mem_erase]
      split
      next hCurrent =>
        subst hCurrent
        simp [(hMarks path).mpr List.mem_cons_self]
      next hOther => simp [hOther]
    rw [hStep, turns, turns, hTop]
    dsimp only
    rw [hSame, List.length_cons]
    omega

def Seen (w : Walk κ M) (path : κ) : Prop :=
  path ∈ w.stack ∨ (w.contribution.get path).isSome = true

theorem Seen.step (hSound : Sound children own w) (hSeen : Seen w path) : Seen (step children own w) path := by
  cases hStack : w.stack with
  | nil =>
    rw [PostOrder.step, hStack]
    exact hSeen
  | cons current rest =>
    rw [Seen, hStack] at hSeen
    obtain ⟨-, hStep⟩ | ⟨-, hStep⟩ := hSound.step_cases hStack
    · rw [hStep]
      exact hSeen.imp_left fun hMem => List.mem_append_right _ hMem
    · rw [hStep, Seen]
      dsimp only
      rw [KeyMap.get_insert]
      split
      next => exact .inr rfl
      next hOther => exact hSeen.imp_left fun hMem => (List.mem_cons.mp hMem).resolve_left hOther

theorem Summed.step (hForest : Forest children) (hAcyclic : Acyclic children) (hSound : Sound children own w)
    (hSummed : Summed children own w) : Summed children own (step children own w) := by
  cases hStack : w.stack with
  | nil =>
    rw [PostOrder.step, hStack]
    exact hSummed
  | cons current rest =>
    obtain ⟨-, hStep⟩ | ⟨hPending, hStep⟩ := hSound.step_cases hStack
    · rw [hStep]
      exact hSummed
    · have hOff := no_child_on_stack hForest hAcyclic (hStack ▸ hSound.nodup) (hStack ▸ hSound.linked)
      have hFolded : ∀ child ∈ children current, (w.contribution.get child).isSome = true := by
        intro child hChild
        by_contra hNot
        have hFresh : child ∈ pendingOf children w current := by
          refine mem_pendingOf.mpr ⟨hChild, Option.not_isSome_iff_eq_none.mp hNot, fun hMarked => ?_⟩
          exact hOff child hChild (hStack ▸ (hSound.marks child).mp hMarked)
        rw [hPending] at hFresh
        cases hFresh
      intro path m hGet
      rw [hStep] at hGet
      dsimp only at hGet
      rw [KeyMap.get_insert] at hGet
      split at hGet
      next hSame =>
        obtain rfl := Option.some.inj hGet
        rw [hSame, addFolded_eq, List.filter_eq_self.mpr hFolded]
        refine .node _ fun child hChild => ?_
        obtain ⟨folded, hGetChild⟩ := Option.isSome_iff_exists.mp (hFolded child hChild)
        rw [hGetChild]
        exact hSummed child folded hGetChild
      next => exact hSummed path m hGet

theorem Within.step {values : AddSubmonoid M} (hOwn : ∀ parent, ∀ child ∈ children parent, own child ∈ values)
    (hSound : Sound children own w) (hWithin : Within own values w) : Within own values (step children own w) := by
  cases hStack : w.stack with
  | nil =>
    rw [PostOrder.step, hStack]
    exact hWithin
  | cons current rest =>
    have hOpen : ∀ path ∈ current :: rest, own path ∈ values := hStack ▸ hWithin.stacked
    obtain ⟨-, hStep⟩ | ⟨-, hStep⟩ := hSound.step_cases hStack
    · rw [hStep]
      refine ⟨fun path hMem => ?_, hWithin.folded⟩
      rcases List.mem_append.mp hMem with hPending | hOther
      · exact hOwn current path (mem_pendingOf.mp (List.mem_reverse.mp hPending)).1
      · exact hOpen path hOther
    · rw [hStep]
      refine ⟨fun path hMem => hOpen path (List.mem_cons_of_mem _ hMem), fun path m hGet => ?_⟩
      dsimp only at hGet
      rw [KeyMap.get_insert] at hGet
      split at hGet
      next =>
        obtain rfl := Option.some.inj hGet
        rw [addFolded_eq]
        refine values.add_mem (hOpen current List.mem_cons_self) (values.list_sum_mem fun m hMem => ?_)
        obtain ⟨child, hChild, rfl⟩ := List.mem_map.mp hMem
        obtain ⟨folded, hFolded⟩ := Option.isSome_iff_exists.mp (List.mem_filter.mp hChild).2
        rw [hFolded]
        exact hWithin.folded child folded hFolded
      next => exact hWithin.folded path m hGet

structure Ended (children : κ → List κ) (own : κ → M) (w w' : Walk κ M) : Prop where
  stack : w'.stack = []
  sound : Sound children own w'
  folds : ∀ path, Seen w path → (w'.contribution.get path).isSome = true
  sums : Acyclic children → Summed children own w → Summed children own w'
  within : ∀ values : AddSubmonoid M, (∀ parent, ∀ child ∈ children parent, own child ∈ values) →
    Within own values w → Within own values w'

omit [DecidableEq κ] in
theorem ended_self (hSound : Sound children own w) (hStack : w.stack = []) : Ended children own w w where
  stack := hStack
  sound := hSound
  folds path hSeen := by
    rw [Seen, hStack] at hSeen
    exact hSeen.resolve_left List.not_mem_nil
  sums _ hSummed := hSummed
  within _ _ hWithin := hWithin

theorem run_ends (hForest : Forest children) (hPaths : ∀ parent, ∀ child ∈ children parent, child ∈ paths) :
    ∀ (fuel : Nat) (w : Walk κ M), Sound children own w → turns paths w ≤ fuel →
      ∃ w', run children own fuel w = some w' ∧ Ended children own w w' := by
  intro fuel
  induction fuel with
  | zero =>
    intro w hSound hTurns
    have hStack : w.stack = [] := by
      rw [turns] at hTurns
      exact List.length_eq_zero_iff.mp (by omega)
    exact ⟨w, if_pos hStack, ended_self hSound hStack⟩
  | succ fuel ih =>
    intro w hSound hTurns
    by_cases hStack : w.stack = []
    · exact ⟨w, if_pos hStack, ended_self hSound hStack⟩
    · have hLess := turns_step hForest hPaths hSound hStack
      obtain ⟨w', hRun, hEnded⟩ := ih (step children own w) (hSound.step hForest) (by omega)
      refine ⟨w', (if_neg hStack).trans hRun, ?_⟩
      exact {
        stack := hEnded.stack
        sound := hEnded.sound
        folds := fun path hSeen => hEnded.folds path (hSeen.step hSound)
        sums := fun hAcyclic hSummed => hEnded.sums hAcyclic (hSummed.step hForest hAcyclic hSound)
        within := fun values hOwn hWithin => hEnded.within values hOwn (hWithin.step hOwn hSound) }

theorem walkRoot_ends (hForest : Forest children) (hPaths : ∀ parent, ∀ child ∈ children parent, child ∈ paths)
    {fuel : Nat}
    (hFuel : 2 * paths.card + 1 ≤ fuel) (hSound : Sound children own w) (hStack : w.stack = []) {root : κ}
    (hRoot : ∃ parent, root ∈ children parent) :
    ∃ w', walkRoot children own fuel w root = some w' ∧ Ended children own w w' ∧
      (w'.contribution.get root).isSome = true := by
  rw [walkRoot]
  split
  next hFolded =>
    exact ⟨w, rfl, ended_self hSound hStack, hFolded⟩
  next hFresh =>
    have hEmpty : ∀ path, path ∉ w.onStack := fun path hMem => by
      have hOn := (hSound.marks path).mp hMem
      rw [hStack] at hOn
      cases hOn
    have hRooted : Sound children own { w with onStack := insert root w.onStack, stack := [root] } := by
      refine ⟨fun path => ?_, List.nodup_singleton root, fun path hMem => ?_, trivial, hSound.folded⟩
      · rw [Finset.mem_insert, List.mem_singleton]
        exact ⟨fun hMem => hMem.resolve_right (hEmpty path), .inl⟩
      · rw [List.mem_singleton.mp hMem]
        exact Option.not_isSome_iff_eq_none.mp hFresh
    have hTurns : turns paths { w with onStack := insert root w.onStack, stack := [root] } ≤ fuel := by
      rw [turns]
      dsimp only
      have hLe := Finset.card_filter_le paths fun path => w.contribution.get path = none ∧ path ∉ insert root w.onStack
      rw [List.length_singleton]
      omega
    obtain ⟨w', hRun, hEnded⟩ := run_ends hForest hPaths fuel _ hRooted hTurns
    refine ⟨w', hRun, ⟨hEnded.stack, hEnded.sound, fun path hSeen => ?_, hEnded.sums, fun values hOwn hWithin => ?_⟩,
      hEnded.folds root (.inl List.mem_cons_self)⟩
    · rw [Seen, hStack] at hSeen
      exact hEnded.folds path (.inr (hSeen.resolve_left List.not_mem_nil))
    · obtain ⟨parent, hChild⟩ := hRoot
      refine hEnded.within values hOwn ⟨fun path hMem => ?_, hWithin.folded⟩
      rw [List.mem_singleton.mp hMem]
      exact hOwn parent root hChild

theorem walkAll_ends (hForest : Forest children) (hPaths : ∀ parent, ∀ child ∈ children parent, child ∈ paths)
    {fuel : Nat}
    (hFuel : 2 * paths.card + 1 ≤ fuel) : ∀ (roots : List κ) (w : Walk κ M),
      (∀ root ∈ roots, ∃ parent, root ∈ children parent) →
      Sound children own w → w.stack = [] → ∃ w', walkAll children own fuel roots w = some w' ∧
        Ended children own w w' ∧
        ∀ root ∈ roots, (w'.contribution.get root).isSome = true := by
  intro roots
  induction roots with
  | nil =>
    intro w _ hSound hStack
    exact ⟨w, rfl, ended_self hSound hStack, fun _ hMem => nomatch hMem⟩
  | cons root roots ih =>
    intro w hChildren hSound hStack
    obtain ⟨hChild, hChildren⟩ := List.forall_mem_cons.mp hChildren
    obtain ⟨next, hFirst, hNext, hRoot⟩ := walkRoot_ends hForest hPaths hFuel hSound hStack hChild
    obtain ⟨w', hRest, hEnded, hRoots⟩ := ih next hChildren hNext.sound hNext.stack
    refine ⟨w', ?_, ⟨hEnded.stack, hEnded.sound, fun path hSeen => ?_, fun hAcyclic hSummed => ?_,
      fun values hOwn hIn => ?_⟩, ?_⟩
    · rw [walkAll, hFirst]
      exact hRest
    · exact hEnded.folds path (.inr (hNext.folds path hSeen))
    · exact hEnded.sums hAcyclic (hNext.sums hAcyclic hSummed)
    · exact hEnded.within values hOwn (hNext.within values hOwn hIn)
    · exact List.forall_mem_cons.mpr ⟨hEnded.folds root (.inr hRoot), hRoots⟩

omit [DecidableEq κ] in
theorem sound_start : Sound children own (.start : Walk κ M) where
  marks path := by simp [Walk.start]
  nodup := List.nodup_nil
  unfolded _ hMem := nomatch hMem
  linked := trivial
  folded _ _ hGet := nomatch hGet

omit [DecidableEq κ] in
theorem summed_start : Summed children own (.start : Walk κ M) :=
  fun _ _ hGet => nomatch hGet

omit [DecidableEq κ] in
theorem Summed.get (hSummed : Summed children own w) (hGet : w.contribution.get path = some m)
    (hChildren : ∀ child ∈ children path, (w.contribution.get child).isSome = true) :
    m = own path + ((children path).map fun child => (w.contribution.get child).getD 0).sum := by
  cases hSummed path m hGet with
  | node sum hSums =>
    congr 2
    refine List.map_congr_left fun child hMem => ?_
    obtain ⟨folded, hFolded⟩ := Option.isSome_iff_exists.mp (hChildren child hMem)
    rw [hFolded, Option.getD_some]
    exact (hSums child hMem).unique (hSummed child folded hFolded)

end Turns

end PostOrder
