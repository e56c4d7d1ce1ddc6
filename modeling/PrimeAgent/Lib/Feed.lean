import PrimeAgent.Lib.KeyMap

/-! # A feed of updates to a map

Writers change a map and hand each change to a feed afterwards, which sends it on without what it has sent already. A
view that starts from the map and takes what the feed sends ends with the map, if changes of one key are handed on in
their order.
-/
namespace Feed

structure Update (κ α : Type) where
  changed : List (κ × α)
  removed : List κ
deriving DecidableEq

variable {κ α : Type} [DecidableEq κ] {changed : List (κ × α)} {k : κ}

def insertAll (rows : KeyMap κ α) (changed : List (κ × α)) : KeyMap κ α :=
  changed.foldl (fun rows p => rows.insert p.1 p.2) rows

def removeAll (rows : KeyMap κ α) (removed : List κ) : KeyMap κ α :=
  removed.foldl KeyMap.remove rows

namespace Update

def apply (rows : KeyMap κ α) (u : Update κ α) : KeyMap κ α :=
  removeAll (insertAll rows u.changed) u.removed

def Touches (u : Update κ α) (k : κ) : Prop :=
  (∃ p ∈ u.changed, p.1 = k) ∨ k ∈ u.removed

end Update

/-! ## One update -/

theorem get_insertAll_untouched (h : ∀ p ∈ changed, p.1 ≠ k) (rows : KeyMap κ α) :
    (insertAll rows changed).get k = rows.get k := by
  induction changed generalizing rows with
  | nil => rfl
  | cons p changed ih =>
    obtain ⟨hHead, hTail⟩ := List.forall_mem_cons.mp h
    show (insertAll (rows.insert p.1 p.2) changed).get k = rows.get k
    rw [ih hTail, KeyMap.get_insert_of_ne _ hHead.symm]

theorem get_insertAll_touched (h : ∃ p ∈ changed, p.1 = k) (rows rows' : KeyMap κ α) :
    (insertAll rows changed).get k = (insertAll rows' changed).get k := by
  induction changed generalizing rows rows' with
  | nil =>
    obtain ⟨p, hMem, -⟩ := h
    cases hMem
  | cons p changed ih =>
    show (insertAll (rows.insert p.1 p.2) changed).get k = (insertAll (rows'.insert p.1 p.2) changed).get k
    by_cases hTail : ∃ q ∈ changed, q.1 = k
    · exact ih hTail _ _
    · have hNone : ∀ q ∈ changed, q.1 ≠ k := fun q hMem hSame => hTail ⟨q, hMem, hSame⟩
      obtain ⟨q, hMem, hKey⟩ := h
      obtain rfl | hMem := List.mem_cons.mp hMem
      · rw [get_insertAll_untouched hNone, get_insertAll_untouched hNone, ← hKey, KeyMap.get_insert_self,
          KeyMap.get_insert_self]
      · exact absurd hKey (hNone q hMem)

theorem get_removeAll (removed : List κ) (rows : KeyMap κ α) (k : κ) :
    (removeAll rows removed).get k = if k ∈ removed then none else rows.get k := by
  induction removed generalizing rows with
  | nil => simp [removeAll]
  | cons id removed ih =>
    show (removeAll (rows.remove id) removed).get k = _
    rw [ih, KeyMap.get_remove]
    by_cases hTail : k ∈ removed
    · simp [hTail]
    · by_cases hHead : k = id
      · simp [hHead]
      · simp [hTail, hHead]

namespace Update

variable {u v : Update κ α} {rows rows' : KeyMap κ α} {k : κ}

theorem get_apply_untouched (h : ¬ u.Touches k) : (u.apply rows).get k = rows.get k := by
  obtain ⟨hChanged, hRemoved⟩ := not_or.mp h
  rw [apply, get_removeAll, if_neg hRemoved, get_insertAll_untouched]
  exact fun p hMem hSame => hChanged ⟨p, hMem, hSame⟩

theorem get_apply_touched (h : u.Touches k) : (u.apply rows).get k = (u.apply rows').get k := by
  rw [apply, apply, get_removeAll, get_removeAll]
  by_cases hRemoved : k ∈ u.removed
  · rw [if_pos hRemoved, if_pos hRemoved]
  · rw [if_neg hRemoved, if_neg hRemoved]
    exact get_insertAll_touched (h.resolve_right hRemoved) _ _

theorem apply_comm (hApart : ∀ k, u.Touches k → ¬ v.Touches k) : v.apply (u.apply rows) = u.apply (v.apply rows) := by
  ext1 k
  by_cases hU : u.Touches k
  · rw [get_apply_untouched (hApart k hU)]
    exact get_apply_touched hU
  · rw [get_apply_untouched hU]
    by_cases hV : v.Touches k
    · exact get_apply_touched hV
    · rw [get_apply_untouched hV, get_apply_untouched hV, get_apply_untouched hU]

end Update

/-! ## The guard -/

variable [DecidableEq α]

def guardChanged : KeyMap κ α → List (κ × α) → KeyMap κ α × List (κ × α)
  | last, [] => (last, [])
  | last, (k, row) :: changed =>
    if last.get k = some row then guardChanged last changed
    else
      let (last, sent) := guardChanged (last.insert k row) changed
      (last, (k, row) :: sent)

def guardRemoved : KeyMap κ α → List κ → KeyMap κ α × List κ
  | last, [] => (last, [])
  | last, k :: removed =>
    if last.contains k then
      let (last, sent) := guardRemoved (last.remove k) removed
      (last, k :: sent)
    else guardRemoved last removed

def send (last : KeyMap κ α) (u : Update κ α) : KeyMap κ α × Update κ α :=
  let (last, changed) := guardChanged last u.changed
  let (last, removed) := guardRemoved last u.removed
  (last, ⟨changed, removed⟩)

def Level (last last' view view' : KeyMap κ α) (k : κ) : Prop :=
  view'.get k = last'.get k ∨ (view'.get k = view.get k ∧ last'.get k = last.get k)

omit [DecidableEq κ] [DecidableEq α] in
theorem Level.trans {last last' last'' view view' view'' : KeyMap κ α} (h : Level last last' view view' k)
    (h' : Level last' last'' view' view'' k) : Level last last'' view view'' k := by
  obtain hSame | ⟨hView, hLast⟩ := h'
  · exact .inl hSame
  · obtain hSame | ⟨hView', hLast'⟩ := h
    · exact .inl (hView.trans (hSame.trans hLast.symm))
    · exact .inr ⟨hView.trans hView', hLast.trans hLast'⟩

theorem guardChanged_spec (last view : KeyMap κ α) (changed : List (κ × α)) :
    (guardChanged last changed).1 = insertAll last changed ∧
      ∀ k, Level last (insertAll last changed) view (insertAll view (guardChanged last changed).2) k := by
  induction changed generalizing last view with
  | nil => exact ⟨rfl, fun k => .inr ⟨rfl, rfl⟩⟩
  | cons p changed ih =>
    obtain ⟨k, row⟩ := p
    rw [guardChanged]
    by_cases hSame : last.get k = some row
    · have hStays : last.insert k row = last := by
        ext1 k'
        rw [KeyMap.get_insert]
        split
        next hKey => rw [hKey, hSame]
        next => rfl
      rw [if_pos hSame, insertAll, List.foldl_cons, hStays]
      exact ih last view
    · rw [if_neg hSame]
      obtain ⟨hLast, hLevel⟩ := ih (last.insert k row) (view.insert k row)
      refine ⟨hLast, fun k' => Level.trans ?_ (hLevel k')⟩
      unfold Level
      rw [KeyMap.get_insert, KeyMap.get_insert]
      split
      next => exact .inl rfl
      next => exact .inr ⟨rfl, rfl⟩

omit [DecidableEq α] in
theorem guardRemoved_spec (last view : KeyMap κ α) (removed : List κ) :
    (guardRemoved last removed).1 = removeAll last removed ∧
      ∀ k, Level last (removeAll last removed) view (removeAll view (guardRemoved last removed).2) k := by
  induction removed generalizing last view with
  | nil => exact ⟨rfl, fun k => .inr ⟨rfl, rfl⟩⟩
  | cons k removed ih =>
    rw [guardRemoved]
    by_cases hHeld : last.contains k = true
    · rw [if_pos hHeld]
      obtain ⟨hLast, hLevel⟩ := ih (last.remove k) (view.remove k)
      refine ⟨hLast, fun k' => Level.trans ?_ (hLevel k')⟩
      unfold Level
      rw [KeyMap.get_remove, KeyMap.get_remove]
      split
      next => exact .inl rfl
      next => exact .inr ⟨rfl, rfl⟩
    · have hStays : last.remove k = last := by
        ext1 k'
        rw [KeyMap.get_remove]
        split
        next hKey =>
          rw [hKey]
          exact (Option.not_isSome_iff_eq_none.mp hHeld).symm
        next => rfl
      rw [if_neg hHeld, removeAll, List.foldl_cons, hStays]
      exact ih last view

theorem send_spec (last view : KeyMap κ α) (u : Update κ α) :
    (send last u).1 = u.apply last ∧ ∀ k, Level last (u.apply last) view ((send last u).2.apply view) k := by
  obtain ⟨hChanged, hLevel⟩ := guardChanged_spec last view u.changed
  obtain ⟨hRemoved, hLevel'⟩ :=
    guardRemoved_spec (insertAll last u.changed) (insertAll view (guardChanged last u.changed).2) u.removed
  constructor
  · show (guardRemoved (guardChanged last u.changed).1 u.removed).1 = _
    rw [hChanged]
    exact hRemoved
  · intro k
    have hSent : (send last u).2.apply view =
        removeAll (insertAll view (guardChanged last u.changed).2)
          (guardRemoved (insertAll last u.changed) u.removed).2 := by
      rw [← hChanged]
      rfl
    rw [hSent]
    exact (hLevel k).trans (hLevel' k)

/-! ## A run of the feed -/

end Feed

/-- `pending` are the changes that have been made and not handed on, in the order in which they were made. -/
structure Feed (κ α : Type) where
  last : KeyMap κ α
  pending : List (Feed.Update κ α)
  view : Option (KeyMap κ α)

namespace Feed

variable {κ α : Type} [DecidableEq κ]

def start : Feed κ α :=
  ⟨KeyMap.empty, [], none⟩

def note (f : Feed κ α) (u : Update κ α) : Feed κ α :=
  { f with pending := f.pending ++ [u] }

def publish [DecidableEq α] (f : Feed κ α) (i : Nat) : Feed κ α :=
  match f.pending[i]? with
  | none => f
  | some u =>
    let (last, sent) := send f.last u
    { last := last, pending := f.pending.eraseIdx i, view := f.view.map sent.apply }

def subscribe (f : Feed κ α) (rows : KeyMap κ α) : Feed κ α :=
  { f with view := some rows }

/-- No earlier change that is still pending has a key of the one at `i`. -/
def InTurn (f : Feed κ α) (i : Nat) : Prop :=
  ∀ u, f.pending[i]? = some u → ∀ v ∈ f.pending.take i, ∀ k, u.Touches k → ¬ v.Touches k

/-- The map is the last sent rows with what is pending, and a view is level with them or ahead by a pending change. -/
structure Tracks (rows : KeyMap κ α) (f : Feed κ α) : Prop where
  rows_eq : rows = f.pending.foldl Update.apply f.last
  view : ∀ view, f.view = some view → ∀ k, view.get k = f.last.get k ∨
    ∃ u ∈ f.pending, u.Touches k ∧ ∀ rows, (u.apply rows).get k = view.get k

variable {rows : KeyMap κ α} {f : Feed κ α}

theorem tracks_start : Tracks KeyMap.empty (start : Feed κ α) := by
  constructor
  · rfl
  · intro view hView
    cases hView

theorem tracks_note (h : Tracks rows f) (u : Update κ α) : Tracks (u.apply rows) (f.note u) := by
  constructor
  · rw [note, List.foldl_append, ← h.rows_eq]
    rfl
  · intro view hView k
    obtain hLevel | ⟨v, hMem, hAhead⟩ := h.view view hView k
    · exact .inl hLevel
    · exact .inr ⟨v, List.mem_append_left _ hMem, hAhead⟩

theorem get_foldl_apply (pending : List (Update κ α)) (rows : KeyMap κ α) (k : κ) :
    (pending.foldl Update.apply rows).get k = rows.get k ∨
      ∃ u ∈ pending, u.Touches k ∧ ∀ rows', (u.apply rows').get k = (pending.foldl Update.apply rows).get k := by
  induction pending generalizing rows with
  | nil => exact .inl rfl
  | cons v pending ih =>
    rw [List.foldl_cons]
    obtain hSame | ⟨u, hMem, hTouches, hValue⟩ := ih (v.apply rows)
    · rw [hSame]
      by_cases hTouches : v.Touches k
      · exact .inr ⟨v, List.mem_cons_self, hTouches, fun rows' => Update.get_apply_touched hTouches⟩
      · exact .inl (Update.get_apply_untouched hTouches)
    · exact .inr ⟨u, List.mem_cons_of_mem _ hMem, hTouches, hValue⟩

theorem tracks_subscribe (h : Tracks rows f) : Tracks rows (f.subscribe rows) := by
  constructor
  · exact h.rows_eq
  · intro view hView k
    obtain rfl := Option.some.inj hView
    rw [h.rows_eq]
    exact get_foldl_apply f.pending f.last k

theorem foldl_apply_first {before after : List (Update κ α)} {u : Update κ α} (rows : KeyMap κ α)
    (hApart : ∀ v ∈ before, ∀ k, u.Touches k → ¬ v.Touches k) :
    (before ++ u :: after).foldl Update.apply rows = (before ++ after).foldl Update.apply (u.apply rows) := by
  induction before generalizing rows with
  | nil => rfl
  | cons v before ih =>
    obtain ⟨hHead, hTail⟩ := List.forall_mem_cons.mp hApart
    rw [List.cons_append, List.foldl_cons, ih _ hTail, List.cons_append, List.foldl_cons, Update.apply_comm hHead]

theorem tracks_publish [DecidableEq α] (h : Tracks rows f) {i : Nat} (hTurn : f.InTurn i) : Tracks rows (f.publish i) := by
  unfold publish
  cases hAt : f.pending[i]? with
  | none => exact h
  | some u =>
    obtain ⟨hLt, hElem⟩ := List.getElem?_eq_some_iff.mp hAt
    have hSplit : f.pending = f.pending.take i ++ u :: f.pending.drop (i + 1) := by
      rw [← hElem, ← List.drop_eq_getElem_cons hLt, List.take_append_drop]
    have hErased : f.pending.eraseIdx i = f.pending.take i ++ f.pending.drop (i + 1) :=
      List.eraseIdx_eq_take_drop_succ _ _
    constructor
    · show rows = (f.pending.eraseIdx i).foldl Update.apply (send f.last u).1
      rw [(send_spec f.last f.last u).1, hErased, ← foldl_apply_first f.last (hTurn u hAt), ← hSplit]
      exact h.rows_eq
    · intro view' hView k
      obtain ⟨view, hOld, rfl⟩ := Option.map_eq_some_iff.mp hView
      show _ = (send f.last u).1.get k ∨ ∃ v ∈ f.pending.eraseIdx i, _
      obtain ⟨hLast, hLevel⟩ := send_spec f.last view u
      rw [hLast]
      obtain hSame | ⟨hView', hLast'⟩ := hLevel k
      · exact .inl hSame
      · obtain hBefore | ⟨v, hMem, hTouches, hAhead⟩ := h.view view hOld k
        · exact .inl (hView'.trans (hBefore.trans hLast'.symm))
        · rw [hSplit, List.mem_append, List.mem_cons] at hMem
          have hRest : v = u ∨ v ∈ f.pending.eraseIdx i := by
            rw [hErased, List.mem_append]
            tauto
          obtain rfl | hMem := hRest
          · exact .inl (hView'.trans (hAhead f.last).symm)
          · refine .inr ⟨v, hMem, hTouches, fun rows => ?_⟩
            exact (hAhead rows).trans hView'.symm

theorem Tracks.settled {view : KeyMap κ α} (h : Tracks rows f) (hDone : f.pending = []) (hView : f.view = some view) :
    view = rows := by
  ext1 k
  rw [h.rows_eq, hDone]
  obtain hLevel | ⟨u, hMem, -⟩ := h.view view hView k
  · exact hLevel
  · rw [hDone] at hMem
    cases hMem

end Feed
