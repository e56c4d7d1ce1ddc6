import PrimeAgent.Queue.Lanes

/-! # The order of the lanes and what leaves them

Where no row is moved and none changes its lane, a lane is in order: by priority, and by admission within a priority. A
delivery takes rows off the front, so it keeps that order. No row leaves twice.
-/
namespace PrimeAgent.Queue

def Lane.other : Lane → Lane
  | .steering => .followUp
  | .followUp => .steering

def Row.key (row : Row) : Nat × Nat :=
  (rank row.item.priority, row.number)

def keys (rows : List Row) : List (Nat × Nat) :=
  rows.map Row.key

/-- The first is delivered before the second: it is of a higher priority, or admitted earlier into the same one. -/
def Before (a b : Nat × Nat) : Prop :=
  b.1 < a.1 ∨ a.1 = b.1 ∧ a.2 < b.2

structure Batchable (policy : TurnPolicy) (row : Row) : Prop where
  policy : row.item.policy = policy
  plain : row.item.customMessage = none
  prompt : parsePromptSessionCommand row.item.message = none

def NotMoved : Action → Prop
  | .mutate payload => match parseMutation payload with
    | .ok (_, _, _, _, mutationType) => mutationType ≠ "move"
    | .error _ => True
  | _ => True

def KeepsOrder : Action → Prop
  | .mutate payload => match parseMutation payload with
    | .ok (lane, _, _, mutation, mutationType) => mutationType ≠ "move" ∧ targetLane lane mutation mutationType = none
    | .error _ => True
  | _ => True

section Lanes

variable {core : SessionCore} {lane : Lane} {rows : List Row} {row : Row}

theorem rows_setRows : (core.setRows lane rows).rows lane = rows := by
  cases lane <;> rfl

theorem rows_setRows_other : (core.setRows lane rows).rows lane.other = core.rows lane.other := by
  cases lane <;> rfl

theorem eq_or_other (lane lane' : Lane) : lane' = lane ∨ lane' = lane.other := by
  cases lane <;> cases lane' <;> first | exact Or.inl rfl | exact Or.inr rfl

theorem keys_append (rows rows' : List Row) : keys (rows ++ rows') = keys rows ++ keys rows' :=
  List.map_append

theorem lanes_perm (core : SessionCore) (lane : Lane) :
    (keys core.steering ++ keys core.followUp).Perm (keys (core.rows lane) ++ keys (core.rows lane.other)) := by
  cases lane with
  | steering => exact List.Perm.refl _
  | followUp => exact List.perm_append_comm

end Lanes

section Gather

variable {core : SessionCore} {lane : Lane} {first row : Row} {rest : List Row}

theorem rows_disarmed (core : SessionCore) (lane : Lane) (p : Prop) [Decidable p] :
    (if p then { core with forcedAllSteering := false } else core).rows lane = core.rows lane := by
  split
  · cases lane <;> rfl
  · rfl

theorem joins_batchable {forced : Bool} {policy : TurnPolicy} (hJoins : joins forced policy row = true) :
    Batchable policy row := by
  simp only [joins, Bool.and_eq_true, decide_eq_true_eq, Option.isNone_iff_eq_none] at hJoins
  exact ⟨hJoins.1.1.1, hJoins.1.1.2, hJoins.2⟩

theorem gather_cons (hRows : core.rows lane = first :: rest) : ∃ joined left core',
    gatherDeliveryBatch core lane = (first :: joined, core') ∧ rest = joined ++ left ∧
      core'.rows lane = left ∧ core'.rows lane.other = core.rows lane.other ∧
      (joined ≠ [] → first.item.policy ≠ .direct ∧ ∀ row ∈ first :: joined, Batchable first.item.policy row) := by
  rw [gatherDeliveryBatch, hRows]
  dsimp only
  generalize (lane = .steering && core.forcedAllSteering && first.item.forcedBatch) = forced
  generalize (lane = .steering && core.forcedAllSteering && !forced && !(first :: rest).any (·.item.forcedBatch)) = disarms
  generalize hCore : (if disarms = true then { core with forcedAllSteering := false } else core) = disarmed
  have hKeeps (lane' : Lane) : disarmed.rows lane' = core.rows lane' := by
    rw [← hCore]
    exact rows_disarmed core lane' _
  split
  · exact ⟨[], rest, _, rfl, rfl, rows_setRows, rows_setRows_other.trans (hKeeps _), fun h => absurd rfl h⟩
  rename_i hPlain
  split
  · refine ⟨_, _, _, rfl, List.takeWhile_append_dropWhile.symm, rows_setRows, rows_setRows_other.trans (hKeeps _), ?_⟩
    intro _
    simp only [Bool.or_eq_true, decide_eq_true_eq, not_or, Bool.not_eq_true, Option.isSome_eq_false_iff,
      Option.isNone_iff_eq_none] at hPlain
    refine ⟨hPlain.1.2, List.forall_mem_cons.mpr ⟨⟨rfl, hPlain.1.1, hPlain.2⟩, fun row hMem => ?_⟩⟩
    exact joins_batchable (List.mem_takeWhile_imp hMem)
  · exact ⟨[], rest, _, rfl, rfl, rows_setRows, rows_setRows_other.trans (hKeeps _), fun h => absurd rfl h⟩

theorem gather_rows (core : SessionCore) (lane : Lane) :
    core.rows lane = (gatherDeliveryBatch core lane).1 ++ (gatherDeliveryBatch core lane).2.rows lane ∧
      (gatherDeliveryBatch core lane).2.rows lane.other = core.rows lane.other := by
  cases hRows : core.rows lane with
  | nil =>
    rw [gatherDeliveryBatch, hRows]
    exact ⟨hRows.symm, rfl⟩
  | cons first rest =>
    obtain ⟨joined, left, core', hGather, hRest, hLeft, hOther, -⟩ := gather_cons hRows
    rw [hGather]
    refine ⟨?_, hOther⟩
    rw [hLeft, List.cons_append, ← hRest]

end Gather

section Enqueue

variable {lane : List Row} {row : Row}

theorem insertIdx_length (front back : List Row) (row : Row) :
    (front ++ back).insertIdx front.length row = front ++ row :: back := by
  induction front with
  | nil => exact List.insertIdx_zero
  | cons before front ih => rw [List.cons_append, List.length_cons, List.insertIdx_succ_cons, ih, List.cons_append]

theorem insertionIndex_spec (row : Row) (lane : List Row) : ∀ index ≤ lane.length,
    insertionIndex row lane index ≤ index ∧
      (∀ j before, insertionIndex row lane index ≤ j → j < index → lane[j]? = some before →
        rank before.item.priority < rank row.item.priority) ∧
      ∀ j before, j + 1 = insertionIndex row lane index → lane[j]? = some before →
        rank row.item.priority ≤ rank before.item.priority := by
  intro index
  induction index with
  | zero =>
    intro _
    exact ⟨Nat.le_refl _, fun _ _ _ h => absurd h (Nat.not_lt_zero _), fun _ _ h => nomatch h⟩
  | succ index ih =>
    intro hIndex
    obtain ⟨before, hBefore⟩ : ∃ before, lane[index]? = some before := ⟨_, List.getElem?_eq_getElem hIndex⟩
    rw [insertionIndex, hBefore, Option.any_some]
    split
    · rename_i hLower
      obtain ⟨hLe, hBack, hFront⟩ := ih (Nat.le_of_succ_le hIndex)
      refine ⟨Nat.le_succ_of_le hLe, fun j other hFrom hTo hOther => ?_, hFront⟩
      rcases Nat.lt_or_eq_of_le (Nat.le_of_lt_succ hTo) with hLess | rfl
      · exact hBack j other hFrom hLess hOther
      · obtain rfl := Option.some.inj (hBefore.symm.trans hOther)
        exact of_decide_eq_true hLower
    · rename_i hHigher
      refine ⟨Nat.le_refl _, fun j _ hFrom hTo => absurd hTo (Nat.not_lt.mpr hFrom), fun j other hLast hOther => ?_⟩
      obtain rfl := Nat.succ.inj hLast
      obtain rfl := Option.some.inj (hBefore.symm.trans hOther)
      exact Nat.le_of_not_lt fun hLess => hHigher (decide_eq_true hLess)

theorem enqueuePriority_split (lane : List Row) (row : Row) : ∃ front back, lane = front ++ back ∧
    enqueuePriority lane row = front ++ row :: back ∧
    (∀ before ∈ back, rank before.item.priority < rank row.item.priority) ∧
    ∀ before, front.getLast? = some before → rank row.item.priority ≤ rank before.item.priority := by
  obtain ⟨hLe, hBack, hFront⟩ := insertionIndex_spec row lane lane.length (Nat.le_refl _)
  rw [enqueuePriority]
  generalize insertionIndex row lane lane.length = index at hLe hBack hFront
  refine ⟨lane.take index, lane.drop index, (List.take_append_drop index lane).symm, ?_, ?_, ?_⟩
  · have hInsert := insertIdx_length (lane.take index) (lane.drop index) row
    rwa [List.take_append_drop, List.length_take, Nat.min_eq_left hLe] at hInsert
  · intro before hMem
    obtain ⟨j, hAt⟩ := List.mem_iff_getElem?.mp hMem
    rw [List.getElem?_drop] at hAt
    exact hBack (index + j) before (Nat.le_add_right _ _) (List.getElem?_eq_some_iff.mp hAt).1 hAt
  · intro before hLast
    cases index with
    | zero =>
      rw [List.take_zero] at hLast
      cases hLast
    | succ index =>
      refine hFront index before rfl ?_
      rw [List.getLast?_eq_getElem?, List.length_take, Nat.min_eq_left hLe, List.getElem?_take] at hLast
      simpa using hLast

end Enqueue

section Mutate

variable {lane rows : List Row} {index target : Nat} {expected mutationType : String} {mutation : Json}
  {status : MutationStatus} {deleted : Option Row} {outcome : MutationStatus × List Row × Option Row}

/-- What a mutation does to a lane: nothing, or one row is deleted, moved or edited in its place. -/
inductive LaneChange (lane : List Row) (index : Nat) (mutationType : String) :
    MutationStatus × List Row × Option Row → Prop where
  | rejected : LaneChange lane index mutationType (.rejected, lane, none)
  | deleted {row : Row} (hRow : lane[index]? = some row) (hType : mutationType = "delete") :
      LaneChange lane index mutationType (.applied, lane.eraseIdx index, some row)
  | moved (target : Nat) (hType : mutationType = "move") :
      LaneChange lane index mutationType (.applied, swap lane index target, none)
  | replaced {row row' : Row} (hRow : lane[index]? = some row) (hKey : row'.key = row.key) (hType : mutationType = "replace") :
      LaneChange lane index mutationType (.applied, lane.set index row', none)

theorem mutateLane_change (lane : List Row) (index : Nat) (expected : String) (mutation : Json) (mutationType : String) :
    LaneChange lane index mutationType (mutateLane lane index expected mutation mutationType) := by
  rw [mutateLane]
  cases hRow : lane[index]? with
  | none => exact .rejected
  | some row =>
    dsimp only
    split
    · exact .rejected
    split
    · rename_i hType
      exact .deleted hRow hType
    split
    · rename_i hType
      split
      · exact .rejected
      · exact .moved _ hType
    split
    · rename_i hType
      split
      · exact .rejected
      split
      · exact .rejected
      · exact .replaced hRow rfl hType
    · exact .rejected

theorem perm_swap (lane : List Row) (index target : Nat) : (swap lane index target).Perm lane := by
  rw [swap]
  split
  · rename_i row other hRow hOther
    obtain ⟨hIndex, rfl⟩ := List.getElem?_eq_some_iff.mp hRow
    obtain ⟨hTarget, rfl⟩ := List.getElem?_eq_some_iff.mp hOther
    have hTarget' : target < (lane.set index lane[target]).length := by
      rwa [List.length_set]
    have hSame : (lane.set index lane[target])[target] = lane[target] := by
      rw [List.getElem_set]
      split <;> rfl
    have hOnce := List.set_perm_cons_eraseIdx hIndex lane[target]
    have hErased := List.getElem_cons_eraseIdx_perm hTarget'
    rw [hSame] at hErased
    have hRest := (hErased.trans hOnce).cons_inv
    exact (List.set_perm_cons_eraseIdx hTarget' _).trans ((hRest.cons _).trans (List.getElem_cons_eraseIdx_perm hIndex))
  · exact List.Perm.refl lane

theorem keys_set {row row' : Row} (hRow : lane[index]? = some row) (hKey : row'.key = row.key) :
    keys (lane.set index row') = keys lane := by
  obtain ⟨hIndex, rfl⟩ := List.getElem?_eq_some_iff.mp hRow
  rw [keys, List.map_set, hKey, ← List.map_set, List.set_getElem_self]
  rfl

theorem laneChange_perm (hChange : LaneChange lane index mutationType outcome) :
    (keys lane).Perm (keys outcome.2.2.toList ++ keys outcome.2.1) := by
  cases hChange with
  | rejected => exact List.Perm.refl _
  | @deleted row hRow hType =>
    obtain ⟨hIndex, rfl⟩ := List.getElem?_eq_some_iff.mp hRow
    exact ((List.getElem_cons_eraseIdx_perm hIndex).map Row.key).symm
  | moved target hType => exact ((perm_swap lane index target).map Row.key).symm
  | replaced hRow hKey hType =>
    rw [keys_set hRow hKey]
    exact List.Perm.refl _

theorem laneChange_sublist (hChange : LaneChange lane index mutationType outcome) (hType : mutationType ≠ "move") :
    (keys outcome.2.1).Sublist (keys lane) := by
  cases hChange with
  | rejected => exact List.Sublist.refl _
  | deleted hRow _ => exact (List.eraseIdx_sublist lane index).map Row.key
  | moved target hMove => exact absurd hMove hType
  | replaced hRow hKey _ =>
    rw [keys_set hRow hKey]

theorem changeLane_perm (core : SessionCore) (lane : Lane) (index : Nat) (target : Option Lane) :
    (keys (changeLane core lane index target).steering ++ keys (changeLane core lane index target).followUp).Perm
      (keys core.steering ++ keys core.followUp) := by
  unfold changeLane
  split
  · rename_i target row hRow
    obtain ⟨hIndex, hEq⟩ := List.getElem?_eq_some_iff.mp hRow
    have hErased : (keys (core.rows lane)).Perm (row.key :: keys ((core.rows lane).eraseIdx index)) := by
      rw [← hEq]
      exact ((List.getElem_cons_eraseIdx_perm hIndex).map Row.key).symm
    dsimp only
    refine (lanes_perm _ target).trans (List.Perm.trans ?_ (lanes_perm core lane).symm)
    rw [rows_setRows, rows_setRows_other, keys_append]
    have hLast : (keys ((core.setRows lane ((core.rows lane).eraseIdx index)).rows target) ++ keys [row] ++
        keys ((core.setRows lane ((core.rows lane).eraseIdx index)).rows target.other)).Perm
        (row.key :: (keys ((core.setRows lane ((core.rows lane).eraseIdx index)).rows target) ++
          keys ((core.setRows lane ((core.rows lane).eraseIdx index)).rows target.other))) := by
      rw [List.append_assoc]
      exact List.perm_middle
    refine hLast.trans ?_
    have hLanes := ((lanes_perm (core.setRows lane ((core.rows lane).eraseIdx index)) target).symm.trans
      (lanes_perm (core.setRows lane ((core.rows lane).eraseIdx index)) lane)).cons row.key
    rw [rows_setRows, rows_setRows_other] at hLanes
    refine hLanes.trans ?_
    rw [← List.cons_append]
    exact hErased.symm.append_right _
  · exact List.Perm.refl _

end Mutate

section Sessions

variable {s : Session} {core : SessionCore} {lane : Lane} {rows : List Row}

def both (core : SessionCore) : List (Nat × Nat) :=
  keys core.steering ++ keys core.followUp

theorem both_setRows_added {added : List (Nat × Nat)} (hRows : (keys rows).Perm (added ++ keys (core.rows lane))) :
    (both (core.setRows lane rows)).Perm (added ++ both core) := by
  refine (lanes_perm _ lane).trans ?_
  rw [rows_setRows, rows_setRows_other]
  refine (hRows.append_right _).trans ?_
  rw [List.append_assoc]
  exact (lanes_perm core lane).symm.append_left added

theorem both_setRows_removed {removed : List (Nat × Nat)} (hRows : (keys (core.rows lane)).Perm (removed ++ keys rows)) :
    (both core).Perm (removed ++ both (core.setRows lane rows)) := by
  have hBack := @both_setRows_added (core.setRows lane rows) lane (core.rows lane) removed (by rwa [rows_setRows])
  have hSame : (core.setRows lane rows).setRows lane (core.rows lane) = core := by
    cases lane <;> rfl
  rwa [hSame] at hBack

def Accounted (s : Session) : Prop :=
  ((both s.core ++ keys (s.gone.map Prod.fst)).map Prod.snd).Perm (List.range s.admitted)

theorem accounted_added {core' : SessionCore} {key : Nat × Nat} (hAccounted : Accounted s)
    (hBoth : (both core').Perm ([key] ++ both s.core)) (hNumber : key.2 = s.admitted) :
    Accounted { s with core := core', admitted := s.admitted + 1 } := by
  have hAll := (hBoth.append_right (keys (s.gone.map Prod.fst))).map Prod.snd
  refine hAll.trans ?_
  rw [List.singleton_append, List.cons_append, List.map_cons, hNumber]
  refine (hAccounted.cons s.admitted).trans ?_
  rw [List.range_succ]
  exact (List.perm_append_singleton _ _).symm

theorem accounted_removed {core' : SessionCore} {removed : List Row} (departure : Departure) (hAccounted : Accounted s)
    (hBoth : (both s.core).Perm (keys removed ++ both core')) :
    Accounted { s with core := core', gone := s.gone ++ removed.map (·, departure) } := by
  refine List.Perm.trans ?_ hAccounted
  have hGone : keys ((s.gone ++ removed.map (·, departure)).map Prod.fst) =
      keys (s.gone.map Prod.fst) ++ keys removed := by
    rw [List.map_append, List.map_map, keys_append]
    exact congrArg (_ ++ ·) (congrArg keys (List.map_id removed))
  rw [hGone]
  refine List.Perm.map Prod.snd ?_
  have hSwap : (both core' ++ (keys (s.gone.map Prod.fst) ++ keys removed)).Perm
      (keys removed ++ both core' ++ keys (s.gone.map Prod.fst)) := by
    rw [← List.append_assoc]
    exact List.perm_append_comm.trans (by rw [List.append_assoc])
  exact hSwap.trans (hBoth.symm.append_right _)

theorem enqueue_perm (lane : List Row) (row : Row) : (keys (enqueuePriority lane row)).Perm ([row.key] ++ keys lane) := by
  obtain ⟨front, back, hLane, hEnqueued, -, -⟩ := enqueuePriority_split lane row
  rw [hEnqueued, hLane]
  exact List.perm_middle.map Row.key

theorem handle_perm (core : SessionCore) (payload : Json) :
    (both core).Perm (keys (handleMutateQueuedMessage core payload).deleted.toList ++
      both (handleMutateQueuedMessage core payload).core) := by
  rw [handleMutateQueuedMessage]
  split
  · exact List.Perm.refl _
  split
  · exact List.Perm.refl _
  rename_i lane index expected mutation mutationType _
  have hChange := laneChange_perm (mutateLane_change (core.rows lane) index expected mutation mutationType)
  generalize mutateLane (core.rows lane) index expected mutation mutationType = outcome at hChange ⊢
  obtain ⟨status, rows, deleted⟩ := outcome
  dsimp only at hChange ⊢
  refine (both_setRows_removed hChange).trans ?_
  split
  · exact (changeLane_perm _ lane index _).symm.append_left _
  · exact List.Perm.refl _

theorem perm_eraseP (p : Row → Bool) (rows : List Row) :
    (keys rows).Perm (keys (rows.find? p).toList ++ keys (rows.eraseP p)) := by
  induction rows with
  | nil => exact List.Perm.refl _
  | cons row rows ih =>
    cases hRow : p row with
    | true =>
      rw [List.find?_cons_of_pos hRow, List.eraseP_cons_of_pos hRow]
      exact List.Perm.refl _
    | false =>
      have hNot : ¬ p row = true := Bool.eq_false_iff.mp hRow
      rw [List.find?_cons_of_neg hNot, List.eraseP_cons_of_neg hNot]
      exact (ih.cons row.key).trans List.perm_middle.symm

theorem withdraw_perm (core : SessionCore) (pid : Nat) (command : String) :
    (both core).Perm (keys (withdrawBashCompletionNotice core pid command).1.toList ++
      both (withdrawBashCompletionNotice core pid command).2) := by
  rw [withdrawBashCompletionNotice]
  split
  · rename_i row hFound
    have hErased := perm_eraseP (isBashCompletionNoticeFor pid command) core.steering
    rw [hFound] at hErased
    exact @both_setRows_removed core .steering _ _ hErased
  · exact @both_setRows_removed core .followUp _ _ (perm_eraseP _ core.followUp)

theorem deliver_perm (core : SessionCore) (lane : Lane) :
    (both core).Perm (keys (gatherDeliveryBatch core lane).1 ++ both (gatherDeliveryBatch core lane).2) := by
  obtain ⟨hRows, hOther⟩ := gather_rows core lane
  refine (lanes_perm core lane).trans ?_
  rw [hRows, keys_append, ← hOther, List.append_assoc]
  exact (lanes_perm _ lane).symm.append_left _

theorem keys_arm (core : SessionCore) (lane : Lane) : keys ((armForcedAllSteering core).rows lane) = keys (core.rows lane) := by
  rw [armForcedAllSteering]
  split
  · cases lane with
    | followUp => rfl
    | steering =>
      change keys (core.steering.map _) = keys core.steering
      rw [keys, List.map_map]
      refine List.map_congr_left fun row _ => ?_
      dsimp only [Function.comp]
      split <;> rfl
  · rfl

theorem step_accounted (hAccounted : Accounted s) (action : Action) : Accounted (step s action) := by
  cases action with
  | enqueue lane item done =>
    exact @accounted_added s _ (Row.key ⟨item, done, s.admitted⟩) hAccounted (both_setRows_added (enqueue_perm _ _)) rfl
  | pushBack lane item =>
    refine @accounted_added s _ (Row.key ⟨{ item with priority := .background }, false, s.admitted⟩) hAccounted
      (both_setRows_added ?_) rfl
    rw [keys_append]
    exact List.perm_append_comm
  | mutate payload => exact accounted_removed .deleted hAccounted (handle_perm s.core payload)
  | withdraw pid command => exact accounted_removed .withdrawn hAccounted (withdraw_perm s.core pid command)
  | deliver lane => exact accounted_removed .delivered hAccounted (deliver_perm s.core lane)
  | arm =>
    have hBoth : both (armForcedAllSteering s.core) = both s.core :=
      congrArg₂ (· ++ ·) (keys_arm s.core .steering) (keys_arm s.core .followUp)
    change ((both (armForcedAllSteering s.core) ++ _).map Prod.snd).Perm _
    rw [hBoth]
    exact hAccounted

theorem run_accounted (actions : List Action) : ∀ s : Session, Accounted s → Accounted (run s actions) := by
  induction actions with
  | nil => exact fun s hAccounted => hAccounted
  | cons action actions ih => exact fun s hAccounted => ih (step s action) (step_accounted hAccounted action)

theorem step_gone (s : Session) (action : Action) : s.gone <+: (step s action).gone := by
  cases action with
  | enqueue _ _ _ | pushBack _ _ => exact List.prefix_rfl
  | mutate _ | withdraw _ _ | deliver _ => exact List.prefix_append _ _
  | arm => exact List.prefix_rfl

theorem run_gone (actions : List Action) : ∀ s : Session, s.gone <+: (run s actions).gone := by
  induction actions with
  | nil => exact fun s => List.prefix_rfl
  | cons action actions ih => exact fun s => (step_gone s action).trans (ih (step s action))

end Sessions

section Order

variable {s : Session} {core : SessionCore} {lane : Lane} {lanes : List (Nat × Nat)} {key : Nat × Nat}

structure Ordered (s : Session) (lane : Lane) : Prop where
  pairwise : (keys (s.core.rows lane)).Pairwise Before
  admitted : ∀ key ∈ keys (s.core.rows lane), key.2 < s.admitted

theorem pairwise_insert {front back : List (Nat × Nat)} (hPairwise : (front ++ back).Pairwise Before)
    (hBack : ∀ before ∈ back, before.1 < key.1) (hFront : ∀ before, front.getLast? = some before → key.1 ≤ before.1)
    (hNumber : ∀ before ∈ front ++ back, before.2 < key.2) : (front ++ key :: back).Pairwise Before := by
  obtain ⟨hFrontPairwise, hBackPairwise, hAcross⟩ := List.pairwise_append.mp hPairwise
  have hBehind : ∀ before ∈ back, Before key before := fun before hMem => Or.inl (hBack before hMem)
  have hBeforeNew : ∀ before ∈ front, Before before key := by
    intro before hMem
    have hLess := hNumber before (List.mem_append_left back hMem)
    suffices key.1 ≤ before.1 by
      unfold Before
      omega
    rcases List.eq_nil_or_concat front with rfl | ⟨init, last, rfl⟩
    · cases hMem
    · rw [List.concat_eq_append] at hMem hFrontPairwise hFront
      have hLast := hFront last List.getLast?_concat
      rcases List.mem_append.mp hMem with hInit | hEnd
      · have hOrder := (List.pairwise_append.mp hFrontPairwise).2.2 before hInit last (List.mem_singleton.mpr rfl)
        unfold Before at hOrder
        omega
      · obtain rfl := List.mem_singleton.mp hEnd
        exact hLast
  refine List.pairwise_append.mpr ⟨hFrontPairwise, List.pairwise_cons.mpr ⟨hBehind, hBackPairwise⟩, ?_⟩
  intro before hMem after hAfter
  rcases List.mem_cons.mp hAfter with rfl | hAfter
  · exact hBeforeNew before hMem
  · exact hAcross before hMem after hAfter

theorem enqueue_ordered (hOrdered : Ordered s lane) (item : QueuedItem) (done : Bool) :
    (keys (enqueuePriority (s.core.rows lane) ⟨item, done, s.admitted⟩)).Pairwise Before := by
  obtain ⟨front, back, hLane, hEnqueued, hBack, hFront⟩ := enqueuePriority_split (s.core.rows lane) ⟨item, done, s.admitted⟩
  have hKeys : keys (s.core.rows lane) = keys front ++ keys back := by
    rw [hLane, keys_append]
  rw [hEnqueued, keys_append]
  refine pairwise_insert (hKeys ▸ hOrdered.pairwise) ?_ ?_ (hKeys ▸ hOrdered.admitted)
  · intro before hMem
    obtain ⟨row, hRow, rfl⟩ := List.mem_map.mp hMem
    exact hBack row hRow
  · intro before hLast
    rw [keys, List.getLast?_map, Option.map_eq_some_iff] at hLast
    obtain ⟨row, hRow, rfl⟩ := hLast
    exact hFront row hRow

theorem pushBack_ordered (hOrdered : Ordered s lane) (item : QueuedItem) (done : Bool) :
    (keys (s.core.rows lane ++ [⟨{ item with priority := .background }, done, s.admitted⟩])).Pairwise Before := by
  rw [keys_append]
  refine List.pairwise_append.mpr ⟨hOrdered.pairwise, List.pairwise_singleton _ _, fun before hMem after hAfter => ?_⟩
  obtain rfl := List.mem_singleton.mp hAfter
  have hLess := hOrdered.admitted before hMem
  rcases Nat.eq_zero_or_pos before.1 with hZero | hPos
  · exact Or.inr ⟨hZero, hLess⟩
  · exact Or.inl hPos

theorem Ordered.sublist {s' : Session} (hOrdered : Ordered s lane)
    (hRows : (keys (s'.core.rows lane)).Sublist (keys (s.core.rows lane))) (hAdmitted : s'.admitted = s.admitted) :
    Ordered s' lane where
  pairwise := hOrdered.pairwise.sublist hRows
  admitted := fun key hMem => hAdmitted ▸ hOrdered.admitted key (hRows.subset hMem)

theorem Ordered.added {lane' : Lane} {rows : List Row} {row : Row} (hOrdered : Ordered s lane)
    (hPerm : (keys rows).Perm ([row.key] ++ keys (s.core.rows lane'))) (hNumber : row.number = s.admitted)
    (hPairwise : lane = lane' → (keys rows).Pairwise Before) :
    Ordered { s with core := s.core.setRows lane' rows, admitted := s.admitted + 1 } lane := by
  rcases eq_or_other lane' lane with rfl | rfl
  · refine ⟨?_, fun key hMem => ?_⟩
    · dsimp only
      rw [rows_setRows]
      exact hPairwise rfl
    · dsimp only at hMem
      rw [rows_setRows] at hMem
      rcases List.mem_append.mp (hPerm.subset hMem) with hNew | hOld
      · rw [List.mem_singleton.mp hNew]
        exact Nat.lt_succ_of_le (Nat.le_of_eq hNumber)
      · exact Nat.lt_succ_of_lt (hOrdered.admitted key hOld)
  · refine ⟨?_, fun key hMem => ?_⟩
    · dsimp only
      rw [rows_setRows_other]
      exact hOrdered.pairwise
    · dsimp only at hMem
      rw [rows_setRows_other] at hMem
      exact Nat.lt_succ_of_lt (hOrdered.admitted key hMem)

theorem handle_sublist (core : SessionCore) {payload : Json} (hKeeps : KeepsOrder (.mutate payload)) (lane : Lane) :
    (keys ((handleMutateQueuedMessage core payload).core.rows lane)).Sublist (keys (core.rows lane)) := by
  rw [handleMutateQueuedMessage]
  split
  · exact List.Sublist.refl _
  split
  · exact List.Sublist.refl _
  rename_i lane' index expected mutation mutationType hParsed
  rw [KeepsOrder, hParsed] at hKeeps
  obtain ⟨hType, hTarget⟩ := hKeeps
  have hChange := laneChange_sublist (mutateLane_change (core.rows lane') index expected mutation mutationType) hType
  generalize mutateLane (core.rows lane') index expected mutation mutationType = outcome at hChange ⊢
  obtain ⟨status, rows, deleted⟩ := outcome
  dsimp only at hChange ⊢
  have hStays : (if status = .applied then changeLane (core.setRows lane' rows) lane' index
      (targetLane lane' mutation mutationType) else core.setRows lane' rows) = core.setRows lane' rows := by
    rw [hTarget]
    split <;> rfl
  rw [hStays]
  rcases eq_or_other lane' lane with rfl | rfl
  · rwa [rows_setRows]
  · rw [rows_setRows_other]

theorem withdraw_sublist (core : SessionCore) (pid : Nat) (command : String) (lane : Lane) :
    (keys ((withdrawBashCompletionNotice core pid command).2.rows lane)).Sublist (keys (core.rows lane)) := by
  rw [withdrawBashCompletionNotice]
  split
  · cases lane with
    | steering => exact List.eraseP_sublist.map Row.key
    | followUp => exact List.Sublist.refl _
  · cases lane with
    | steering => exact List.Sublist.refl _
    | followUp => exact List.eraseP_sublist.map Row.key

theorem deliver_sublist (core : SessionCore) (lane lane' : Lane) :
    (keys ((gatherDeliveryBatch core lane).2.rows lane')).Sublist (keys (core.rows lane')) := by
  obtain ⟨hRows, hOther⟩ := gather_rows core lane
  rcases eq_or_other lane lane' with rfl | rfl
  · rw [hRows, keys_append]
    exact List.sublist_append_right _ _
  · rw [hOther]

theorem step_ordered (hOrdered : ∀ lane, Ordered s lane) (action : Action) (hKeeps : KeepsOrder action) (lane : Lane) :
    Ordered (step s action) lane := by
  cases action with
  | enqueue lane' item done =>
    refine @Ordered.added s lane lane' _ ⟨item, done, s.admitted⟩ (hOrdered lane) (enqueue_perm _ _) rfl ?_
    rintro rfl
    exact enqueue_ordered (hOrdered lane) item done
  | pushBack lane' item =>
    refine @Ordered.added s lane lane' _ ⟨{ item with priority := .background }, false, s.admitted⟩ (hOrdered lane) ?_ rfl ?_
    · rw [keys_append]
      exact List.perm_append_comm
    · rintro rfl
      exact pushBack_ordered (hOrdered lane) item false
  | mutate payload => exact (hOrdered lane).sublist (handle_sublist s.core hKeeps lane) rfl
  | withdraw pid command => exact (hOrdered lane).sublist (withdraw_sublist s.core pid command lane) rfl
  | deliver lane' => exact (hOrdered lane).sublist (deliver_sublist s.core lane' lane) rfl
  | arm =>
    refine (hOrdered lane).sublist ?_ rfl
    change (keys ((armForcedAllSteering s.core).rows lane)).Sublist _
    rw [keys_arm]

theorem run_ordered (actions : List Action) : ∀ s : Session, (∀ lane, Ordered s lane) →
    (∀ action ∈ actions, KeepsOrder action) → ∀ lane, Ordered (run s actions) lane := by
  induction actions with
  | nil => exact fun s hOrdered _ => hOrdered
  | cons action actions ih =>
    intro s hOrdered hKeeps
    obtain ⟨hFirst, hRest⟩ := List.forall_mem_cons.mp hKeeps
    exact ih (step s action) (step_ordered hOrdered action hFirst) hRest

end Order

section Deliveries

/-- A delivery takes a batch off the front of its lane; every row admitted is in a lane or has left once; and where no row is
moved or changes its lane, rows are delivered by priority, first admitted first within a priority. -/
theorem deliveries (core : SessionCore) (actions : List Action) :
    (∀ lane, (run (.start core) actions).core.rows lane ≠ [] →
      ∃ batch core', gatherDeliveryBatch (run (.start core) actions).core lane = (batch, core') ∧ batch ≠ [] ∧
        (run (.start core) actions).core.rows lane = batch ++ core'.rows lane ∧
        core'.rows lane.other = (run (.start core) actions).core.rows lane.other ∧
        (1 < batch.length → ∃ policy, policy ≠ .direct ∧ ∀ row ∈ batch, Batchable policy row)) ∧
      (((run (.start core) actions).core.steering ++ (run (.start core) actions).core.followUp ++
          (run (.start core) actions).gone.map Prod.fst).map Row.number).Perm
        (List.range (run (.start core) actions).admitted) ∧
      (∀ more, (run (.start core) actions).gone <+: (run (.start core) (actions ++ more)).gone) ∧
      ((∀ action ∈ actions, KeepsOrder action) → ∀ lane,
        (gatherDeliveryBatch (run (.start core) actions).core lane).1.Pairwise (fun a b => Before a.key b.key) ∧
        ∀ row ∈ (gatherDeliveryBatch (run (.start core) actions).core lane).1,
          ∀ left ∈ (gatherDeliveryBatch (run (.start core) actions).core lane).2.rows lane, Before row.key left.key) := by
  refine ⟨fun lane hSome => ?_, ?_, fun more => ?_, fun hKeeps lane => ?_⟩
  · obtain ⟨first, rest, hRows⟩ := List.exists_cons_of_ne_nil hSome
    obtain ⟨joined, left, core', hGather, hRest, hLeft, hOther, hBatch⟩ := gather_cons hRows
    refine ⟨first :: joined, core', hGather, List.cons_ne_nil _ _, ?_, hOther, fun hMany => ?_⟩
    · rw [hRows, hLeft, List.cons_append, ← hRest]
    · have hJoined : joined ≠ [] := by
        rintro rfl
        exact absurd hMany (Nat.lt_irrefl 1)
      exact ⟨first.item.policy, hBatch hJoined⟩
  · have hStart : Accounted (.start core) := List.Perm.refl _
    have hAccounted := run_accounted actions _ hStart
    rw [Accounted, both, ← keys_append, ← keys_append, keys, List.map_map] at hAccounted
    exact hAccounted
  · rw [run, run, List.foldl_append]
    exact run_gone more _
  · have hStart (lane : Lane) : Ordered (.start core) lane := by
      cases lane with
      | steering | followUp => exact ⟨List.Pairwise.nil, fun _ hMem => nomatch hMem⟩
    have hPairwise := (run_ordered actions _ hStart hKeeps lane).pairwise
    rw [(gather_rows _ lane).1, keys, List.pairwise_map, List.pairwise_append] at hPairwise
    exact ⟨hPairwise.1, hPairwise.2.2⟩

def plainItem (priority : QueuePriority) : QueuedItem :=
  ⟨"go", priority, none, none, none, none, none, [], true, .queued, false⟩

def laneChangingEdit : Json :=
  .object [("lane", .string "steering"), ("index", .number (.posInt 0)), ("expectedText", .string "go"),
    ("mutation", .object [("type", .string "replace"), ("text", .string "go"), ("lane", .string "followUp")])]

def laneChangingEdits : List Action :=
  [.enqueue .steering (plainItem .human) false, .enqueue .followUp (plainItem .background) false, .mutate laneChangingEdit]

theorem deliveries_lane_change : (∀ action ∈ laneChangingEdits, NotMoved action) ∧
    ∃ core, ∃ row ∈ (gatherDeliveryBatch (run (.start core) laneChangingEdits).core .followUp).1,
      ∃ left ∈ (gatherDeliveryBatch (run (.start core) laneChangingEdits).core .followUp).2.rows .followUp,
        row.item.priority = .background ∧ left.item.priority = .human ∧ ¬ Before row.key left.key := by
  refine ⟨fun action hMem => ?_, ⟨true, false, [], [], "one-at-a-time", "one-at-a-time", false⟩,
    ⟨plainItem .background, false, 1⟩, ?_, ⟨plainItem .human, false, 0⟩, ?_, rfl, rfl, ?_⟩
  · simp only [laneChangingEdits, List.mem_cons, List.not_mem_nil, or_false] at hMem
    rcases hMem with rfl | rfl | rfl
    · trivial
    · trivial
    · have hParsed : parseMutation laneChangingEdit = .ok (.steering, 0, "go",
          .object [("type", .string "replace"), ("text", .string "go"), ("lane", .string "followUp")], "replace") := rfl
      rw [NotMoved, hParsed]
      exact fun h => absurd h (by decide)
  · exact List.mem_singleton.mpr rfl
  · exact List.mem_singleton.mpr rfl
  · exact fun h => h.elim (fun h => absurd h (by decide)) (fun h => absurd h.1 (by decide))

end Deliveries

end PrimeAgent.Queue
