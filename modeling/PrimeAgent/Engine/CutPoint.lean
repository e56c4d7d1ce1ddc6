import Mathlib.Data.Nat.Find
import PrimeAgent.Engine.Coverage

/-! # Where the cut falls

The backward scan stops at one row, the cut is the first valid cut point from there on, and the walk back moves it
over bookkeeping only.
-/
namespace PrimeAgent

def isMessage : FileEntry → Bool
  | .message _ _ => true
  | _ => false

def rowTokens (serde : Serde) : FileEntry → Nat
  | .message message _ => estimateTokens serde message
  | _ => 0

/-- The estimate of the messages in `start ≤ i < stop`. -/
def tokensBetween (serde : Serde) (entries : List FileEntry) (start stop : Nat) : Nat :=
  (((entries.take stop).drop start).map (rowTokens serde)).sum

structure Reaches (serde : Serde) (entries : List FileEntry) (start stop keepRecentTokens i : Nat) : Prop where
  start_le : start ≤ i
  lt_stop : i < stop
  message : (entries[i]?).any isMessage
  reaches : keepRecentTokens ≤ tokensBetween serde entries i stop
  first : ∀ j, i < j → j < stop → (entries[j]?).any isMessage → tokensBetween serde entries j stop < keepRecentTokens

section Scan

variable {serde : Serde} {entries : List FileEntry} {start stop keepRecentTokens : Nat} {i j : Nat}

theorem tokensBetween_step {i : Nat} {entry : FileEntry} (hAt : entries[i]? = some entry) (hStop : i < stop) :
    tokensBetween serde entries i stop = rowTokens serde entry + tokensBetween serde entries (i + 1) stop := by
  have hTake : (entries.take stop)[i]? = some entry := by rw [List.getElem?_take, if_pos hStop, hAt]
  obtain ⟨hLt, hGet⟩ := List.getElem?_eq_some_iff.mp hTake
  rw [tokensBetween, List.drop_eq_getElem_cons hLt, hGet, List.map_cons, List.sum_cons, tokensBetween]

theorem tokensBetween_end {i : Nat} (hEnd : min stop entries.length ≤ i) : tokensBetween serde entries i stop = 0 := by
  rw [tokensBetween, List.drop_eq_nil_of_le (by rw [List.length_take]; exact hEnd), List.map_nil, List.sum_nil]

theorem tokensBetween_skip (hLe : i ≤ j) (hStop : j ≤ stop)
    (hNone : ∀ k, i ≤ k → k < j → (entries[k]?).any isMessage = false) :
    tokensBetween serde entries i stop = tokensBetween serde entries j stop := by
  induction j, hLe using Nat.le_induction with
  | base => rfl
  | succ j hLe ih =>
    rw [ih (by omega) fun k hFrom hTo => hNone k hFrom (by omega)]
    cases hAt : entries[j]? with
    | none =>
      have hLength := List.getElem?_eq_none_iff.mp hAt
      rw [tokensBetween_end (by omega), tokensBetween_end (by omega)]
    | some entry =>
      have hOther := hNone j hLe (by omega)
      rw [hAt, Option.any_some] at hOther
      have hWeight : rowTokens serde entry = 0 := by
        cases entry <;> first | rfl | cases hOther
      rw [tokensBetween_step hAt (by omega), hWeight, Nat.zero_add]

theorem tokensBetween_anti (hLe : i ≤ j) (hStop : j ≤ stop) :
    tokensBetween serde entries j stop ≤ tokensBetween serde entries i stop := by
  induction j, hLe using Nat.le_induction with
  | base => exact Nat.le_refl _
  | succ j hLe ih =>
    refine Nat.le_trans ?_ (ih (by omega))
    cases hAt : entries[j]? with
    | none =>
      rw [tokensBetween_end (Nat.le_trans (Nat.min_le_right _ _) (by
        have := List.getElem?_eq_none_iff.mp hAt
        omega))]
      exact Nat.zero_le _
    | some entry =>
      rw [tokensBetween_step hAt (by omega)]
      omega

theorem positionsIn_self : positionsIn entries start start = [] := by
  rw [positionsIn, List.drop_eq_nil_iff, List.length_take]
  omega

theorem positionsIn_succ {j : Nat} {entry : FileEntry} (hStart : start ≤ j) (hAt : entries[j]? = some entry) :
    positionsIn entries start (j + 1) = positionsIn entries start j ++ [(entry, j)] := by
  obtain ⟨hLt, hGet⟩ := List.getElem?_eq_some_iff.mp hAt
  have hZip : entries.zipIdx[j]? = some (entry, j) := by rw [List.getElem?_zipIdx, hAt]; simp
  rw [positionsIn, positionsIn, Nat.min_eq_left hLt, Nat.min_eq_left hLt.le, List.take_add_one, hZip,
    Option.toList_some, List.drop_append_of_le_length]
  rw [List.length_take, List.length_zipIdx]
  omega

theorem positionsIn_min : positionsIn entries start (min stop entries.length) = positionsIn entries start stop := by
  rw [positionsIn, positionsIn, Nat.min_assoc, Nat.min_self]

/-- The cut point for a scan that stopped at `i`. -/
def pickCut (cutPoints : List Nat) (i : Nat) : Nat :=
  (cutPoints.find? (i ≤ ·)).getD (cutPoints.getLastD 0)

theorem Reaches.unique (hReaches : Reaches serde entries start stop keepRecentTokens i)
    (hOther : Reaches serde entries start stop keepRecentTokens j) : i = j := by
  have hLe := hReaches.first j
  have hGe := hOther.first i
  have hAt := hReaches.reaches
  have hAt' := hOther.reaches
  have hMessage := hReaches.message
  have hMessage' := hOther.message
  have hStop := hReaches.lt_stop
  have hStop' := hOther.lt_stop
  grind

theorem Reaches.rest {i : Nat} (hReaches : Reaches serde entries start stop keepRecentTokens i) :
    tokensBetween serde entries (i + 1) stop ≤ keepRecentTokens := by
  have hStop := hReaches.lt_stop
  by_cases hLater : ∃ j, i < j ∧ j < stop ∧ (entries[j]?).any isMessage
  · obtain ⟨hAfter, hTo, hMessage⟩ := Nat.find_spec hLater
    have hSkip : tokensBetween serde entries (i + 1) stop = tokensBetween serde entries (Nat.find hLater) stop := by
      refine tokensBetween_skip hAfter hTo.le fun k hFrom hLt => ?_
      have hEarlier := Nat.find_min hLater hLt
      exact Bool.eq_false_iff.mpr fun hRow => hEarlier ⟨hFrom, by omega, hRow⟩
    rw [hSkip]
    exact (hReaches.first _ hAfter hTo hMessage).le
  · have hSkip : tokensBetween serde entries (i + 1) stop = tokensBetween serde entries stop stop := by
      refine tokensBetween_skip hStop (Nat.le_refl _) fun k hFrom hTo => ?_
      exact Bool.eq_false_iff.mpr fun hRow => hLater ⟨k, hFrom, hTo, hRow⟩
    rw [hSkip, tokensBetween_end (Nat.min_le_left _ _)]
    exact Nat.zero_le _

theorem scanBack_from (cutPoints : List Nat) (hKeep : keepRecentTokens ≤ u64Max) {j : Nat} (hStart : start ≤ j) :
    j ≤ min stop entries.length →
    (∀ i, j ≤ i → i < stop → (entries[i]?).any isMessage → tokensBetween serde entries i stop < keepRecentTokens) →
    (∃ i, Reaches serde entries start stop keepRecentTokens i ∧ scanBack serde cutPoints keepRecentTokens
      (positionsIn entries start j).reverse (tokensBetween serde entries j stop) = pickCut cutPoints i) ∨
    ((∀ i, ¬ Reaches serde entries start stop keepRecentTokens i) ∧ scanBack serde cutPoints keepRecentTokens
      (positionsIn entries start j).reverse (tokensBetween serde entries j stop) = cutPoints.headD 0) := by
  induction j, hStart using Nat.le_induction with
  | base =>
    intro _ hBelow
    refine .inr ⟨fun i hReaches => ?_, by rw [positionsIn_self]; rfl⟩
    have hSum := hBelow i hReaches.start_le hReaches.lt_stop hReaches.message
    have hBudget := hReaches.reaches
    omega
  | succ j hStart ih =>
    intro hTop hBelow
    obtain ⟨entry, hAt⟩ : ∃ entry, entries[j]? = some entry := ⟨_, List.getElem?_eq_getElem (by omega)⟩
    have hStep := @tokensBetween_step serde entries stop _ _ hAt (show j < stop by omega)
    rw [positionsIn_succ hStart hAt, List.reverse_append, List.reverse_singleton, List.singleton_append]
    cases hMessage : isMessage entry with
    | true =>
      obtain ⟨message, base, rfl⟩ : ∃ message base, entry = .message message base := by
        cases entry <;> first | exact ⟨_, _, rfl⟩ | cases hMessage
      have hSum : min (tokensBetween serde entries (j + 1) stop + estimateTokens serde message) u64Max
          = min (tokensBetween serde entries j stop) u64Max := by
        rw [hStep, Nat.add_comm]
        rfl
      rw [scanBack, hSum]
      split
      · rename_i hReached
        exact .inl ⟨j, ⟨hStart, by omega, by rw [hAt]; exact hMessage, by omega, hBelow⟩, rfl⟩
      · rename_i hShort
        have hExact : min (tokensBetween serde entries j stop) u64Max = tokensBetween serde entries j stop := by omega
        rw [hExact]
        refine ih (by omega) fun i hFrom hTo hMessage => ?_
        obtain rfl | hLater := Nat.eq_or_lt_of_le hFrom
        · omega
        · exact hBelow i hLater hTo hMessage
    | false =>
      have hSkip : scanBack serde cutPoints keepRecentTokens ((entry, j) :: (positionsIn entries start j).reverse)
          (tokensBetween serde entries (j + 1) stop) = scanBack serde cutPoints keepRecentTokens
            (positionsIn entries start j).reverse (tokensBetween serde entries j stop) := by
        have hWeight : rowTokens serde entry = 0 := by
          cases entry <;> first | rfl | cases hMessage
        rw [hStep, hWeight, Nat.zero_add]
        cases entry <;> first | rfl | cases hMessage
      rw [hSkip]
      refine ih (by omega) fun i hFrom hTo hOther => ?_
      obtain rfl | hLater := Nat.eq_or_lt_of_le hFrom
      · rw [hAt, Option.any_some, hMessage] at hOther
        cases hOther
      · exact hBelow i hLater hTo hOther

def scanned (serde : Serde) (entries : List FileEntry) (start stop keepRecentTokens : Nat) : Nat :=
  scanBack serde (findValidCutPoints entries start stop) keepRecentTokens (positionsIn entries start stop).reverse 0

theorem scanned_cases (hKeep : keepRecentTokens ≤ u64Max) (hStart : start ≤ min stop entries.length) :
    (∃ i, Reaches serde entries start stop keepRecentTokens i ∧
      scanned serde entries start stop keepRecentTokens = pickCut (findValidCutPoints entries start stop) i) ∨
    ((∀ i, ¬ Reaches serde entries start stop keepRecentTokens i) ∧
      scanned serde entries start stop keepRecentTokens = (findValidCutPoints entries start stop).headD 0) := by
  have hFrom := @scanBack_from serde entries start stop keepRecentTokens (findValidCutPoints entries start stop) hKeep _ hStart (Nat.le_refl _)
    fun i hTop hStop hMessage => by
      rw [List.getElem?_eq_none (by omega)] at hMessage
      cases hMessage
  rwa [positionsIn_min, tokensBetween_end (Nat.le_refl _)] at hFrom

end Scan

section Walk

variable {entries : List FileEntry} {start : Nat}

theorem walkBack_over {cut k : Nat} (hFrom : walkBack entries start cut ≤ k) (hTo : k < cut) :
    (entries[k]?).any stopsWalkBack = false := by
  induction cut with
  | zero => omega
  | succ cut ih =>
    rw [walkBack] at hFrom
    split at hFrom
    · rename_i hBack
      obtain rfl | hLt := Nat.eq_or_lt_of_le (Nat.le_of_lt_succ hTo)
      · exact Bool.eq_false_iff.mpr hBack.2
      · exact ih hFrom hLt
    · omega

theorem walkBack_stops {cut : Nat} (hStart : start ≤ cut) :
    walkBack entries start cut = start ∨ (entries[walkBack entries start cut - 1]?).any stopsWalkBack := by
  induction cut with
  | zero => exact .inl (by rw [walkBack]; omega)
  | succ cut ih =>
    rw [walkBack]
    split
    · rename_i hBack
      exact ih (by omega)
    · rename_i hStay
      obtain hEq | hLt := Nat.eq_or_lt_of_le hStart
      · exact .inl hEq.symm
      · refine .inr ?_
        rw [Nat.add_sub_cancel]
        exact Classical.not_not.mp fun hOver => hStay ⟨hLt, hOver⟩

end Walk

section Cut

variable {serde : Serde} {entries : List FileEntry} {start stop keepRecentTokens : Nat}

theorem firstKept_of_none (hNone : findValidCutPoints entries start stop = []) :
    findCutPoint serde entries start stop keepRecentTokens = ⟨start, none, false⟩ := by
  rw [findCutPoint, hNone]
  rfl

theorem firstKept_eq (hSome : findValidCutPoints entries start stop ≠ []) :
    (findCutPoint serde entries start stop keepRecentTokens).firstKeptEntryIndex
      = walkBack entries start (scanned serde entries start stop keepRecentTokens) := by
  rw [findCutPoint, if_neg (by rwa [List.isEmpty_iff])]
  rfl

theorem scanned_valid (hSome : findValidCutPoints entries start stop ≠ []) :
    scanned serde entries start stop keepRecentTokens ∈ findValidCutPoints entries start stop :=
  scanBack_mem serde hSome keepRecentTokens _ 0

theorem firstKept_bounds (hRange : start < stop) :
    start ≤ (findCutPoint serde entries start stop keepRecentTokens).firstKeptEntryIndex ∧
      (findCutPoint serde entries start stop keepRecentTokens).firstKeptEntryIndex < stop := by
  by_cases hNone : findValidCutPoints entries start stop = []
  · rw [firstKept_of_none hNone]
    exact ⟨Nat.le_refl _, hRange⟩
  · rw [firstKept_eq hNone]
    have hValid := mem_findValidCutPoints (@scanned_valid serde entries start stop keepRecentTokens hNone)
    have hWalk := walkBack_bounds entries start _ hValid.1
    omega

end Cut

/-! ### Tool results and their assistant messages -/

def callsTool (id : String) : FileEntry → Bool
  | .message (.assistant message) _ => message.content.any fun
    | .toolCall call => call.id == id
    | _ => false
  | _ => false

def answeredCall : FileEntry → Option String
  | .message (.toolResult result) _ => some result.toolCallId
  | _ => none

def callerOf (entries : List FileEntry) (result : Nat) : Option Nat :=
  ((entries[result]?).bind answeredCall).bind fun id =>
    (List.range result).reverse.find? fun i => (entries[i]?).any (callsTool id)

def ToolResultsFollow (entries : List FileEntry) : Prop :=
  ∀ result caller, callerOf entries result = some caller →
    ∀ k, caller < k → k < result → (entries[k]?).any isValidCutPoint = false

section Pairs

variable {serde : Serde} {entries : List FileEntry} {start stop keepRecentTokens : Nat} {result caller : Nat}

theorem callerOf_toolResult (hCaller : callerOf entries result = some caller) :
    ∃ message base, entries[result]? = some (.message (.toolResult message) base) := by
  obtain ⟨id, hId, -⟩ := Option.bind_eq_some_iff.mp hCaller
  obtain ⟨entry, hAt, hAnswered⟩ := Option.bind_eq_some_iff.mp hId
  cases entry with
  | message message base =>
    cases message with
    | toolResult message => exact ⟨message, base, hAt⟩
    | _ => cases hAnswered
  | _ => cases hAnswered

theorem cut_splits_none (hFollow : ToolResultsFollow entries) (hCaller : callerOf entries result = some caller)
    (hKept : (findCutPoint serde entries start stop keepRecentTokens).firstKeptEntryIndex ≤ result)
    (hBefore : caller < (findCutPoint serde entries start stop keepRecentTokens).firstKeptEntryIndex) :
    findValidCutPoints entries start stop = [] := by
  refine Classical.byContradiction fun hNone => ?_
  obtain ⟨message, base, hResult⟩ := callerOf_toolResult hCaller
  rw [firstKept_eq hNone] at hKept hBefore
  have hValid := mem_findValidCutPoints (@scanned_valid serde entries start stop keepRecentTokens hNone)
  have hWalk := walkBack_bounds entries start _ hValid.1
  obtain hLt | hEq | hGt := Nat.lt_trichotomy result (scanned serde entries start stop keepRecentTokens)
  · have hOver := walkBack_over hKept hLt
    rw [hResult] at hOver
    cases hOver
  · rw [← hEq, hResult] at hValid
    exact absurd hValid.2.2 Bool.false_ne_true
  · rw [hFollow result caller hCaller _ (by omega) hGt] at hValid
    exact absurd hValid.2.2 Bool.false_ne_true

theorem kept_weigh (hKeep : keepRecentTokens ≤ u64Max) {i point : Nat} {entry : FileEntry}
    (hReaches : Reaches serde entries start stop keepRecentTokens i) (hAt : entries[i]? = some entry)
    (hPoint : point ∈ findValidCutPoints entries start stop) (hFrom : i ≤ point) :
    tokensBetween serde entries (findCutPoint serde entries start stop keepRecentTokens).firstKeptEntryIndex stop
      ≤ keepRecentTokens + rowTokens serde entry := by
  have hNone : findValidCutPoints entries start stop ≠ [] := List.ne_nil_of_mem hPoint
  obtain ⟨hLt, -⟩ := List.getElem?_eq_some_iff.mp hAt
  have hStart := hReaches.start_le
  have hStop := hReaches.lt_stop
  have hScanned : scanned serde entries start stop keepRecentTokens
      = pickCut (findValidCutPoints entries start stop) i := by
    obtain ⟨j, hOther, hEq⟩ | ⟨hNever, -⟩ :=
      @scanned_cases serde entries start stop keepRecentTokens hKeep (show start ≤ min stop entries.length by omega)
    · rwa [hReaches.unique hOther]
    · exact absurd hReaches (hNever i)
  have hBehind : i ≤ scanned serde entries start stop keepRecentTokens := by
    obtain ⟨found, hFound⟩ : ∃ found, (findValidCutPoints entries start stop).find? (i ≤ ·) = some found :=
      Option.isSome_iff_exists.mp (List.find?_isSome.mpr ⟨point, hPoint, decide_eq_true hFrom⟩)
    rw [hScanned, pickCut, hFound, Option.getD_some]
    exact of_decide_eq_true (List.find?_some hFound :)
  have hValid := mem_findValidCutPoints (@scanned_valid serde entries start stop keepRecentTokens hNone)
  have hWalk := walkBack_bounds entries start _ hValid.1
  rw [firstKept_eq hNone]
  -- the walk back ends behind the row, or passes nothing that weighs in front of it
  have hKept : tokensBetween serde entries (walkBack entries start (scanned serde entries start stop keepRecentTokens))
      stop ≤ tokensBetween serde entries i stop := by
    obtain hBack | hAhead := Nat.le_total (walkBack entries start (scanned serde entries start stop keepRecentTokens)) i
    · refine (tokensBetween_skip hBack hStop.le fun k hOver hTo => ?_).le
      have hBookkeeping := walkBack_over hOver (by omega)
      cases hRow : entries[k]? with
      | none => rfl
      | some row =>
        rw [hRow, Option.any_some] at hBookkeeping
        cases row <;> first | rfl | cases hBookkeeping
    · exact tokensBetween_anti hAhead (by omega)
  have hStep := @tokensBetween_step serde entries stop _ _ hAt hStop
  have hRest := hReaches.rest
  omega

theorem cut_respects_calls (serde : Serde) {entries : List FileEntry} (hFollow : ToolResultsFollow entries)
    (start stop : Nat) (keepRecentTokens : UInt64) :
    let cut := (findCutPoint serde entries start stop keepRecentTokens.toNat).firstKeptEntryIndex
    (∀ result caller, callerOf entries result = some caller → cut ≤ result → caller < cut →
      findValidCutPoints entries start stop = [] ∧ cut = start) ∧
    (start < stop → start ≤ cut ∧ cut < stop) ∧
    (∀ i entry, Reaches serde entries start stop keepRecentTokens.toNat i → entries[i]? = some entry →
      (∃ point ∈ findValidCutPoints entries start stop, i ≤ point) →
        tokensBetween serde entries cut stop ≤ keepRecentTokens.toNat + rowTokens serde entry) := by
  refine ⟨fun result caller hCaller hKept hBefore => ?_, firstKept_bounds, fun i entry hReaches hAt hPoint => ?_⟩
  · have hNone := cut_splits_none hFollow hCaller hKept hBefore
    exact ⟨hNone, by rw [firstKept_of_none hNone]⟩
  · obtain ⟨point, hPoint, hFrom⟩ := hPoint
    exact kept_weigh (Nat.le_of_lt_succ keepRecentTokens.toNat_lt) hReaches hAt hPoint hFrom

theorem toolSession_follows : ToolResultsFollow toolSession := by
  intro result caller hCaller
  have hLt : result < 5 := by
    obtain ⟨_, _, hResult⟩ := callerOf_toolResult hCaller
    exact (List.getElem?_eq_some_iff.mp hResult).1
  have hAll : ∀ result < 5, ∀ caller ∈ callerOf toolSession result, ∀ k < result, caller < k →
      (toolSession[k]?).any isValidCutPoint = false := by decide
  exact fun k hAfter hTo => hAll result hLt caller hCaller k hTo hAfter

theorem toolSession_reaches : Reaches emptyMapSerde toolSession 1 5 1 4 where
  start_le := by decide
  lt_stop := by decide
  message := rfl
  reaches := by decide
  first := fun j hAfter hTo => by omega

theorem toolSession_cut :
    let cut := (findCutPoint emptyMapSerde toolSession 1 5 1).firstKeptEntryIndex
    (1 ≤ cut ∧ cut < 5) ∧ tokensBetween emptyMapSerde toolSession cut 5 ≤ 1 + 2 :=
  have hCut := cut_respects_calls emptyMapSerde toolSession_follows 1 5 1
  ⟨hCut.2.1 (by decide), hCut.2.2 4 _ toolSession_reaches rfl ⟨4, by decide, Nat.le_refl 4⟩⟩

/-- A range that begins with the tool result holds no valid cut point, and an empty one not even its start. -/
theorem toolSession_splits : callerOf toolSession 3 = some 2 ∧
    (findCutPoint emptyMapSerde toolSession 3 4 1).firstKeptEntryIndex = 3 ∧ ToolResultsFollow toolSession ∧
    (findCutPoint emptyMapSerde toolSession 5 5 1).firstKeptEntryIndex = 5 :=
  ⟨by decide, by decide, toolSession_follows, by decide⟩

end Pairs

end PrimeAgent
