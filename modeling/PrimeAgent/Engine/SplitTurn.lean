import PrimeAgent.Engine.CutPoint

/-! # Split turns

The flag of a cut is read off the row the walk back ends on. It speaks of the first kept message as long as no
bookkeeping stands between the two.
-/
namespace PrimeAgent

def isContextRow : FileEntry → Bool
  | .message _ _ => true
  | .branchSummary _ _ => true
  | .customMessage _ _ => true
  | _ => false

structure FirstKept (entries : List FileEntry) (cut stop first : Nat) : Prop where
  cut_le : cut ≤ first
  lt_stop : first < stop
  speaks : (entries[first]?).any isContextRow
  skips : ∀ k, cut ≤ k → k < first → (entries[k]?).any isContextRow = false

structure TurnBefore (entries : List FileEntry) (start first turn : Nat) : Prop where
  start_le : start ≤ turn
  lt_first : turn < first
  starts : (entries[turn]?).any startsTurn
  nearest : ∀ k, turn < k → k < first → (entries[k]?).any startsTurn = false

def CutPointResult.Tells (entries : List FileEntry) (start stop : Nat) (cut : CutPointResult) : Prop :=
  (cut.isSplitTurn = true ↔ ∃ first turn, FirstKept entries cut.firstKeptEntryIndex stop first ∧
    (entries[first]?).any startsTurn = false ∧ TurnBefore entries start first turn) ∧
  (cut.isSplitTurn = true → ∀ first turn, FirstKept entries cut.firstKeptEntryIndex stop first →
    TurnBefore entries start first turn → cut.turnStartIndex = some turn)

/-- The valid cut point for a budget: the first behind the row that reaches it, the last when there is none there,
and the first of all when the budget is not reached. -/
def IsChosen (serde : Serde) (entries : List FileEntry) (start stop keepRecentTokens point : Nat) : Prop :=
  point ∈ findValidCutPoints entries start stop ∧
  ((∃ i, Reaches serde entries start stop keepRecentTokens i ∧
      ((i ≤ point ∧ ∀ p ∈ findValidCutPoints entries start stop, i ≤ p → point ≤ p) ∨
        (∀ p ∈ findValidCutPoints entries start stop, p < i ∧ p ≤ point))) ∨
    ((∀ i, ¬ Reaches serde entries start stop keepRecentTokens i) ∧
      ∀ p ∈ findValidCutPoints entries start stop, point ≤ p))

/-- The rows from `begins` up to a cut point are neither messages nor compactions. -/
structure RunBegins (entries : List FileEntry) (start point begins : Nat) : Prop where
  start_le : start ≤ begins
  le_point : begins ≤ point
  quiet : ∀ k, begins ≤ k → k < point → (entries[k]?).any stopsWalkBack = false
  stops : begins = start ∨ (entries[begins - 1]?).any stopsWalkBack

/-- A first kept message that starts a turn is a user message with no bookkeeping in front of it, or has bookkeeping
in front of it and no turn starts before that. -/
def TurnsShow (serde : Serde) (entries : List FileEntry) (start stop keepRecentTokens : Nat) : Prop :=
  ∀ point begins first, IsChosen serde entries start stop keepRecentTokens point →
    RunBegins entries start point begins → FirstKept entries begins stop first →
      (entries[first]?).any startsTurn →
        (first = begins ∧ (entries[first]?).any isUserMessage) ∨
        (begins < first ∧ ∀ k, start ≤ k → k < begins → (entries[k]?).any startsTurn = false)

section Rows

variable {entries : List FileEntry} {start stop : Nat} {row? : Option FileEntry}

theorem any_of_imp {p q : FileEntry → Bool} (hImp : ∀ entry, p entry → q entry) (hAny : row?.any p) : row?.any q := by
  cases row? with
  | none => cases hAny
  | some entry => exact hImp entry hAny

theorem any_at {p : FileEntry → Bool} (hAny : row?.any p) :
    ∃ entry, row? = some entry ∧ p entry := by
  cases row? with
  | none => cases hAny
  | some entry => exact ⟨entry, rfl, hAny⟩

theorem contextRow_of_valid (entry : FileEntry) (hValid : isValidCutPoint entry) : isContextRow entry := by
  cases entry <;> first | rfl | cases hValid

theorem valid_of_startsTurn (entry : FileEntry) (hStarts : startsTurn entry) : isValidCutPoint entry := by
  cases entry with
  | message message base => cases message <;> first | rfl | cases hStarts
  | branchSummary payload base => rfl
  | customMessage payload base => rfl
  | _ => cases hStarts

theorem startsTurn_of_user (entry : FileEntry) (hUser : isUserMessage entry) : startsTurn entry := by
  cases entry with
  | message message base => cases message <;> first | rfl | cases hUser
  | _ => cases hUser

theorem mem_findValidCutPoints_of {i : Nat} (hStart : start ≤ i) (hStop : i < stop)
    (hValid : (entries[i]?).any isValidCutPoint) : i ∈ findValidCutPoints entries start stop := by
  obtain ⟨entry, hAt, hEntry⟩ := any_at hValid
  have hMem : (entry, i) ∈ positionsIn entries start stop := by
    obtain ⟨hLt, -⟩ := List.getElem?_eq_some_iff.mp hAt
    refine List.mem_iff_getElem?.mpr ⟨i - start, ?_⟩
    rw [positionsIn, List.getElem?_drop, Nat.add_sub_cancel' hStart, List.getElem?_take, if_pos (by omega),
      List.getElem?_zipIdx, hAt]
    simp
  rw [findValidCutPoints, List.mem_map]
  exact ⟨(entry, i), List.mem_filter.mpr ⟨hMem, hEntry⟩, rfl⟩

theorem findValidCutPoints_sorted : (findValidCutPoints entries start stop).Pairwise (· < ·) := by
  have hZip : (entries.zipIdx.map (·.2)).Pairwise (· < ·) := by
    rw [List.zipIdx_map_snd]
    exact List.pairwise_lt_range'
  refine List.Pairwise.sublist ?_ hZip
  exact (((List.filter_sublist).trans (List.drop_sublist _ _)).trans (List.take_sublist _ _)).map _

theorem find?_reverse_range' {p : Nat → Bool} {n found : Nat} (hFound : (List.range' start n).reverse.find? p = some found) :
    start ≤ found ∧ found < start + n ∧ p found ∧ ∀ k, found < k → k < start + n → p k = false := by
  induction n with
  | zero => cases hFound
  | succ n ih =>
    rw [List.range'_1_concat, List.reverse_append, List.reverse_singleton, List.singleton_append] at hFound
    cases hLast : p (start + n) with
    | true =>
      rw [List.find?_cons_of_pos hLast] at hFound
      cases hFound
      exact ⟨by omega, by omega, hLast, fun k _ _ => by omega⟩
    | false =>
      rw [List.find?_cons_of_neg (by rw [hLast]; exact Bool.false_ne_true)] at hFound
      obtain ⟨hStart, hLt, hAt, hNearest⟩ := ih hFound
      refine ⟨hStart, by omega, hAt, fun k hAfter hTo => ?_⟩
      obtain rfl | hBelow := Nat.eq_or_lt_of_le (Nat.le_of_lt_succ hTo)
      · exact hLast
      · exact hNearest k hAfter hBelow

theorem findTurnStartIndex_some {index turn : Nat} (hTurn : findTurnStartIndex entries index start = some turn) :
    start ≤ turn ∧ turn ≤ index ∧ (entries[turn]?).any startsTurn ∧
      ∀ k, turn < k → k ≤ index → (entries[k]?).any startsTurn = false := by
  obtain ⟨hStart, hLt, hStarts, hNearest⟩ := find?_reverse_range' hTurn
  exact ⟨hStart, by omega, hStarts, fun k hAfter hTo => hNearest k hAfter (by omega)⟩

theorem findTurnStartIndex_none {index : Nat} : findTurnStartIndex entries index start = none ↔
    ∀ k, start ≤ k → k ≤ index → (entries[k]?).any startsTurn = false := by
  rw [findTurnStartIndex, List.find?_eq_none]
  constructor
  · intro hNone k hFrom hTo
    exact Bool.eq_false_iff.mpr (hNone k (List.mem_reverse.mpr (List.mem_range'_1.mpr ⟨hFrom, by omega⟩)))
  · intro hNone k hMem
    have hRange := List.mem_range'_1.mp (List.mem_reverse.mp hMem)
    exact Bool.eq_false_iff.mp (hNone k hRange.1 (by omega))

theorem FirstKept.unique {cut first other : Nat} (hFirst : FirstKept entries cut stop first)
    (hOther : FirstKept entries cut stop other) : first = other := by
  obtain hLt | hEq | hGt := Nat.lt_trichotomy first other
  · have hSpeaks := hFirst.speaks
    rw [hOther.skips first hFirst.cut_le hLt] at hSpeaks
    cases hSpeaks
  · exact hEq
  · have hSpeaks := hOther.speaks
    rw [hFirst.skips other hOther.cut_le hGt] at hSpeaks
    cases hSpeaks

theorem FirstKept.exists_of {cut point : Nat} (hCut : cut ≤ point) (hStop : point < stop)
    (hPoint : (entries[point]?).any isContextRow) : ∃ first, FirstKept entries cut stop first := by
  have hSome : ∃ k, cut ≤ k ∧ (entries[k]?).any isContextRow := ⟨point, hCut, hPoint⟩
  obtain ⟨hFrom, hSpeaks⟩ := Nat.find_spec hSome
  refine ⟨Nat.find hSome, hFrom, Nat.lt_of_le_of_lt (Nat.find_min' hSome ⟨hCut, hPoint⟩) hStop, hSpeaks, ?_⟩
  exact fun k hLe hLt => Bool.eq_false_iff.mpr fun hRow => Nat.find_min hSome hLt ⟨hLe, hRow⟩

theorem RunBegins.unique {point begins other : Nat} (hRun : RunBegins entries start point begins)
    (hOther : RunBegins entries start point other) : begins = other := by
  have hNotBefore {b b' : Nat} (hb : RunBegins entries start point b) (hb' : RunBegins entries start point b') :
      ¬ b < b' := by
    intro hLt
    have hStart := hb.start_le
    have hPoint := hb'.le_point
    obtain hEq | hStop := hb'.stops
    · omega
    · rw [hb.quiet (b' - 1) (by omega) (by omega)] at hStop
      cases hStop
  have hLe := hNotBefore hRun hOther
  have hGe := hNotBefore hOther hRun
  omega

end Rows

section Flag

variable {serde : Serde} {entries : List FileEntry} {start stop keepRecentTokens : Nat}

theorem isChosen_scanned (hKeep : keepRecentTokens ≤ u64Max) (hSome : findValidCutPoints entries start stop ≠ []) :
    IsChosen serde entries start stop keepRecentTokens (scanned serde entries start stop keepRecentTokens) := by
  have hMem := @scanned_valid serde entries start stop keepRecentTokens hSome
  have hSorted := @findValidCutPoints_sorted entries start stop
  have hValid := mem_findValidCutPoints hMem
  have hLt : scanned serde entries start stop keepRecentTokens < entries.length := by
    obtain ⟨entry, hAt, -⟩ := any_at hValid.2.2
    exact (List.getElem?_eq_some_iff.mp hAt).1
  refine ⟨hMem, ?_⟩
  obtain ⟨i, hReaches, hEq⟩ | ⟨hNever, hEq⟩ :=
    @scanned_cases serde entries start stop keepRecentTokens hKeep (show start ≤ min stop entries.length by omega)
  · refine .inl ⟨i, hReaches, ?_⟩
    rw [hEq, pickCut]
    cases hFind : (findValidCutPoints entries start stop).find? (i ≤ ·) with
    | some point =>
      obtain ⟨hFrom, before, after, hSplit, hBefore⟩ := List.find?_eq_some_iff_append.mp hFind
      refine .inl ⟨of_decide_eq_true hFrom, fun p hPoint hReached => ?_⟩
      rw [hSplit] at hPoint hSorted
      obtain hMem | hMem := List.mem_append.mp hPoint
      · have hShort := hBefore p hMem
        rw [decide_eq_true hReached] at hShort
        cases hShort
      · obtain rfl | hMem := List.mem_cons.mp hMem
        · exact Nat.le_refl _
        · exact ((List.pairwise_cons.mp (List.pairwise_append.mp hSorted).2.1).1 p hMem).le
    | none =>
      refine .inr fun p hPoint => ⟨?_, ?_⟩
      · have hShort := List.find?_eq_none.mp hFind p hPoint
        exact Nat.lt_of_not_le fun hReached => hShort (decide_eq_true hReached)
      · rw [Option.getD_none, List.getLastD_eq_getLast?, List.getLast?_eq_some_getLast hSome, Option.getD_some]
        obtain ⟨before, hSplit⟩ : ∃ before, findValidCutPoints entries start stop
            = before ++ [(findValidCutPoints entries start stop).getLast hSome] :=
          ⟨_, (List.dropLast_append_getLast hSome).symm⟩
        generalize (findValidCutPoints entries start stop).getLast hSome = last at hSplit ⊢
        rw [hSplit] at hPoint hSorted
        obtain hMem | hMem := List.mem_append.mp hPoint
        · exact ((List.pairwise_append.mp hSorted).2.2 p hMem last List.mem_cons_self).le
        · exact (List.mem_singleton.mp hMem).le
  · refine .inr ⟨hNever, fun p hPoint => ?_⟩
    rw [hEq]
    cases hPoints : findValidCutPoints entries start stop with
    | nil => exact absurd hPoints hSome
    | cons point points =>
      rw [hPoints] at hPoint hSorted
      obtain rfl | hMem := List.mem_cons.mp hPoint
      · exact Nat.le_refl _
      · exact ((List.pairwise_cons.mp hSorted).1 p hMem).le

theorem IsChosen.unique {point other : Nat} (hChosen : IsChosen serde entries start stop keepRecentTokens point)
    (hOther : IsChosen serde entries start stop keepRecentTokens other) : point = other := by
  obtain ⟨hMem, hPoint⟩ := hChosen
  obtain ⟨hMem', hPoint'⟩ := hOther
  obtain ⟨i, hReaches, hAt⟩ | ⟨hNever, hFirst⟩ := hPoint
  · obtain ⟨j, hReaches', hAt'⟩ | ⟨hNever, -⟩ := hPoint'
    · obtain rfl := hReaches.unique hReaches'
      obtain ⟨hFrom, hLeast⟩ | hLast := hAt
      · obtain ⟨hFrom', hLeast'⟩ | hLast' := hAt'
        · exact Nat.le_antisymm (hLeast other hMem' hFrom') (hLeast' point hMem hFrom)
        · have hShort := (hLast' point hMem).1
          omega
      · obtain ⟨hFrom', -⟩ | hLast' := hAt'
        · have hShort := (hLast other hMem').1
          omega
        · exact Nat.le_antisymm (hLast' point hMem).2 (hLast other hMem').2
    · exact absurd hReaches (hNever i)
  · obtain ⟨j, hReaches', -⟩ | ⟨-, hFirst'⟩ := hPoint'
    · exact absurd hReaches' (hNever j)
    · exact Nat.le_antisymm (hFirst other hMem') (hFirst' point hMem)

/-- The cut that the row at `begins` makes. -/
def cutAt (entries : List FileEntry) (start begins : Nat) : CutPointResult :=
  let isUser := (entries[begins]?).any isUserMessage
  let turnStartIndex := if isUser then none else findTurnStartIndex entries begins start
  ⟨begins, turnStartIndex, !isUser && turnStartIndex.isSome⟩

theorem findCutPoint_some (hSome : findValidCutPoints entries start stop ≠ []) :
    findCutPoint serde entries start stop keepRecentTokens
      = cutAt entries start (walkBack entries start (scanned serde entries start stop keepRecentTokens)) := by
  rw [findCutPoint, if_neg (by rwa [List.isEmpty_iff])]
  rfl

theorem not_startsTurn {k : Nat} (hSilent : (entries[k]?).any isContextRow = false) :
    (entries[k]?).any startsTurn = false := by
  refine Bool.eq_false_iff.mpr fun hStarts => ?_
  rw [any_of_imp (fun entry hEntry => contextRow_of_valid entry (valid_of_startsTurn entry hEntry)) hStarts] at hSilent
  cases hSilent

theorem TurnBefore.unique {first turn other : Nat} (hTurn : TurnBefore entries start first turn)
    (hOther : TurnBefore entries start first other) : turn = other := by
  obtain hLt | hEq | hGt := Nat.lt_trichotomy turn other
  · have hStarts := hOther.starts
    rw [hTurn.nearest other hLt hOther.lt_first] at hStarts
    cases hStarts
  · exact hEq
  · have hStarts := hTurn.starts
    rw [hOther.nearest turn hGt hTurn.lt_first] at hStarts
    cases hStarts

theorem findTurnStartIndex_turnBefore {begins first turn : Nat} (hFirst : FirstKept entries begins stop first)
    (hMiddle : (entries[first]?).any startsTurn = false) :
    findTurnStartIndex entries begins start = some turn ↔ TurnBefore entries start first turn := by
  have hBefore {turn : Nat} (hFound : findTurnStartIndex entries begins start = some turn) :
      TurnBefore entries start first turn := by
    obtain ⟨hStart, hTo, hStarts, hNearest⟩ := findTurnStartIndex_some hFound
    refine ⟨hStart, ?_, hStarts, fun k hAfter hLt => ?_⟩
    · have hNe : turn ≠ first := by
        rintro rfl
        rw [hMiddle] at hStarts
        cases hStarts
      have hCut := hFirst.cut_le
      omega
    · obtain hBehind | hCut := Nat.lt_or_ge begins k
      · exact not_startsTurn (hFirst.skips k hBehind.le hLt)
      · exact hNearest k hAfter hCut
  constructor
  · exact hBefore
  · intro hTurn
    cases hFound : findTurnStartIndex entries begins start with
    | some found => rw [(hBefore hFound).unique hTurn]
    | none =>
      have hStarts := hTurn.starts
      obtain hBehind | hCut := Nat.lt_or_ge begins turn
      · rw [not_startsTurn (hFirst.skips turn hBehind.le hTurn.lt_first)] at hStarts
        cases hStarts
      · rw [findTurnStartIndex_none.mp hFound turn hTurn.start_le hCut] at hStarts
        cases hStarts

theorem cutAt_tells_iff {begins first : Nat} (hStart : start ≤ begins) (hFirst : FirstKept entries begins stop first) :
    (cutAt entries start begins).Tells entries start stop ↔ ((entries[first]?).any startsTurn →
      (first = begins ∧ (entries[first]?).any isUserMessage) ∨
      (begins < first ∧ ∀ k, start ≤ k → k < begins → (entries[k]?).any startsTurn = false)) := by
  have hOnly {other : Nat} (hOther : FirstKept entries begins stop other) : other = first := hOther.unique hFirst
  cases hUser : (entries[begins]?).any isUserMessage with
  | true =>
    have hStarts : (entries[begins]?).any startsTurn := any_of_imp startsTurn_of_user hUser
    have hSpeaks : (entries[begins]?).any isContextRow :=
      any_of_imp (fun entry hEntry => contextRow_of_valid entry (valid_of_startsTurn entry hEntry)) hStarts
    have hHere : begins = first :=
      hOnly ⟨Nat.le_refl _, Nat.lt_of_le_of_lt hFirst.cut_le hFirst.lt_stop, hSpeaks, fun k _ _ => by omega⟩
    subst hHere
    have hCut : cutAt entries start begins = ⟨begins, none, false⟩ := by simp [cutAt, hUser]
    rw [hCut]
    refine iff_of_true ⟨⟨nofun, fun ⟨other, turn, hOther, hMiddle, _⟩ => ?_⟩, nofun⟩ fun _ => .inl ⟨rfl, hUser⟩
    rw [hOnly hOther, hStarts] at hMiddle
    cases hMiddle
  | false =>
    have hCut : cutAt entries start begins = ⟨begins, findTurnStartIndex entries begins start,
        (findTurnStartIndex entries begins start).isSome⟩ := by simp [cutAt, hUser]
    rw [hCut]
    cases hMiddle : (entries[first]?).any startsTurn with
    | true =>
      -- both sides say that the search finds nothing
      have hTells : CutPointResult.Tells entries start stop ⟨begins, findTurnStartIndex entries begins start,
          (findTurnStartIndex entries begins start).isSome⟩ ↔ findTurnStartIndex entries begins start = none := by
        constructor
        · intro hSays
          refine Option.not_isSome_iff_eq_none.mp fun hFound => ?_
          obtain ⟨other, turn, hOther, hNot, -⟩ := hSays.1.mp hFound
          rw [hOnly hOther, hMiddle] at hNot
          cases hNot
        · intro hNone
          rw [hNone]
          refine ⟨⟨nofun, fun ⟨other, turn, hOther, hNot, _⟩ => ?_⟩, nofun⟩
          rw [hOnly hOther, hMiddle] at hNot
          cases hNot
      rw [hTells, findTurnStartIndex_none]
      constructor
      · intro hNone _
        obtain hEq | hLt := Nat.eq_or_lt_of_le hFirst.cut_le
        · have hNot := hNone begins hStart (Nat.le_refl _)
          rw [hEq, hMiddle] at hNot
          cases hNot
        · exact .inr ⟨hLt, fun k hFrom hTo => hNone k hFrom hTo.le⟩
      · intro hShows k hFrom hTo
        obtain ⟨hHere, hFirstUser⟩ | ⟨hLt, hNone⟩ := hShows rfl
        · rw [hHere, hUser] at hFirstUser
          cases hFirstUser
        · obtain rfl | hBefore := Nat.eq_or_lt_of_le hTo
          · exact not_startsTurn (hFirst.skips k (Nat.le_refl _) hLt)
          · exact hNone k hFrom hBefore
    | false =>
      refine iff_of_true ⟨?_, fun _ other turn hOther hTurn => ?_⟩ nofun
      · rw [Option.isSome_iff_exists]
        constructor
        · rintro ⟨turn, hFound⟩
          exact ⟨first, turn, hFirst, hMiddle, (findTurnStartIndex_turnBefore hFirst hMiddle).mp hFound⟩
        · rintro ⟨other, turn, hOther, -, hTurn⟩
          rw [hOnly hOther] at hTurn
          exact ⟨turn, (findTurnStartIndex_turnBefore hFirst hMiddle).mpr hTurn⟩
      · rw [hOnly hOther] at hTurn
        exact (findTurnStartIndex_turnBefore hFirst hMiddle).mpr hTurn

theorem split_flag_iff (serde : Serde) (entries : List FileEntry) (start stop : Nat) (keepRecentTokens : UInt64) :
    (findCutPoint serde entries start stop keepRecentTokens.toNat).Tells entries start stop ↔
      TurnsShow serde entries start stop keepRecentTokens.toNat := by
  have hKeep : keepRecentTokens.toNat ≤ u64Max := Nat.le_of_lt_succ keepRecentTokens.toNat_lt
  by_cases hNone : findValidCutPoints entries start stop = []
  · refine iff_of_true ?_ fun point begins first hChosen => by
      rw [IsChosen, hNone] at hChosen
      exact absurd hChosen.1 List.not_mem_nil
    rw [firstKept_of_none hNone]
    refine ⟨⟨nofun, fun ⟨first, turn, hFirst, _, hTurn⟩ => ?_⟩, nofun⟩
    have hMem := mem_findValidCutPoints_of hTurn.start_le (Nat.lt_trans hTurn.lt_first hFirst.lt_stop)
      (any_of_imp valid_of_startsTurn hTurn.starts)
    rw [hNone] at hMem
    exact absurd hMem List.not_mem_nil
  · have hChosen := @isChosen_scanned serde entries start stop _ hKeep hNone
    have hValid := mem_findValidCutPoints hChosen.1
    have hWalk := walkBack_bounds entries start _ hValid.1
    obtain ⟨first, hFirst⟩ := FirstKept.exists_of hWalk.2 hValid.2.1 (any_of_imp contextRow_of_valid hValid.2.2)
    have hRun : RunBegins entries start (scanned serde entries start stop keepRecentTokens.toNat)
        (walkBack entries start (scanned serde entries start stop keepRecentTokens.toNat)) :=
      ⟨hWalk.1, hWalk.2, fun k hFrom hTo => walkBack_over hFrom hTo, walkBack_stops hValid.1⟩
    rw [findCutPoint_some hNone, cutAt_tells_iff hWalk.1 hFirst]
    constructor
    · intro hShows point begins other hPoint hBegins hOther
      obtain rfl := hPoint.unique hChosen
      obtain rfl := hBegins.unique hRun
      obtain rfl := hOther.unique hFirst
      exact hShows
    · intro hShows
      exact hShows _ _ _ hChosen hRun hFirst

def labelledSession : List FileEntry :=
  [.header ⟨some 3, "s", "", "/w", none, none, none⟩,
    .message (.user ⟨.text "list the files", 1⟩) ⟨some "u1", none, none⟩,
    .message (.assistant answer) ⟨some "a1", some "u1", none⟩,
    .label ⟨"u1", some "first"⟩ ⟨some "l1", some "a1", none⟩,
    .message (.user ⟨.text "thanks", 4⟩) ⟨some "u2", some "l1", none⟩]

theorem labelledSession_splits : findCutPoint emptyMapSerde labelledSession 1 5 1 = ⟨3, some 1, true⟩ ∧
    ¬ (findCutPoint emptyMapSerde labelledSession 1 5 1).Tells labelledSession 1 5 := by
  have hCut : findCutPoint emptyMapSerde labelledSession 1 5 1 = ⟨3, some 1, true⟩ := by decide
  refine ⟨hCut, fun hTells => ?_⟩
  rw [hCut] at hTells
  obtain ⟨first, turn, hFirst, hMiddle, -⟩ := hTells.1.mp rfl
  have hKept : FirstKept labelledSession 3 5 4 := ⟨by decide, by decide, rfl, by decide⟩
  rw [hFirst.unique hKept] at hMiddle
  cases hMiddle

end Flag

end PrimeAgent
