import PrimeAgent.SessionStore.Relabel
import PrimeAgent.SessionStore.Retained

/-! # Where the labels of a path stand -/
namespace PrimeAgent.SessionStore

open LastSplit

variable {file : SessionFile} {env : ForkEnv} {labels : LabelState} {path kept : List SessionEntry}
  {entry : SessionEntry}

def NoInnerLabel (path : List SessionEntry) : Prop :=
  ∀ before label after, path = before ++ label :: after → label.isLabel = true →
    (∀ entry ∈ before, entry.isLabel = true) ∨ (∀ entry ∈ after, entry.isLabel = true)

def keptRows (path : List SessionEntry) : List SessionEntry :=
  path.filter (!·.isLabel)

theorem keptRows_not_label (hMem : entry ∈ keptRows path) : entry.isLabel = false := by
  simpa using (List.mem_filter.mp hMem).2

theorem keptRows_labels {rows : List SessionEntry} (hLabels : ∀ entry ∈ rows, entry.isLabel = true) :
    keptRows rows = [] := by
  refine List.filter_eq_nil_iff.mpr fun entry hMem => ?_
  rw [hLabels entry hMem]
  simp

theorem keptRows_append (rows rows' : List SessionEntry) : keptRows (rows ++ rows') = keptRows rows ++ keptRows rows' :=
  List.filter_append ..

theorem keptRows_cons (hKept : entry.isLabel = false) (rows : List SessionEntry) :
    keptRows (entry :: rows) = entry :: keptRows rows :=
  List.filter_cons_of_pos (by rw [hKept]; rfl)

theorem keptRows_inside (hInner : NoInnerLabel path) : keptRows path <:+: path := by
  obtain ⟨leading, rest, rfl, hLeading, hRest⟩ : ∃ leading rest, path = leading ++ rest ∧
      (∀ entry ∈ leading, entry.isLabel = true) ∧ ∀ entry, rest.head? = some entry → entry.isLabel = false := by
    refine ⟨path.takeWhile (·.isLabel), path.dropWhile (·.isLabel), (List.takeWhile_append_dropWhile ..).symm, ?_, ?_⟩
    · exact fun entry hMem => List.mem_takeWhile_imp hMem
    · intro entry hHead
      have hFirst := List.head?_dropWhile_not (·.isLabel) path
      rw [hHead] at hFirst
      simpa using hFirst
  obtain ⟨middle, tail, rfl, hMiddle, hTail⟩ : ∃ middle tail, rest = middle ++ tail ∧
      (∀ entry ∈ middle, entry.isLabel = false) ∧ ∀ entry, tail.head? = some entry → entry.isLabel = true := by
    refine ⟨rest.takeWhile (!·.isLabel), rest.dropWhile (!·.isLabel), (List.takeWhile_append_dropWhile ..).symm, ?_, ?_⟩
    · exact fun entry hMem => by simpa using List.mem_takeWhile_imp hMem
    · intro entry hHead
      have hFirst := List.head?_dropWhile_not (!·.isLabel) rest
      rw [hHead] at hFirst
      simpa using hFirst
  have hLabels : ∀ entry ∈ tail, entry.isLabel = true := by
    cases tail with
    | nil => intro entry hMem; cases hMem
    | cons label tail =>
      have hLabel := hTail label rfl
      cases middle with
      | nil => exact absurd hLabel (by rw [hRest label rfl]; simp)
      | cons first middle =>
        have hSplit : leading ++ (first :: middle ++ label :: tail) = (leading ++ first :: middle) ++ label :: tail := by
          simp
        obtain hBefore | hAfter := hInner _ label tail hSplit hLabel
        · have hFirst := hBefore first (by simp)
          rw [hMiddle first List.mem_cons_self] at hFirst
          cases hFirst
        · intro entry hMem
          obtain rfl | hMem := List.mem_cons.mp hMem
          · exact hLabel
          · exact hAfter entry hMem
  have hKept : keptRows (leading ++ (middle ++ tail)) = middle := by
    have hAll : keptRows middle = middle := List.filter_eq_self.mpr fun entry hMem => by rw [hMiddle entry hMem]; rfl
    rw [keptRows_append, keptRows_append, hAll, keptRows_labels hLabels, keptRows_labels hLeading]
    simp
  rw [hKept]
  exact ⟨leading, tail, by simp⟩

theorem keptRows_chain_iff (hChain : path.IsChain Below) (hIds : (path.map (·.id)).Nodup) :
    (keptRows path).IsChain Below ↔ NoInnerLabel path := by
  constructor
  · intro hKept before label after hPath hLabel
    by_contra hInner
    rw [not_or] at hInner
    obtain ⟨hBefore, hAfter⟩ := hInner
    cases hLast : splitAtLast (!·.isLabel) before with
    | none =>
      refine hBefore fun entry hMem => ?_
      simpa using splitAtLast_eq_none_iff.mp hLast entry hMem
    | some found =>
      obtain ⟨earlier, parent, between⟩ := found
      obtain ⟨rfl, hParent, hBetween⟩ := splitAtLast_eq_some_iff.mp hLast
      have hRest : after = after.takeWhile (·.isLabel) ++ after.dropWhile (·.isLabel) :=
        (List.takeWhile_append_dropWhile ..).symm
      cases hDrop : after.dropWhile (·.isLabel) with
      | nil =>
        refine hAfter fun entry hMem => ?_
        rw [hRest, hDrop, List.append_nil] at hMem
        exact List.mem_takeWhile_imp hMem
      | cons child later =>
        rw [hDrop] at hRest
        have hChild : child.isLabel = false := by
          have hFirst := List.head?_dropWhile_not (·.isLabel) after
          rw [hDrop] at hFirst
          simpa using hFirst
        have hTaken : ∀ entry ∈ after.takeWhile (·.isLabel), entry.isLabel = true :=
          fun entry hMem => List.mem_takeWhile_imp hMem
        generalize after.takeWhile (·.isLabel) = skipped at hRest hTaken
        subst hRest
        have hGap : ∀ entry ∈ between ++ label :: skipped, entry.isLabel = true := by
          intro entry hMem
          obtain hMem | hMem := List.mem_append.mp hMem
          · simpa using hBetween entry hMem
          · obtain rfl | hMem := List.mem_cons.mp hMem
            · exact hLabel
            · exact hTaken entry hMem
        have hWhole : path = earlier ++ parent :: ((between ++ label :: skipped) ++ child :: later) := by
          rw [hPath]
          simp
        have hFiltered : keptRows path = keptRows earlier ++ parent :: child :: keptRows later := by
          have hParent : parent.isLabel = false := by simpa using hParent
          rw [hWhole, keptRows_append, keptRows_cons hParent, keptRows_append, keptRows_labels hGap, keptRows_cons hChild]
          rfl
        rw [hFiltered, List.isChain_append_cons_cons] at hKept
        have hBelow : child.parentId = some parent.id := hKept.2.1
        obtain ⟨gap, last, hGapSplit⟩ := List.eq_nil_or_concat' (between ++ label :: skipped) |>.resolve_left (by simp)
        rw [hGapSplit] at hWhole
        have hReal : child.parentId = some last.id := by
          have hAssoc : path = (earlier ++ parent :: gap) ++ last :: child :: later := by rw [hWhole]; simp
          rw [hAssoc, List.isChain_append_cons_cons] at hChain
          exact hChain.2.1
        rw [hReal, Option.some_inj] at hBelow
        rw [hWhole] at hIds
        simp only [List.map_append, List.map_cons, List.nodup_append, List.nodup_cons] at hIds
        exact hIds.2.1.1 (by simp [← hBelow])
  · exact fun hInner => hChain.infix (keptRows_inside hInner)

end PrimeAgent.SessionStore

/-! ## Messages and context without the labels

A label row adds nothing to the messages or to the context of a branch. Only a compaction that is pinned to a label
depends on it.
-/
namespace PrimeAgent.SessionStore

open LastSplit ParentWalk

variable {path : List SessionEntry} {entry : SessionEntry} {rows : List SessionEntry} {before : List SessionEntry}
  {pin : String}

/-! ## The messages of the store -/

theorem label_silent (hLabel : entry.isLabel = true) :
    entry.isCompaction = false ∧ entry.bearsMessage = false ∧ entry.message = none := by
  have hType : entry.type = "label" := by simpa [SessionEntry.isLabel] using hLabel
  simp [SessionEntry.isCompaction, SessionEntry.bearsMessage, SessionEntry.message, hType]

theorem filterMap_keptRows (rows : List SessionEntry) :
    (keptRows rows).filterMap (·.message) = rows.filterMap (·.message) := by
  induction rows with
  | nil => rfl
  | cons entry rows ih =>
    cases hLabel : entry.isLabel with
    | false => rw [keptRows_cons hLabel, List.filterMap_cons, List.filterMap_cons, ih]
    | true =>
      rw [List.filterMap_cons_none (label_silent hLabel).2.2, ← ih]
      congr 1
      exact List.filter_cons_of_neg (by simp [hLabel])

theorem walkRetained_keptRows (pin : String) (before : List SessionEntry) :
    walkRetained pin (keptRows before) = walkRetained pin before := by
  unfold walkRetained keptRows
  rw [List.filter_filter]
  congr 1
  apply List.filter_congr
  intro entry _
  cases hLabel : entry.isLabel with
  | false => simp
  | true => simp [(label_silent hLabel).2.1]

theorem branchMessages_keptRows (isoToUnixMs : String → Option Nat) (path : List SessionEntry) :
    branchMessages isoToUnixMs (keptRows path) = branchMessages isoToUnixMs path := by
  have hKeep : ∀ entry ∈ path, entry.isCompaction = true → (!entry.isLabel) = true := by
    intro entry _ hCompaction
    cases hLabel : entry.isLabel with
    | false => rfl
    | true =>
      rw [(label_silent hLabel).1] at hCompaction
      cases hCompaction
  unfold branchMessages
  rw [keptRows, splitAtLast_filter path hKeep]
  cases splitAtLast (·.isCompaction) path with
  | none => exact filterMap_keptRows path
  | some found =>
    obtain ⟨before, compaction, after⟩ := found
    simp only [Option.map_some]
    rw [← keptRows, ← keptRows, walkRetained_keptRows, filterMap_keptRows]

/-! ## The context of the engine -/

structure SessionEntry.Typed (entry : SessionEntry) : Prop where
  decoded : entry.toFileEntry = some entry.row
  id : entry.row.id = some entry.id
  parentId : entry.row.parentId = entry.parentId

theorem typed_of_written (hWritten : entry.Written) : entry.Typed := by
  obtain ⟨members, -, hDecoded, -⟩ := written_row hWritten
  exact ⟨hDecoded, (row_ids hWritten).1, (row_ids hWritten).2⟩

structure Inert (row : FileEntry) : Prop where
  compaction : row.isCompaction = false
  digest : isHarnessDigest row = false
  messages : ∀ keep, appendMessage keep row = []
  settings : ∀ settings : PathSettings, settings.apply row = settings

theorem inert_of_kind {row : FileEntry} (hKind : ∀ kind, kindOf row = some kind → kind = "label") : Inert row := by
  cases row with
  | label payload base | unknown members | header header => exact ⟨rfl, rfl, fun _ => rfl, fun _ => rfl⟩
  | message message base | thinkingLevelChange payload base | serviceTierChange payload base
    | modelChange payload base | compaction payload base | branchSummary payload base | custom payload base
    | childUsageAttributed payload base | sessionInfo payload base | sessionState payload base
    | gitState payload base | customMessage payload base => exact absurd (hKind _ rfl) (by decide)

theorem label_inert (hWritten : entry.Written) (hLabel : entry.isLabel = true) : Inert entry.row := by
  refine inert_of_kind fun kind hKind => ?_
  rw [← (row_decoded hWritten hKind).1]
  simpa [SessionEntry.isLabel] using hLabel

theorem labelRow_typed (id : String) (parent : Option String) (timestamp targetId label : String) :
    (SessionFile.labelRow id parent timestamp targetId label).Typed ∧
      Inert (SessionFile.labelRow id parent timestamp targetId label).row := by
  cases parent with
  | none | some parent => exact ⟨⟨rfl, rfl, rfl⟩, ⟨rfl, rfl, fun _ => rfl, fun _ => rfl⟩⟩

theorem indexById_rows (hTyped : ∀ entry ∈ path, entry.Typed) (hIds : (path.map (·.id)).Nodup) {i : Nat}
    (hEntry : path[i]? = some entry) : (indexById (path.map (·.row))).get entry.id = some i := by
  rw [indexById_eq_some_iff]
  constructor
  · rw [List.getElem?_map, hEntry]
    exact (hTyped entry (List.mem_of_getElem? hEntry)).id
  · intro j hLess hSame
    obtain ⟨row, hRow, hId⟩ := Option.bind_eq_some_iff.mp hSame
    rw [List.getElem?_map] at hRow
    obtain ⟨other, hOther, rfl⟩ := Option.map_eq_some_iff.mp hRow
    rw [(hTyped other (List.mem_of_getElem? hOther)).id] at hId
    have hFirst : (path.map (·.id))[i]? = some entry.id := by rw [List.getElem?_map, hEntry]; rfl
    have hSecond : (path.map (·.id))[j]? = some entry.id := by
      rw [List.getElem?_map, hOther, Option.map_some, hId]
    have hSamePlace := (List.nodup_iff_getElem?_ne_getElem?.mp hIds) i j hLess
      (List.getElem?_eq_some_iff.mp hSecond).1
    exact hSamePlace (hFirst.trans hSecond.symm)

theorem rebuiltContext_eq (hTyped : ∀ entry ∈ path, entry.Typed) (hChain : path.IsChain Below)
    (hIds : (path.map (·.id)).Nodup) : rebuiltContext path = contextOfRows (path.map (·.row)) := by
  have hRows : path.filterMap (·.toFileEntry) = path.map (·.row) := by
    rw [← List.filterMap_eq_map]
    exact List.filterMap_congr fun entry hMem => (hTyped entry hMem).decoded
  unfold rebuiltContext
  rw [hRows]
  obtain rfl | hNonempty := eq_or_ne path []
  · rfl
  · have hPos : 0 < path.length := List.length_pos_iff.mpr hNonempty
    have hLeaf : leafIndex (path.map (·.row)) none = some (path.length - 1) := by
      simp [leafIndex, hNonempty]
    have hStep : ∀ i, i < path.length - 1 → parentIndex (path.map (·.row)) (i + 1) = some i := by
      intro i hLess
      have hAbove := List.isChain_iff_getElem.mp hChain i (by omega)
      unfold parentIndex
      rw [List.getElem?_map, List.getElem?_eq_getElem (by omega), Option.map_some, Option.bind_some,
        (hTyped _ (List.getElem_mem _)).parentId, hAbove, Option.bind_some]
      exact indexById_rows hTyped hIds (List.getElem?_eq_getElem (by omega))
    have hEnd : ∀ j, parentIndex (path.map (·.row)) 0 = some j → j ≤ path.length - 1 := by
      intro j hParent
      have hLess := parentIndex_lt hParent
      rw [List.length_map] at hLess
      omega
    have hPath : contextPath (path.map (·.row)) none = List.range path.length := by
      unfold contextPath contextWalk
      rw [hLeaf, List.length_map, followGuarded_stairs hStep hEnd _ _ [] (Nat.le_refl _) (by simp) (by omega),
        Option.getD_some, List.reverse_reverse, Nat.sub_add_cancel hPos]
    have hWhole : rowsAt (path.map (·.row)) (List.range path.length) = path.map (·.row) := by
      unfold rowsAt
      have hRange := List.filterMap_congr fun i (_ : i ∈ List.range path.length) =>
        @List.getElem?_map _ _ (·.row) path i
      rw [hRange, ← List.map_filterMap, filterMap_range_getElem]
    unfold buildSessionContext
    rw [hLeaf, hPath]
    simp only
    rw [contextOnPath_eq List.pairwise_lt_range, hWhole]
    intro i hMem
    rw [List.length_map]
    exact List.mem_range.mp hMem

/-! ## A context without inert rows -/

theorem length_filter_lt_iff {α : Type} {p : α → Bool} {before before' after after' : List α} {x y : α}
    (hSplit : before ++ x :: after = before' ++ y :: after') (hx : p x = true) (hy : p y = true) :
    (before.filter p).length < (before'.filter p).length ↔ before.length < before'.length := by
  obtain ⟨gap, rfl, hRest⟩ | ⟨gap, rfl, hRest⟩ := List.append_eq_append_iff.mp hSplit
  · cases gap with
    | nil => simp
    | cons first gap =>
      obtain ⟨rfl, -⟩ := List.cons.inj hRest
      simp [List.filter_append, List.filter_cons_of_pos hx]
  · cases gap with
    | nil => simp
    | cons first gap =>
      simp only [List.filter_append, List.length_append, List.length_cons]
      omega

def LabelsInert (path : List SessionEntry) : Prop :=
  ∀ entry ∈ path, entry.isLabel = true → Inert entry.row

theorem LabelsInert.tail {rows : List SessionEntry} (hInert : LabelsInert (entry :: rows)) : LabelsInert rows :=
  fun other hMem => hInert other (List.mem_cons_of_mem _ hMem)

theorem LabelsInert.sub (hInert : LabelsInert path) (hSub : ∀ entry ∈ rows, entry ∈ path) :
    LabelsInert rows :=
  fun entry hMem => hInert entry (hSub entry hMem)

theorem keptRows_cons_label (hLabel : entry.isLabel = true) :
    keptRows (entry :: rows) = keptRows rows :=
  List.filter_cons_of_neg (by simp [hLabel])

theorem messagesOf_keptRows (keep : Option String) (hInert : LabelsInert path) :
    messagesOf keep ((keptRows path).map (·.row)) = messagesOf keep (path.map (·.row)) := by
  induction path with
  | nil => rfl
  | cons entry rows ih =>
    unfold messagesOf at ih ⊢
    cases hLabel : entry.isLabel with
    | false => rw [keptRows_cons hLabel, List.map_cons, List.map_cons, List.flatMap_cons, List.flatMap_cons, ih hInert.tail]
    | true =>
      rw [keptRows_cons_label hLabel, ih hInert.tail, List.map_cons, List.flatMap_cons,
        (hInert entry List.mem_cons_self hLabel).messages, List.nil_append]

theorem rowSettings_keptRows (hInert : LabelsInert path) :
    rowSettings ((keptRows path).map (·.row)) = rowSettings (path.map (·.row)) := by
  unfold rowSettings
  generalize PathSettings.initial = settings
  induction path generalizing settings with
  | nil => rfl
  | cons entry rows ih =>
    cases hLabel : entry.isLabel with
    | false =>
      rw [keptRows_cons hLabel, List.map_cons, List.map_cons, List.foldl_cons, List.foldl_cons]
      exact ih hInert.tail _
    | true =>
      rw [keptRows_cons_label hLabel, List.map_cons, List.foldl_cons,
        (hInert entry List.mem_cons_self hLabel).settings]
      exact ih hInert.tail _

theorem splitAtLast_keptRows {p : FileEntry → Bool}
    (hKeep : ∀ entry ∈ path, entry.isLabel = true → p entry.row = false) :
    splitAtLast p ((keptRows path).map (·.row)) = (splitAtLast (fun entry => p entry.row) path).map fun found =>
      ((keptRows found.1).map (·.row), found.2.1.row, (keptRows found.2.2).map (·.row)) := by
  have hFilter : ∀ entry ∈ path, p entry.row = true → (!entry.isLabel) = true := by
    intro entry hMem hTest
    cases hLabel : entry.isLabel with
    | false => rfl
    | true =>
      rw [hKeep entry hMem hLabel] at hTest
      cases hTest
  rw [splitAtLast_map, keptRows, splitAtLast_filter path hFilter, Option.map_map]
  rfl

theorem digest_keptRows {before after : List SessionEntry} {compaction : SessionEntry} (payload : CompactionEntry)
    (hPath : path = before ++ compaction :: after) (hCompaction : compaction.isLabel = false) (hInert : LabelsInert path) :
    keptDigestId ((keptRows path).map (·.row)) payload (keptRows before).length =
        keptDigestId (path.map (·.row)) payload before.length ∧
      digestAfter ((keptRows path).map (·.row)) (keptRows before).length =
        digestAfter (path.map (·.row)) before.length := by
  have hSplit := splitAtLast_keptRows fun entry hMem hLabel => (hInert entry hMem hLabel).digest
  have hWhole : splitAtLast isHarnessDigest (path.map (·.row)) = _ := splitAtLast_map isHarnessDigest (·.row) path
  unfold keptDigestId snapshotOutranksDigest newestDigestId digestAfter
  rw [hSplit, hWhole]
  cases hLast : splitAtLast (fun entry => isHarnessDigest entry.row) path with
  | none => exact ⟨rfl, rfl⟩
  | some found =>
    obtain ⟨earlier, digest, later⟩ := found
    obtain ⟨hDigestPath, hDigest, -⟩ := splitAtLast_eq_some_iff.mp hLast
    have hStays : digest.isLabel = false := by
      cases hLabel : digest.isLabel with
      | false => rfl
      | true =>
        rw [(hInert digest (by rw [hDigestPath]; simp) hLabel).digest] at hDigest
        cases hDigest
    have hSame := hDigestPath.symm.trans hPath
    have hLess : (keptRows earlier).length < (keptRows before).length ↔ earlier.length < before.length :=
      length_filter_lt_iff hSame (by rw [hStays]; rfl) (by rw [hCompaction]; rfl)
    have hMore : (keptRows before).length < (keptRows earlier).length ↔ before.length < earlier.length :=
      length_filter_lt_iff hSame.symm (by rw [hCompaction]; rfl) (by rw [hStays]; rfl)
    simp only [Option.map_some, Option.all_some, Option.any_some, Option.bind_some, List.length_map, hLess, hMore,
      and_self]

/-! ## A pinned label -/

theorem fromBoundary_keptRows (hFree : ∀ entry ∈ before, entry.isLabel = true → entry.id ≠ pin) :
    fromBoundary pin (keptRows before) = keptRows (fromBoundary pin before) := by
  unfold fromBoundary
  induction before with
  | nil => rfl
  | cons entry before ih =>
    have hRest := ih fun other hMem => hFree other (List.mem_cons_of_mem _ hMem)
    cases hLabel : entry.isLabel with
    | false =>
      rw [keptRows_cons hLabel, List.dropWhile_cons, List.dropWhile_cons]
      split
      next => exact hRest
      next => rw [keptRows_cons hLabel]
    | true =>
      rw [keptRows_cons_label hLabel, hRest, List.dropWhile_cons, if_pos]
      simpa using hFree entry List.mem_cons_self hLabel

theorem fromBoundary_absent (hAbsent : ∀ entry ∈ rows, entry.id ≠ pin) :
    fromBoundary pin rows = [] := by
  unfold fromBoundary
  rw [List.dropWhile_eq_nil_iff]
  intro entry hMem
  simpa using hAbsent entry hMem

theorem fromBoundary_pinned {label : SessionEntry} (hMem : label ∈ before) (hLabel : label.isLabel = true)
    (hPin : label.id = pin) (hIds : (before.map (·.id)).Nodup)
    (hLeading : ∀ earlier later, before = earlier ++ label :: later →
      ∀ entry ∈ earlier, entry.isLabel = true) :
    fromBoundary pin (keptRows before) = [] ∧ keptRows (fromBoundary pin before) = keptRows before := by
  obtain ⟨earlier, later, rfl⟩ := List.append_of_mem hMem
  have hEarlier := hLeading earlier later rfl
  rw [List.map_append, List.map_cons, List.nodup_append, List.nodup_cons] at hIds
  obtain ⟨-, ⟨hLater, -⟩, hApart⟩ := hIds
  constructor
  · refine fromBoundary_absent fun entry hKept hSame => ?_
    obtain ⟨hIn, hStays⟩ := List.mem_filter.mp hKept
    obtain hFirst | hRest := List.mem_append.mp hIn
    · rw [hEarlier entry hFirst] at hStays
      cases hStays
    · obtain rfl | hRest := List.mem_cons.mp hRest
      · rw [hLabel] at hStays
        cases hStays
      · exact hLater (List.mem_map.mpr ⟨entry, hRest, by rw [hSame, hPin]⟩)
  · have hDrop : fromBoundary pin (earlier ++ label :: later) = label :: later := by
      unfold fromBoundary
      rw [List.dropWhile_append_of_pos, List.dropWhile_cons, if_neg (by simp [hPin])]
      intro entry hFirst
      have hNe := hApart entry.id (List.mem_map_of_mem hFirst) label.id List.mem_cons_self
      simpa [hPin] using hNe
    rw [hDrop, keptRows_append, keptRows_labels hEarlier, List.nil_append]

/-- Where the last compaction of the path is pinned to a label, the rows before the compaction hold no message. -/
def PinFree (path : List SessionEntry) : Prop :=
  ∀ before compaction after payload base, path = before ++ compaction :: after →
    compaction.row = .compaction payload base → (∀ entry ∈ after, entry.row.isCompaction = false) →
    (∃ label ∈ before, label.isLabel = true ∧ label.id = payload.firstKeptEntryId) →
    messagesOf (keptDigestId (path.map (·.row)) payload before.length) (before.map (·.row)) = []

theorem retained_keptRows_iff {before : List SessionEntry} {payload : CompactionEntry} {keep : Option String}
    (hInert : LabelsInert before) (hTyped : ∀ entry ∈ before, entry.Typed) (hIds : (before.map (·.id)).Nodup)
    (hLeading : ∀ earlier label later, before = earlier ++ label :: later → label.isLabel = true →
      ∀ entry ∈ earlier, entry.isLabel = true) :
    messagesOf keep (retainedRows payload ((keptRows before).map (·.row))) =
        messagesOf keep (retainedRows payload (before.map (·.row))) ↔
      ((∃ label ∈ before, label.isLabel = true ∧ label.id = payload.firstKeptEntryId) →
        messagesOf keep (before.map (·.row)) = []) := by
  have hKeptIds : ∀ entry ∈ keptRows before, entry.row.id = some entry.id :=
    fun entry hMem => (hTyped entry (List.mem_filter.mp hMem).1).id
  have hBoundaryInert : LabelsInert (fromBoundary payload.firstKeptEntryId before) :=
    hInert.sub fun entry hMem => (List.dropWhile_sublist _).subset hMem
  unfold retainedRows
  rw [dropWhile_rows hKeptIds, dropWhile_rows fun entry hMem => (hTyped entry hMem).id,
    ← messagesOf_keptRows keep hBoundaryInert]
  by_cases hPinned : ∃ label ∈ before, label.isLabel = true ∧ label.id = payload.firstKeptEntryId
  · obtain ⟨label, hMem, hLabel, hPin⟩ := hPinned
    obtain ⟨hNone, hAll⟩ := fromBoundary_pinned hMem hLabel hPin hIds fun earlier later hSplit =>
      hLeading earlier label later hSplit hLabel
    rw [hNone, hAll, messagesOf_keptRows keep hInert]
    constructor
    · exact fun hSame _ => hSame.symm
    · exact fun hEmpty => (hEmpty ⟨label, hMem, hLabel, hPin⟩).symm
  · have hFree : ∀ entry ∈ before, entry.isLabel = true → entry.id ≠ payload.firstKeptEntryId :=
      fun entry hMem hLabel hPin => hPinned ⟨entry, hMem, hLabel, hPin⟩
    rw [fromBoundary_keptRows hFree]
    exact ⟨fun _ hSome => absurd hSome hPinned, fun _ => rfl⟩

theorem contextOfRows_keptRows_iff (hInert : LabelsInert path) (hTyped : ∀ entry ∈ path, entry.Typed)
    (hIds : (path.map (·.id)).Nodup) (hInner : NoInnerLabel path) :
    contextOfRows ((keptRows path).map (·.row)) = contextOfRows (path.map (·.row)) ↔ PinFree path := by
  have hSettings := rowSettings_keptRows hInert
  have hMessages : contextOfRows ((keptRows path).map (·.row)) = contextOfRows (path.map (·.row)) ↔
      rowMessages ((keptRows path).map (·.row)) = rowMessages (path.map (·.row)) := by
    unfold contextOfRows
    rw [hSettings, SessionContext.mk.injEq]
    simp
  have hSplit := splitAtLast_keptRows fun entry hMem hLabel => (hInert entry hMem hLabel).compaction
  have hWhole : splitAtLast FileEntry.isCompaction (path.map (·.row)) = _ :=
    splitAtLast_map FileEntry.isCompaction (·.row) path
  rw [hMessages]
  unfold rowMessages
  rw [hSplit, hWhole]
  cases hLast : splitAtLast (fun entry => entry.row.isCompaction) path with
  | none =>
    have hDigest : newestDigestId ((keptRows path).map (·.row)) = newestDigestId (path.map (·.row)) := by
      unfold newestDigestId
      rw [splitAtLast_keptRows fun entry hMem hLabel => (hInert entry hMem hLabel).digest, splitAtLast_map]
      cases splitAtLast (fun entry => isHarnessDigest entry.row) path <;> rfl
    refine ⟨fun _ => ?_, fun _ => ?_⟩
    · intro before compaction after payload base hPath hRow
      have hNone := splitAtLast_eq_none_iff.mp hLast compaction (by rw [hPath]; simp)
      rw [hRow] at hNone
      cases hNone
    · simp only [Option.map_none]
      rw [hDigest, messagesOf_keptRows _ hInert]
  | some found =>
    obtain ⟨before, compaction, after⟩ := found
    obtain ⟨hPath, hTest, hAfter⟩ := splitAtLast_eq_some_iff.mp hLast
    obtain ⟨payload, base, hRow⟩ := exists_compaction hTest
    have hStays : compaction.isLabel = false := by
      cases hLabel : compaction.isLabel with
      | false => rfl
      | true =>
        rw [(hInert compaction (by rw [hPath]; simp) hLabel).compaction] at hTest
        cases hTest
    have hBefore : ∀ entry ∈ before, entry ∈ path := fun entry hMem => by rw [hPath]; simp [hMem]
    have hBehind : ∀ entry ∈ after, entry ∈ path := fun entry hMem => by rw [hPath]; simp [hMem]
    obtain ⟨hKeep, hDigest⟩ := digest_keptRows payload hPath hStays hInert
    have hBeforeIds : (before.map (·.id)).Nodup := by
      rw [hPath, List.map_append, List.nodup_append] at hIds
      exact hIds.1
    have hLeading : ∀ earlier label later, before = earlier ++ label :: later → label.isLabel = true →
        ∀ entry ∈ earlier, entry.isLabel = true := by
      intro earlier label later hSplit hLabel
      obtain hEarlier | hLater := hInner earlier label (later ++ compaction :: after) (by rw [hPath, hSplit]; simp) hLabel
      · exact hEarlier
      · have hOther := hLater compaction (by simp)
        rw [hStays] at hOther
        cases hOther
    have hRetained := @retained_keptRows_iff before payload (keptDigestId (path.map (·.row)) payload before.length)
      (hInert.sub hBefore) (fun entry hMem => hTyped entry (hBefore entry hMem)) hBeforeIds hLeading
    have hPinFree : PinFree path ↔
        ((∃ label ∈ before, label.isLabel = true ∧ label.id = payload.firstKeptEntryId) →
          messagesOf (keptDigestId (path.map (·.row)) payload before.length) (before.map (·.row)) = []) := by
      constructor
      · exact fun hFree => hFree before compaction after payload base hPath hRow hAfter
      · intro hHere before' compaction' after' payload' base' hPath' hRow' hAfter'
        have hAgain := splitAtLast_eq_some_iff.mpr ⟨hPath', by rw [hRow']; rfl, hAfter'⟩
        rw [hLast] at hAgain
        obtain ⟨rfl, hRest⟩ := Prod.mk.inj (Option.some.inj hAgain)
        obtain ⟨rfl, rfl⟩ := Prod.mk.inj hRest
        rw [hRow] at hRow'
        obtain ⟨rfl, rfl⟩ := FileEntry.compaction.inj hRow'
        exact hHere
    rw [hPinFree, ← hRetained]
    simp only [Option.map_some, hRow]
    unfold compactedMessages
    simp only [List.length_map, hKeep, hDigest, messagesOf_keptRows _ (hInert.sub hBehind)]
    constructor
    · intro hSame
      exact List.append_cancel_right (List.cons.inj hSame).2
    · intro hSame
      rw [hSame]

end PrimeAgent.SessionStore
