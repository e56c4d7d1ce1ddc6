import PrimeAgent.Session.Parse

/-! # Migration

Older session files are brought to the current version on load: version 1 had no ids, version 2 is
only renumbered.
-/
namespace PrimeAgent

/-- What one call of `generate_id` draws: the first eight digits of each uuid, then a whole one. -/
structure IdSource where
  draws : Nat → String
  whole : String

def generateId (existing : String → Bool) (source : IdSource) : String :=
  (((List.range 100).map source.draws).find? fun id => !existing id).getD source.whole

/-- `CURRENT_SESSION_VERSION`. -/
def currentSessionVersion : Nat :=
  3

def FileEntry.setVersion (version : Nat) : FileEntry → FileEntry
  | .header h => .header { h with version := some version }
  | entry => entry

/-- The first loop of `migrate_v1_to_v2`: every row but the header gets an id, with the row before as
its parent. -/
def assignIds (sources : Nat → IdSource) : List String → Option String → List FileEntry → List FileEntry
  | _, _, [] => []
  | ids, prevId, .header h :: rest => (FileEntry.header h).setVersion 2 :: assignIds sources ids prevId rest
  | ids, prevId, entry :: rest =>
    let id := generateId (ids.contains ·) (sources ids.length)
    let based := match entry.base? with
      | some base => entry.setBase { base with id := some id, parentId := prevId }
      | none => entry
    based :: assignIds sources (ids ++ [id]) (some id) rest

/-- The second loop: `firstKeptEntryIndex` becomes the id its row now has. -/
def fixCompaction (entries : List FileEntry) : FileEntry → FileEntry
  | .compaction payload base =>
    let target := (payload.details.bind fun details => details.get "firstKeptEntryIndex").bind Json.asU64
    match target.bind fun index => (entries[index]?).bind FileEntry.id with
    | some id => .compaction { payload with firstKeptEntryId := id } base
    | none => .compaction payload base
  | entry => entry

def migrateV1ToV2 (sources : Nat → IdSource) (entries : List FileEntry) : List FileEntry :=
  let entries := assignIds sources [] none entries
  entries.map (fixCompaction entries)

def migrateV2ToV3 (entries : List FileEntry) : List FileEntry :=
  entries.map (FileEntry.setVersion 3)

def sessionVersion (entries : List FileEntry) : Nat :=
  (entries.findSome? fun
    | .header h => some (h.version.getD 1)
    | _ => none).getD 1

/-- `migrate_to_current_version`: the rows, and whether they were changed. -/
def migrateToCurrentVersion (sources : Nat → IdSource) (entries : List FileEntry) : List FileEntry × Bool :=
  let version := sessionVersion entries
  if currentSessionVersion ≤ version then (entries, false)
  else
    let entries := if version < 2 then migrateV1ToV2 sources entries else entries
    (if version < 3 then migrateV2ToV3 entries else entries, true)

namespace FileEntry

@[simp] theorem setVersion_isHeader (version : Nat) (entry : FileEntry) :
    (entry.setVersion version).isHeader = entry.isHeader := by
  cases entry <;> rfl

@[simp] theorem fixCompaction_isHeader (entries : List FileEntry) (entry : FileEntry) :
    (fixCompaction entries entry).isHeader = entry.isHeader := by
  unfold fixCompaction
  split
  · simp only
    split <;> rfl
  · rfl

end FileEntry

theorem assignIds_isHeader (sources : Nat → IdSource) (entries : List FileEntry) :
    ∀ (ids : List String) (prevId : Option String),
      (assignIds sources ids prevId entries).map FileEntry.isHeader = entries.map FileEntry.isHeader := by
  induction entries with
  | nil => intro _ _; rfl
  | cons entry entries ih =>
    intro ids prevId
    cases entry with
    | header h => rw [assignIds, List.map_cons, List.map_cons, ih, FileEntry.setVersion_isHeader]
    | _ =>
      rw [assignIds, List.map_cons, List.map_cons, ih]
      · rfl
      · exact fun h => by simp

theorem migrateToCurrentVersion_isHeader (sources : Nat → IdSource) (entries : List FileEntry) :
    (migrateToCurrentVersion sources entries).1.map FileEntry.isHeader = entries.map FileEntry.isHeader := by
  have hFirst : (migrateV1ToV2 sources entries).map FileEntry.isHeader = entries.map FileEntry.isHeader := by
    rw [migrateV1ToV2, List.map_map, ← assignIds_isHeader sources entries [] none]
    exact List.map_congr_left fun entry _ => FileEntry.fixCompaction_isHeader _ entry
  have hSecond : ∀ rows : List FileEntry, (migrateV2ToV3 rows).map FileEntry.isHeader = rows.map FileEntry.isHeader := by
    intro rows
    rw [migrateV2ToV3, List.map_map]
    exact List.map_congr_left fun entry _ => FileEntry.setVersion_isHeader 3 entry
  unfold migrateToCurrentVersion
  simp only
  split
  · rfl
  · split <;> split <;> simp only [hFirst, hSecond]

end PrimeAgent

/-! ## The rows of a migrated version 1 session

Version 1 is one conversation in file order. After the migration every row's parent has to be the row
before it; a row of an unknown kind keeps no id and breaks the chain.
-/
namespace PrimeAgent

structure Uuids (sources : Nat → IdSource) (calls : Nat) : Prop where
  short : ∀ n k, ((sources n).draws k).length = 8
  long : ∀ n, (sources n).whole.length = 36
  unique : ∀ n < calls, ∀ m < calls, (sources n).whole = (sources m).whole → n = m

def Bare (entry : FileEntry) : Prop :=
  entry.isHeader = false → entry.id = none ∧ entry.parentId = none

def threadRows (entries : List FileEntry) : List FileEntry :=
  entries.filter fun entry => !entry.isHeader

/-- Each row's parent is the row before it, the first one's is `prevId`. -/
def Linked : Option String → List FileEntry → Prop
  | _, [] => True
  | prevId, entry :: rest =>
    entry.parentId = prevId ∧ (rest ≠ [] → entry.id.isSome) ∧ Linked entry.id rest

def firstKeptEntryIndex (payload : CompactionEntry) : Option Nat :=
  (payload.details.bind fun details => details.get "firstKeptEntryIndex").bind Json.asU64

structure Migrated (entries : List FileEntry) : Prop where
  linked : Linked none (threadRows entries)
  distinct : ((threadRows entries).filterMap FileEntry.id).Nodup
  firstKept : ∀ payload base, .compaction payload base ∈ entries → ∀ index, firstKeptEntryIndex payload = some index →
    ∀ entry, entries[index]? = some entry → entry.id = some payload.firstKeptEntryId

def isUnknown : FileEntry → Bool
  | .unknown _ => true
  | _ => false

theorem generateId_cases (existing : String → Bool) (source : IdSource) :
    (existing (generateId existing source) = false ∧ ∃ k, generateId existing source = source.draws k) ∨
      generateId existing source = source.whole := by
  unfold generateId
  cases hFind : ((List.range 100).map source.draws).find? fun id => !existing id with
  | none => exact Or.inr rfl
  | some id =>
    refine Or.inl ⟨by simpa using List.find?_some hFind, ?_⟩
    obtain ⟨k, -, hDraw⟩ := List.mem_map.mp (List.mem_of_find?_eq_some hFind)
    exact ⟨k, hDraw.symm⟩

def Drawn (sources : Nat → IdSource) (ids : List String) : Prop :=
  ∀ id ∈ ids, id.length = 8 ∨ ∃ n < ids.length, id = (sources n).whole

variable {calls : Nat} {ids : List String} {sources : Nat → IdSource} {entry : FileEntry} {prevId : Option String}
  {entries : List FileEntry} {rows : List FileEntry}

theorem drawnId_fresh (hUuids : Uuids sources calls) (hDrawn : Drawn sources ids) (hCalls : ids.length < calls) :
    generateId (ids.contains ·) (sources ids.length) ∉ ids := by
  rcases generateId_cases (ids.contains ·) (sources ids.length) with ⟨hNew, -⟩ | hWhole
  · simpa using hNew
  · rw [hWhole]
    intro hMem
    rcases hDrawn _ hMem with hShort | ⟨n, hEarlier, hSame⟩
    · rw [hUuids.long] at hShort
      omega
    · have hCall := hUuids.unique ids.length hCalls n (by omega) hSame
      omega

theorem drawn_concat (hUuids : Uuids sources calls) (hDrawn : Drawn sources ids) :
    Drawn sources (ids ++ [generateId (ids.contains ·) (sources ids.length)]) := by
  intro id hMem
  rw [List.length_append, List.length_singleton]
  rcases List.mem_append.mp hMem with hOld | hNew
  · rcases hDrawn id hOld with hShort | ⟨n, hEarlier, hSame⟩
    · exact Or.inl hShort
    · exact Or.inr ⟨n, by omega, hSame⟩
  · rw [List.mem_singleton.mp hNew]
    rcases generateId_cases (ids.contains ·) (sources ids.length) with ⟨-, k, hDraw⟩ | hWhole
    · exact Or.inl (hDraw ▸ hUuids.short _ k)
    · exact Or.inr ⟨ids.length, by omega, hWhole⟩

def based (id parentId : Option String) (entry : FileEntry) : FileEntry :=
  match entry.base? with
  | some base => entry.setBase { base with id := id, parentId := parentId }
  | none => entry

theorem assignIds_cons (sources : Nat → IdSource) (ids : List String) (prevId : Option String) (entry : FileEntry)
    (rest : List FileEntry) (hRow : entry.isHeader = false) :
    assignIds sources ids prevId (entry :: rest) =
      based (some (generateId (ids.contains ·) (sources ids.length))) prevId entry ::
      assignIds sources (ids ++ [generateId (ids.contains ·) (sources ids.length)])
        (some (generateId (ids.contains ·) (sources ids.length))) rest := by
  generalize hId : generateId (ids.contains ·) (sources ids.length) = id
  cases entry with
  | header h => cases hRow
  | _ =>
    rw [assignIds]
    · rw [hId]
      rfl
    · exact fun h => by simp

theorem based_ids (hRow : entry.isHeader = false) (hKnown : isUnknown entry = false) (id parentId : Option String) :
    (based id parentId entry).id = id ∧ (based id parentId entry).parentId = parentId := by
  cases entry with
  | header h => cases hRow
  | unknown rest => cases hKnown
  | _ => exact ⟨rfl, rfl⟩

theorem based_isHeader (id parentId : Option String) (entry : FileEntry) :
    (based id parentId entry).isHeader = entry.isHeader := by
  cases entry <;> rfl

theorem assignIds_linked {sources : Nat → IdSource} {calls : Nat} (hUuids : Uuids sources calls)
    (entries : List FileEntry) {ids : List String} {prevId : Option String} (hDrawn : Drawn sources ids)
    (hCalls : ids.length + entries.length ≤ calls)
    (hKnown : ∀ entry ∈ threadRows entries, isUnknown entry = false) :
    Linked prevId (threadRows (assignIds sources ids prevId entries)) ∧
      (∀ entry ∈ threadRows (assignIds sources ids prevId entries), ∃ id, entry.id = some id ∧ id ∉ ids) ∧
      ((threadRows (assignIds sources ids prevId entries)).filterMap FileEntry.id).Nodup := by
  induction entries generalizing ids prevId with
  | nil =>
    have hNil : threadRows (assignIds sources ids prevId []) = [] := by rw [assignIds]; rfl
    rw [hNil]
    exact ⟨trivial, fun _ hMem => absurd hMem List.not_mem_nil, List.nodup_nil⟩
  | cons entry entries ih =>
    rw [List.length_cons] at hCalls
    cases hHeader : entry.isHeader with
    | true =>
      obtain ⟨h, rfl⟩ : ∃ h, entry = .header h := by
        cases entry with
        | header h => exact ⟨h, rfl⟩
        | _ => cases hHeader
      have hSkip : threadRows (assignIds sources ids prevId (.header h :: entries)) =
          threadRows (assignIds sources ids prevId entries) := by
        rw [assignIds]
        exact List.filter_cons_of_neg (by simp [FileEntry.setVersion, FileEntry.isHeader])
      rw [hSkip]
      exact ih hDrawn (by omega) hKnown
    | false =>
      have hRows : threadRows (entry :: entries) = entry :: threadRows entries :=
        List.filter_cons_of_pos (by rw [hHeader]; rfl)
      rw [hRows] at hKnown
      have hFresh := drawnId_fresh hUuids hDrawn (by omega)
      have hNext := drawn_concat hUuids hDrawn
      rw [assignIds_cons sources ids prevId entry entries hHeader]
      generalize generateId (ids.contains ·) (sources ids.length) = id at hFresh hNext ⊢
      have hThread : ∀ rest, threadRows (based (some id) prevId entry :: rest) =
          based (some id) prevId entry :: threadRows rest := fun rest =>
        List.filter_cons_of_pos (by rw [based_isHeader, hHeader]; rfl)
      obtain ⟨hId, hParent⟩ := based_ids hHeader (hKnown entry List.mem_cons_self) (some id) prevId
      obtain ⟨hLinked, hIds, hNodup⟩ := @ih (ids ++ [id]) (some id) hNext (by simp; omega)
        fun other hMem => hKnown other (List.mem_cons_of_mem _ hMem)
      rw [hThread]
      refine ⟨⟨hParent, fun _ => by rw [hId]; rfl, hId.symm ▸ hLinked⟩, fun other hMem => ?_, ?_⟩
      · rcases List.mem_cons.mp hMem with rfl | hMem
        · exact ⟨id, hId, hFresh⟩
        · obtain ⟨otherId, hOther, hNew⟩ := hIds other hMem
          exact ⟨otherId, hOther, fun hOld => hNew (List.mem_append_left _ hOld)⟩
      · rw [List.filterMap_cons_some hId]
        refine List.nodup_cons.mpr ⟨fun hMem => ?_, hNodup⟩
        obtain ⟨other, hOther, hSame⟩ := List.mem_filterMap.mp hMem
        obtain ⟨otherId, hOtherId, hNew⟩ := hIds other hOther
        cases hSame.symm.trans hOtherId
        exact hNew (List.mem_append_right _ (List.mem_singleton_self _))

theorem unknown_mem_assignIds (sources : Nat → IdSource) (rest : JsonMap) (entries : List FileEntry)
    (hMem : FileEntry.unknown rest ∈ entries) :
    FileEntry.unknown rest ∈ assignIds sources ids prevId entries := by
  induction entries generalizing ids prevId with
  | nil => cases hMem
  | cons entry entries ih =>
    cases hHeader : entry.isHeader with
    | true =>
      obtain ⟨h, rfl⟩ : ∃ h, entry = .header h := by
        cases entry with
        | header h => exact ⟨h, rfl⟩
        | _ => cases hHeader
      rw [assignIds]
      exact List.mem_cons_of_mem _ (ih ((List.mem_cons.mp hMem).resolve_left nofun))
    | false =>
      rw [assignIds_cons sources ids prevId entry entries hHeader]
      rcases List.mem_cons.mp hMem with rfl | hMem
      · exact List.mem_cons_self
      · exact List.mem_cons_of_mem _ (ih hMem)

theorem linked_between {rows below above : List FileEntry} (hLinked : Linked prevId rows)
    (hRows : rows = below ++ entry :: above) :
    (below ≠ [] → entry.parentId.isSome) ∧ (above ≠ [] → entry.id.isSome) := by
  induction below generalizing rows prevId with
  | nil =>
    subst hRows
    exact ⟨fun hNil => absurd rfl hNil, hLinked.2.1⟩
  | cons first below ih =>
    subst hRows
    obtain ⟨-, hId, hRest⟩ := hLinked
    obtain ⟨hParent, hAbove⟩ := ih hRest rfl
    refine ⟨fun _ => ?_, hAbove⟩
    cases below with
    | nil =>
      have hLink : entry.parentId = first.id := hRest.1
      rw [hLink]
      exact hId (by simp)
    | cons => exact hParent (by simp)

def settled (assigned : List FileEntry) (entry : FileEntry) : FileEntry :=
  (fixCompaction assigned entry).setVersion 3

theorem settled_keeps (assigned : List FileEntry) (entry : FileEntry) :
    (settled assigned entry).isHeader = entry.isHeader ∧ (settled assigned entry).id = entry.id ∧
      (settled assigned entry).parentId = entry.parentId := by
  cases entry with
  | compaction payload base =>
    unfold settled fixCompaction
    dsimp only
    split <;> exact ⟨rfl, rfl, rfl⟩
  | _ => exact ⟨rfl, rfl, rfl⟩

theorem migrated_eq (sources : Nat → IdSource) (hVersion : sessionVersion entries < 2) :
    (migrateToCurrentVersion sources entries).1 =
      (assignIds sources [] none entries).map (settled (assignIds sources [] none entries)) := by
  rw [migrateToCurrentVersion, currentSessionVersion]
  dsimp only
  rw [if_neg (by omega), if_pos hVersion, if_pos (by omega), migrateV2ToV3, migrateV1ToV2, List.map_map]
  rfl

theorem threadRows_settled (assigned rows : List FileEntry) :
    threadRows (rows.map (settled assigned)) = (threadRows rows).map (settled assigned) := by
  rw [threadRows, List.filter_map, threadRows]
  refine congrArg _ (List.filter_congr fun entry _ => ?_)
  rw [Function.comp_apply, (settled_keeps assigned entry).1]

theorem linked_settled (assigned : List FileEntry) :
    Linked prevId (rows.map (settled assigned)) ↔ Linked prevId rows := by
  induction rows generalizing prevId with
  | nil => exact Iff.rfl
  | cons entry rows ih =>
    obtain ⟨-, hId, hParent⟩ := settled_keeps assigned entry
    rw [List.map_cons, Linked, Linked, hId, hParent, ih, Ne, List.map_eq_nil_iff]

theorem filterMap_settled (assigned rows : List FileEntry) :
    (rows.map (settled assigned)).filterMap FileEntry.id = rows.filterMap FileEntry.id := by
  rw [List.filterMap_map]
  exact List.filterMap_congr fun entry _ => (settled_keeps assigned entry).2.1

theorem threadRows_length (sources : Nat → IdSource) (entries : List FileEntry) (ids : List String)
    (prevId : Option String) :
    (threadRows (assignIds sources ids prevId entries)).length = (threadRows entries).length := by
  have hCount : ∀ rows : List FileEntry, (threadRows rows).length = (rows.map FileEntry.isHeader).count false := by
    intro rows
    induction rows with
    | nil => rfl
    | cons entry rows ih => cases hHeader : entry.isHeader <;> simp_all [threadRows]
  rw [hCount, hCount, assignIds_isHeader]

theorem firstKept_settled {assigned : List FileEntry} (hIds : ∀ entry ∈ assigned, entry.id.isSome)
    {payload : CompactionEntry} {base : EntryBase} (hMem : .compaction payload base ∈ assigned.map (settled assigned))
    {index : Nat} (hIndex : firstKeptEntryIndex payload = some index)
    (hEntry : (assigned.map (settled assigned))[index]? = some entry) : entry.id = some payload.firstKeptEntryId := by
  obtain ⟨before, hBefore, hSettled⟩ := List.mem_map.mp hMem
  rw [List.getElem?_map] at hEntry
  obtain ⟨target, hTarget, rfl⟩ := Option.map_eq_some_iff.mp hEntry
  obtain ⟨id, hId⟩ := Option.isSome_iff_exists.mp (hIds target (List.mem_of_getElem? hTarget))
  rw [(settled_keeps assigned target).2.1, hId]
  cases before with
  | compaction old oldBase =>
    have hOld : firstKeptEntryIndex old = some index := by
      rw [← hIndex]
      unfold settled fixCompaction at hSettled
      dsimp only at hSettled
      split at hSettled <;> cases hSettled <;> rfl
    unfold settled fixCompaction at hSettled
    rw [firstKeptEntryIndex] at hOld
    dsimp only at hSettled
    rw [hOld, Option.bind_some, hTarget, Option.bind_some, hId] at hSettled
    cases hSettled
    rfl
  | _ => cases hSettled

theorem unknown_stays (sources : Nat → IdSource) (hBare : ∀ entry ∈ entries, Bare entry)
    (hMem : entry ∈ threadRows entries) (hTest : isUnknown entry = true) :
    entry ∈ threadRows (assignIds sources [] none entries) ∧ entry.id = none ∧ entry.parentId = none := by
  obtain ⟨hIn, hRow⟩ := List.mem_filter.mp hMem
  cases entry with
  | unknown rest => exact ⟨List.mem_filter.mpr ⟨unknown_mem_assignIds sources rest entries hIn, hRow⟩, hBare _ hIn rfl⟩
  | _ => cases hTest

theorem alone_of_linked (hLinked : Linked none rows) (hMem : entry ∈ rows) (hId : entry.id = none)
    (hParent : entry.parentId = none) : rows = [entry] := by
  obtain ⟨below, above, rfl⟩ := List.append_of_mem hMem
  obtain ⟨hBelow, hAbove⟩ := linked_between hLinked rfl
  rw [hId] at hAbove
  rw [hParent] at hBelow
  have hNoneBelow : below = [] := by_contra fun hNe => absurd (hBelow hNe) nofun
  have hNoneAbove : above = [] := by_contra fun hNe => absurd (hAbove hNe) nofun
  rw [hNoneBelow, hNoneAbove]
  rfl

theorem migrated_iff {sources : Nat → IdSource} {entries : List FileEntry} (hVersion : sessionVersion entries < 2)
    (hBare : ∀ entry ∈ entries, Bare entry) (hUuids : Uuids sources entries.length) :
    Migrated (migrateToCurrentVersion sources entries).1 ↔
      (∀ entry ∈ threadRows entries, isUnknown entry = false) ∨ (threadRows entries).length ≤ 1 := by
  rw [migrated_eq sources hVersion]
  have hLength := threadRows_length sources entries [] none
  constructor
  · intro hMigrated
    refine or_iff_not_imp_left.mpr fun hSome => ?_
    obtain ⟨entry, hMem, hTest⟩ : ∃ entry ∈ threadRows entries, isUnknown entry = true := by
      simpa using hSome
    obtain ⟨hIn, hId, hParent⟩ := unknown_stays sources hBare hMem hTest
    have hLinked := hMigrated.linked
    rw [threadRows_settled, linked_settled] at hLinked
    rw [← hLength, alone_of_linked hLinked hIn hId hParent]
    exact Nat.le_refl 1
  · intro hWhole
    by_cases hKnown : ∀ entry ∈ threadRows entries, isUnknown entry = false
    · obtain ⟨hLinked, hIds, hNodup⟩ := @assignIds_linked sources entries.length hUuids entries [] none nofun
        (by simp) hKnown
      have hSome : ∀ entry ∈ assignIds sources [] none entries, entry.id.isSome := by
        intro entry hMem
        cases hHeader : entry.isHeader with
        | true =>
          cases entry with
          | header h => rfl
          | _ => cases hHeader
        | false =>
          obtain ⟨id, hId, -⟩ := hIds entry (List.mem_filter.mpr ⟨hMem, by rw [hHeader]; rfl⟩)
          rw [hId]
          rfl
      refine ⟨?_, ?_, fun payload base hMem index hIndex entry hEntry => firstKept_settled hSome hMem hIndex hEntry⟩
      · rwa [threadRows_settled, linked_settled]
      · rwa [threadRows_settled, filterMap_settled]
    · obtain ⟨entry, hMem, hTest⟩ : ∃ entry ∈ threadRows entries, isUnknown entry = true := by
        simpa using hKnown
      obtain ⟨hIn, hId, hParent⟩ := unknown_stays sources hBare hMem hTest
      have hOnly : threadRows (assignIds sources [] none entries) = [entry] := by
        obtain ⟨only, hOnly⟩ := List.length_eq_one_iff.mp
          (Nat.le_antisymm (hLength.le.trans (hWhole.resolve_left hKnown)) (List.length_pos_of_mem hIn))
        rw [hOnly] at hIn ⊢
        rw [List.mem_singleton.mp hIn]
      refine ⟨?_, ?_, fun payload base hCompaction => ?_⟩
      · rw [threadRows_settled, linked_settled, hOnly]
        exact ⟨hParent, fun hNe => absurd rfl hNe, trivial⟩
      · rw [threadRows_settled, filterMap_settled, hOnly, List.filterMap_cons_none hId]
        exact List.nodup_nil
      · have hRow : FileEntry.compaction payload base ∈
            threadRows ((assignIds sources [] none entries).map (settled (assignIds sources [] none entries))) :=
          List.mem_filter.mpr ⟨hCompaction, rfl⟩
        rw [threadRows_settled, hOnly, List.map_singleton] at hRow
        cases entry with
        | unknown rest => exact absurd (List.mem_singleton.mp hRow) nofun
        | _ => cases hTest

def letterSource (n : Nat) : IdSource :=
  ⟨fun _ => String.ofList (Char.ofNat (97 + n) :: List.replicate 7 'a'),
    String.ofList (Char.ofNat (97 + n) :: List.replicate 35 'a')⟩

theorem letterSource_uuids : Uuids letterSource 4 := by
  refine ⟨fun n k => ?_, fun n => ?_, by decide⟩
  · rw [letterSource, String.length_ofList]
    rfl
  · rw [letterSource, String.length_ofList]
    rfl

def versionOneRows (middle : List FileEntry) : List FileEntry :=
  FileEntry.header ⟨none, "s", "", "/w", none, none, none⟩ ::
    .custom ⟨"x", none⟩ ⟨none, none, none⟩ :: middle ++ [.custom ⟨"y", none⟩ ⟨none, none, none⟩]

theorem versionOneRows_bare {middle : List FileEntry} (hMiddle : ∀ entry ∈ middle, Bare entry) :
    ∀ entry ∈ versionOneRows middle, Bare entry := by
  intro entry hMem
  rcases List.mem_cons.mp hMem with rfl | hMem
  · exact fun hRow => nomatch hRow
  rcases List.mem_append.mp hMem with hMem | hMem
  · rcases List.mem_cons.mp hMem with rfl | hMem
    · exact fun _ => ⟨rfl, rfl⟩
    · exact hMiddle entry hMem
  · cases List.mem_singleton.mp hMem
    exact fun _ => ⟨rfl, rfl⟩

theorem known_rows_migrate :
    Migrated (migrateToCurrentVersion letterSource (versionOneRows [.custom ⟨"z", none⟩ ⟨none, none, none⟩])).1 :=
  (migrated_iff (by decide) (versionOneRows_bare fun entry hMem => by
    cases List.mem_singleton.mp hMem
    exact fun _ => ⟨rfl, rfl⟩) letterSource_uuids).mpr (Or.inl (by decide))

theorem unknown_row_splits :
    ¬ ∀ (sources : Nat → IdSource) (entries : List FileEntry), sessionVersion entries < 2 →
      (∀ entry ∈ entries, Bare entry) → Uuids sources entries.length →
      Migrated (migrateToCurrentVersion sources entries).1 := by
  intro hMigrates
  have hBare : ∀ entry ∈ versionOneRows [.unknown []], Bare entry := versionOneRows_bare fun entry hMem => by
    cases List.mem_singleton.mp hMem
    exact fun _ => ⟨rfl, rfl⟩
  have hLinked := (hMigrates letterSource (versionOneRows [.unknown []]) (by decide) hBare letterSource_uuids).linked
  rw [migrated_eq letterSource (by decide), threadRows_settled, linked_settled] at hLinked
  have hMem : FileEntry.unknown [] ∈ threadRows (versionOneRows [.unknown []]) := by decide
  obtain ⟨hIn, hId, hParent⟩ := unknown_stays letterSource hBare hMem rfl
  have hAlone := congrArg List.length (alone_of_linked hLinked hIn hId hParent)
  rw [threadRows_length] at hAlone
  exact absurd hAlone (by decide)

end PrimeAgent
