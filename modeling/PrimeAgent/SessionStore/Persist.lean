import PrimeAgent.SessionStore.File
import Mathlib.Logic.Relation

/-! # Rows persisted through any stores of one file -/
namespace PrimeAgent.SessionStore

open Pieces

variable {serde : StoreSerde} {path : String} {text : Text} {content : Bytes}

/-! ## The envelopes of the rows -/

structure Envelope where
  type : String
  id : String
  parentId : Option String
  timestamp : String
deriving DecidableEq

def SessionEntry.envelope (entry : SessionEntry) : Envelope :=
  ⟨entry.type, entry.id, entry.parentId, entry.timestamp⟩

def SessionFile.envelopes (file : SessionFile) : List Envelope :=
  file.entries.map SessionEntry.envelope

@[simp] theorem envelope_setUsage (aggregate : Json) (entry : SessionEntry) :
    (entry.setUsage aggregate).envelope = entry.envelope := by
  unfold SessionEntry.setUsage
  split <;> rfl

theorem envelopes_modify (entries : List SessionEntry) (row : Nat) (aggregate : Json) :
    (entries.modify row (SessionEntry.setUsage aggregate)).map SessionEntry.envelope =
      entries.map SessionEntry.envelope := by
  apply List.ext_getElem?
  intro i
  rw [List.getElem?_map, List.getElem?_map, List.getElem?_modify]
  cases entries[i]? with
  | none => rfl
  | some entry =>
    simp only [Option.map_eq_map, Option.map_some]
    split
    · rw [envelope_setUsage]
    · rfl

theorem envelopes_foldLiveAttribution (file : SessionFile) (entry : SessionEntry) :
    (file.foldLiveAttribution entry).envelopes = file.envelopes := by
  unfold SessionFile.foldLiveAttribution
  split
  · exact envelopes_modify _ _ _
  · rfl

theorem envelopes_pushIndex (file : SessionFile) (entry : SessionEntry) :
    (file.pushIndex entry).envelopes = file.envelopes ++ [entry.envelope] := by
  unfold SessionFile.pushIndex SessionFile.pushIndexInner
  simp only [SessionFile.envelopes, List.map_append, List.map_cons, List.map_nil]
  split
  · rw [← SessionFile.envelopes, envelopes_foldLiveAttribution]
    rfl
  · rfl

theorem envelopes_foldChildUsageAttributions (entries : List SessionEntry) :
    (foldChildUsageAttributions entries).map SessionEntry.envelope = entries.map SessionEntry.envelope := by
  have hFolds : ∀ (folds : List (Nat × Json)) (entries : List SessionEntry),
      (folds.foldl (fun entries fold => entries.modify fold.1 (SessionEntry.setUsage fold.2)) entries).map
        SessionEntry.envelope = entries.map SessionEntry.envelope := by
    intro folds
    induction folds with
    | nil => exact fun _ => rfl
    | cons fold folds ih =>
      intro entries
      rw [List.foldl_cons, ih, envelopes_modify]
  exact hFolds _ entries

/-! ## What an open loads -/

def loadedRow (serde : StoreSerde) (line : Text) : Option SessionEntry :=
  if isBlank line then none else serde.entry (trim line)

theorem envelopes_loadLines (lines : List Text) (file : SessionFile) :
    (lines.foldl (loadLine serde) file).envelopes =
      file.envelopes ++ (lines.filterMap (loadedRow serde)).map SessionEntry.envelope := by
  induction lines generalizing file with
  | nil => simp
  | cons line lines ih =>
    rw [List.foldl_cons, ih, List.filterMap_cons]
    unfold loadLine loadedRow
    split
    · rfl
    · split
      next entry hEntry =>
        rw [hEntry, envelopes_pushIndex]
        simp
      next hEntry => rw [hEntry]

def HasHeader (serde : StoreSerde) (content : Bytes) : Prop :=
  ∃ first others line header, pieces newline content = first :: others ∧ readLine first = some line ∧
    isBlank line = false ∧ readHeader serde line = some header

def loadedEnvelopes (serde : StoreSerde) (path : String) (content : Bytes) : Option (List Envelope) :=
  (openFile serde path content).map SessionFile.envelopes

theorem loadedEnvelopes_eq {content first : Bytes} {others : List Bytes} {line : Text} {header : SessionHeader}
    (hPieces : pieces newline content = first :: others) (hLine : readLine first = some line)
    (hSolid : isBlank line = false) (hHeader : readHeader serde line = some header) :
    loadedEnvelopes serde path content =
      (others.mapM readLine).map fun lines => (lines.filterMap (loadedRow serde)).map SessionEntry.envelope := by
  unfold loadedEnvelopes openFile
  rw [hPieces, List.mapM_cons, hLine]
  cases others.mapM readLine with
  | none => rfl
  | some lines =>
    simp only [Option.pure_def, Option.bind_eq_bind, Option.bind_some, List.dropWhile_cons, hSolid,
      Option.map_some]
    have hLoaded := @envelopes_loadLines serde lines (.empty path header)
    unfold SessionFile.envelopes at hLoaded ⊢
    simp only [Bool.false_eq_true, if_false, hHeader, Option.bind_some, Option.map_some]
    rw [envelopes_foldChildUsageAttributions, hLoaded]
    rfl

/-! ## One row more -/

def StoreSerde.Keeps (serde : StoreSerde) (row : SessionEntry) : Prop :=
  ∀ text, serde.write row = some text → '\n' ∉ text ∧ (∃ body, text = '{' :: body ++ ['}']) ∧
    ∃ fields, serde.entry text = some { row with fields }

theorem newline_notMem (hLine : '\n' ∉ text) : newline ∉ utf8 text := by
  intro hMem
  obtain ⟨c, hChar, hSame⟩ := (Utf8.mem_encode_ascii (by decide)).mp hMem
  have hNewline : c = '\n' := Char.ext (UInt32.toNat_inj.mp hSame)
  exact hLine (hNewline ▸ hChar)

theorem lineBytes_eq (text : Text) : lineBytes text = utf8 text ++ [newline] :=
  Utf8.encode_append text ['\n']

theorem pieces_line (hLine : '\n' ∉ text) : pieces newline (lineBytes text) = [lineBytes text] := by
  rw [lineBytes_eq]
  have hNone := newline_notMem hLine
  generalize utf8 text = bytes at hNone
  induction bytes with
  | nil => rfl
  | cons b bytes ih =>
    obtain ⟨hHead, hRest⟩ := not_or.mp (List.mem_cons.not.mp hNone)
    rw [List.cons_append, pieces, if_neg fun hSame => hHead hSame.symm, ih hRest]

theorem readLine_line (hObject : ∃ body, text = '{' :: body ++ ['}']) :
    readLine (lineBytes text) = some text := by
  obtain ⟨body, rfl⟩ := hObject
  unfold readLine lineBytes
  rw [Utf8.decode_encode, Option.map_some, List.getLast?_concat, if_pos rfl, List.dropLast_concat, stripCarriageReturn,
    List.getLast?_concat, if_neg (by decide)]

theorem loadedRow_line {row : SessionEntry} (hObject : ∃ body, text = '{' :: body ++ ['}']) {fields : Json}
    (hReads : serde.entry text = some { row with fields }) :
    (loadedRow serde text).map SessionEntry.envelope = some row.envelope := by
  obtain ⟨body, rfl⟩ := hObject
  have hTrim : trim ('{' :: body ++ ['}']) = '{' :: body ++ ['}'] := by
    rw [trim, List.cons_append, trimStart_of_head (by decide), ← List.cons_append, trimEnd_of_last (by decide)]
  unfold loadedRow isBlank
  rw [hTrim, hReads]
  rfl

theorem loadedEnvelopes_append {content : Bytes} {row : SessionEntry} {text : Text} (hHeader : HasHeader serde content)
    (hEnd : Terminated newline content) (hKeeps : serde.Keeps row) (hWrite : serde.write row = some text) :
    HasHeader serde (content ++ lineBytes text) ∧
      loadedEnvelopes serde path (content ++ lineBytes text) =
        (loadedEnvelopes serde path content).map (· ++ [row.envelope]) := by
  obtain ⟨hOneLine, hObject, fields, hReads⟩ := hKeeps text hWrite
  obtain ⟨first, others, line, header, hPieces, hLine, hSolid, hRead⟩ := hHeader
  have hMore : pieces newline (content ++ lineBytes text) = first :: (others ++ [lineBytes text]) := by
    rw [pieces_append hEnd, pieces_line hOneLine, hPieces, List.cons_append]
  refine ⟨⟨first, _, line, header, hMore, hLine, hSolid, hRead⟩, ?_⟩
  rw [loadedEnvelopes_eq hMore hLine hSolid hRead, loadedEnvelopes_eq hPieces hLine hSolid hRead, List.mapM_append]
  cases others.mapM readLine with
  | none => rfl
  | some lines =>
    obtain ⟨loaded, hLoaded, hSame⟩ := Option.map_eq_some_iff.mp (loadedRow_line hObject hReads)
    simp [List.mapM_cons, readLine_line hObject, hLoaded, hSame]

/-! ## Any stores of one file -/

structure Disk where
  content : Bytes
  /-- The stores that were opened from the file. -/
  stores : List SessionFile
  /-- The rows whose calls succeeded. -/
  accepted : List SessionEntry

/-- A store is opened whole or windowed, or persists a row that it is `Allowed` to. A windowed store may hold any rows
of its own. -/
inductive StoreStep (serde : StoreSerde) (path : String) (Allowed : Bytes → SessionEntry → Prop) : Disk → Disk → Prop
  | openFile {d : Disk} {file : SessionFile} (hOpen : openFile serde path d.content = some file) :
      StoreStep serde path Allowed d { d with stores := d.stores ++ [file] }
  | openWindowed {d : Disk} {file : SessionFile} (hPath : file.path = path) (hWindow : file.window.isSome) :
      StoreStep serde path Allowed d { d with stores := d.stores ++ [file] }
  | persist {d : Disk} {front back : List SessionFile} {file file' : SessionFile} {call : PersistCall}
      {result : Option String} {content : Bytes} (hStores : d.stores = front ++ file :: back)
      (hPersist : persistEntryAt serde call file (some d.content) = (result, file', some content))
      (hAllowed : Allowed d.content (call.entry file)) :
      StoreStep serde path Allowed d
        { content, stores := front ++ file' :: back
          accepted := d.accepted ++ (result.map fun _ => call.entry file).toList }

def OnNewLine (serde : StoreSerde) (content : Bytes) (row : SessionEntry) : Prop :=
  Terminated newline content ∧ serde.Keeps row

theorem persistEntryAt_cases {call : PersistCall} {file file' : SessionFile} {result : Option String}
    {disk : Option Bytes} (hPath : file.path ≠ "")
    (hPersist : persistEntryAt serde call file (some content) = (result, file', disk)) :
    (result = none ∧ file' = file ∧ disk = some content) ∨
      ∃ line, serde.write (call.entry file) = some line ∧ result = some (call.entry file).id ∧
        file' = file.pushIndex (call.entry file) ∧ disk = some (content ++ lineBytes line) := by
  unfold persistEntryAt at hPersist
  simp only [if_neg hPath, reduceCtorEq, and_false, if_false] at hPersist
  split at hPersist
  next line hWrite =>
    split at hPersist
    · cases hPersist
      exact .inr ⟨line, hWrite, rfl, rfl, rfl⟩
    · cases hPersist
      exact .inl ⟨rfl, rfl, rfl⟩
  next =>
    cases hPersist
    exact .inl ⟨rfl, rfl, rfl⟩

def SessionFile.LeafLast (file : SessionFile) : Prop :=
  file.window = none → file.leafId = file.entries.getLast?.map (·.id)

theorem leafLast_pushIndex (file : SessionFile) (entry : SessionEntry) : (file.pushIndex entry).LeafLast := by
  intro _
  unfold SessionFile.pushIndex SessionFile.pushIndexInner
  simp

theorem leafLast_loadLines (lines : List Text) {file : SessionFile} (hLeaf : file.LeafLast) :
    (lines.foldl (loadLine serde) file).LeafLast := by
  induction lines generalizing file with
  | nil => exact hLeaf
  | cons line lines ih =>
    apply ih
    unfold loadLine
    split
    · exact hLeaf
    · split
      · exact leafLast_pushIndex _ _
      · exact hLeaf

theorem last_id_of_envelopes {entries entries' : List SessionEntry}
    (hSame : entries.map SessionEntry.envelope = entries'.map SessionEntry.envelope) :
    entries.getLast?.map (·.id) = entries'.getLast?.map (·.id) := by
  have hLast := congrArg (fun envelopes => envelopes.getLast?.map Envelope.id) hSame
  simpa [List.getLast?_map, Function.comp_def, SessionEntry.envelope] using hLast

@[simp] theorem pushIndex_path (file : SessionFile) (entry : SessionEntry) : (file.pushIndex entry).path = file.path := by
  unfold SessionFile.pushIndex SessionFile.pushIndexInner SessionFile.foldLiveAttribution
  dsimp only
  split
  · split <;> rfl
  · rfl

theorem loadLine_path (lines : List Text) (file : SessionFile) :
    (lines.foldl (loadLine serde) file).path = file.path := by
  induction lines generalizing file with
  | nil => rfl
  | cons line lines ih =>
    rw [List.foldl_cons, ih]
    unfold loadLine
    split
    · rfl
    · split
      · exact pushIndex_path _ _
      · rfl

theorem openFile_store {file : SessionFile} (hOpen : openFile serde path content = some file) :
    file.path = path ∧ file.LeafLast := by
  unfold openFile at hOpen
  obtain ⟨lines, -, hOpen⟩ := Option.bind_eq_some_iff.mp hOpen
  split at hOpen
  · cases hOpen
  next first rest hLines =>
    obtain ⟨header, -, hOpen⟩ := Option.bind_eq_some_iff.mp hOpen
    cases hOpen
    refine ⟨loadLine_path rest _, fun hWhole => ?_⟩
    have hLeaf := @leafLast_loadLines serde rest (.empty path header) (fun _ => rfl) hWhole
    refine hLeaf.trans (last_id_of_envelopes ?_)
    exact (envelopes_foldChildUsageAttributions _).symm

/-- What a run keeps: the file loads what it held and each accepted row, and its stores end at their leaf. -/
structure Persisted (serde : StoreSerde) (path : String) (start d : Disk) : Prop where
  header : HasHeader serde d.content
  loaded : loadedEnvelopes serde path d.content =
    (loadedEnvelopes serde path start.content).map (· ++ d.accepted.map SessionEntry.envelope)
  stores : ∀ file ∈ d.stores, file.path = path ∧ file.LeafLast

theorem persisted_step {start d d' : Disk} (hPath : path ≠ "") (hStep : StoreStep serde path (OnNewLine serde) d d')
    (hKept : Persisted serde path start d) : Persisted serde path start d' := by
  cases hStep with
  | openFile hOpen =>
    refine ⟨hKept.header, hKept.loaded, fun file hMem => ?_⟩
    obtain hOld | hNew := List.mem_append.mp hMem
    · exact hKept.stores file hOld
    · rw [List.mem_singleton.mp hNew]
      exact openFile_store hOpen
  | openWindowed hSame hWindow =>
    refine ⟨hKept.header, hKept.loaded, fun file hMem => ?_⟩
    obtain hOld | hNew := List.mem_append.mp hMem
    · exact hKept.stores file hOld
    · rw [List.mem_singleton.mp hNew]
      exact ⟨hSame, fun hWhole => by rw [hWhole] at hWindow; cases hWindow⟩
  | @persist front back file file' call result content hStores hPersist hAllowed =>
    have hFile := hKept.stores file (by rw [hStores]; simp)
    have hOthers : ∀ other ∈ front ++ back, other.path = path ∧ other.LeafLast := by
      intro other hMem
      apply hKept.stores other
      rw [hStores]
      obtain hFront | hBack := List.mem_append.mp hMem
      · exact List.mem_append_left _ hFront
      · exact List.mem_append_right _ (List.mem_cons_of_mem _ hBack)
    have hStay : ∀ store, (store.path = path ∧ store.LeafLast) →
        ∀ other ∈ front ++ store :: back, other.path = path ∧ other.LeafLast := by
      intro store hStore other hMem
      obtain hFront | rfl | hBack := by simpa using hMem
      · exact hOthers other (List.mem_append_left _ hFront)
      · exact hStore
      · exact hOthers other (List.mem_append_right _ hBack)
    obtain ⟨rfl, rfl, hSame⟩ | ⟨line, hWrite, rfl, rfl, hMore⟩ := persistEntryAt_cases (hFile.1 ▸ hPath) hPersist
    · cases hSame
      refine ⟨hKept.header, ?_, hStay _ hFile⟩
      rw [hKept.loaded]
      simp
    · cases hMore
      obtain ⟨hHeader, hLoaded⟩ := @loadedEnvelopes_append serde path _ _ _ hKept.header hAllowed.1 hAllowed.2 hWrite
      refine ⟨hHeader, ?_, hStay _ ⟨?_, leafLast_pushIndex _ _⟩⟩
      · rw [hLoaded, hKept.loaded]
        cases loadedEnvelopes serde path start.content <;> simp
      · exact (pushIndex_path _ _).trans hFile.1

/-- In a run whose calls find the file ended by a newline, the file loads what it held and one row for each call that
succeeded, in their order; a call that fails changes nothing, and one that succeeds adds its row under the leaf. -/
theorem persistEntry_durable {start d : Disk} (hPath : path ≠ "") (hHeader : HasHeader serde start.content)
    (hStores : start.stores = []) (hAccepted : start.accepted = [])
    (hRun : Relation.ReflTransGen (StoreStep serde path (OnNewLine serde)) start d) :
    loadedEnvelopes serde path d.content =
        (loadedEnvelopes serde path start.content).map (· ++ d.accepted.map SessionEntry.envelope) ∧
      ∀ file ∈ d.stores, file.LeafLast ∧ ∀ (call : PersistCall) (result : Option String) (file' : SessionFile)
        (disk : Option Bytes), persistEntryAt serde call file (some d.content) = (result, file', disk) →
        (result = none → file' = file ∧ disk = some d.content) ∧
          ∀ id, result = some id → (call.entry file).id = id ∧ (call.entry file).parentId = file.leafId ∧
            file' = file.pushIndex (call.entry file) := by
  have hKept : Persisted serde path start d := by
    induction hRun with
    | refl =>
      refine ⟨hHeader, ?_, fun file hMem => ?_⟩
      · rw [hAccepted]
        simp
      · rw [hStores] at hMem
        cases hMem
    | tail _ hStep ih => exact persisted_step hPath hStep ih
  refine ⟨hKept.loaded, fun file hMem => ?_⟩
  obtain ⟨hSame, hLeaf⟩ := hKept.stores file hMem
  refine ⟨hLeaf, fun call result file' disk hPersist => ?_⟩
  obtain ⟨rfl, hFile, hDisk⟩ | ⟨line, -, rfl, hFile, -⟩ := persistEntryAt_cases (hSame ▸ hPath) hPersist
  · exact ⟨fun _ => ⟨hFile, hDisk⟩, fun id hId => by cases hId⟩
  · refine ⟨fun hNone => (by cases hNone), fun id hId => ?_⟩
    cases hId
    exact ⟨rfl, rfl, hFile⟩

/-! ## A torn last line -/

def storedHeader : Text :=
  "\x7b\"type\":\"session\",\"id\":\"s\",\"timestamp\":\"\",\"cwd\":\"/\"\x7d".toList

def storedRow : SessionEntry :=
  { type := "label", id := "n", parentId := none, timestamp := "", fields := .object [] }

def storedLine : Text :=
  "\x7b\"type\":\"label\",\"id\":\"n\",\"parentId\":null,\"timestamp\":\"\"\x7d".toList

def storedSerde : StoreSerde where
  value text :=
    if text = storedHeader then
      some (.object [("type", .string "session"), ("id", .string "s"), ("timestamp", .string ""), ("cwd", .string "/")])
    else none
  entry text := if text = storedLine then some storedRow else none
  write row := if row = storedRow then some storedLine else none
  writeHeader _ := storedHeader

def storedCall : PersistCall :=
  { entryType := "label", fields := .object [], timestamp := "", draw := fun _ => "n", uuid := "n", succeeds := true }

def storedDisk (torn : Text) : Disk :=
  { content := utf8 (storedHeader ++ '\n' :: torn), stores := [], accepted := [] }

def tornText : Text :=
  "\x7b\"type\":".toList

theorem storedSerde_keeps : storedSerde.Keeps storedRow := by
  intro text hWrite
  have hText : text = storedLine := by simpa [storedSerde] using hWrite.symm
  rw [hText]
  exact ⟨by decide +kernel, ⟨storedLine.tail.dropLast, by decide +kernel⟩, .object [], by decide +kernel⟩

theorem stored_run {torn : Text} {Allowed : Bytes → SessionEntry → Prop}
    (hOpens : (openFile storedSerde "p" (storedDisk torn).content).map
      (fun file => (file.path, file.leafId, file.window.isSome)) = some ("p", none, false))
    (hAllowed : Allowed (storedDisk torn).content storedRow) :
    ∃ d, Relation.ReflTransGen (StoreStep storedSerde "p" Allowed) (storedDisk torn) d ∧
      d.content = (storedDisk torn).content ++ lineBytes storedLine ∧ d.accepted = [storedRow] := by
  obtain ⟨file, hOpen, hFile⟩ := Option.map_eq_some_iff.mp hOpens
  obtain ⟨hPath, hRest⟩ := Prod.mk.inj hFile
  obtain ⟨hLeaf, hWindow⟩ := Prod.mk.inj hRest
  have hId : newEntryId file.byId (fun _ => "n") = "n" := by
    unfold newEntryId
    cases hFind : ((List.range 100).map fun _ => "n").find? fun id => !file.byId.contains id with
    | none => rfl
    | some id =>
      obtain ⟨_, -, hSame⟩ := List.mem_map.mp (List.mem_of_find?_eq_some hFind)
      exact hSame.symm
  have hEntry : storedCall.entry file = storedRow := by
    simp [PersistCall.entry, storedCall, storedRow, hWindow, hLeaf, hId]
  have hWrite : storedSerde.write storedRow = some storedLine := by simp [storedSerde]
  have hPersist : persistEntryAt storedSerde storedCall file (some (storedDisk torn).content) =
      (some "n", file.pushIndex storedRow, some ((storedDisk torn).content ++ lineBytes storedLine)) := by
    unfold persistEntryAt
    simp only [hPath, hEntry, hWrite]
    simp [storedRow, storedCall]
  have hFirst : StoreStep storedSerde "p" Allowed (storedDisk torn) { storedDisk torn with stores := [] ++ [file] } :=
    .openFile hOpen
  have hSecond := @StoreStep.persist storedSerde "p" Allowed { storedDisk torn with stores := [] ++ [file] } [] []
    _ _ _ _ _ rfl hPersist (hEntry.symm ▸ hAllowed)
  refine ⟨_, (Relation.ReflTransGen.single hFirst).tail hSecond, rfl, ?_⟩
  rw [hEntry]
  rfl

set_option maxRecDepth 8000 in
theorem storedDisk_header (torn : Text) (hTorn : torn = [] ∨ torn = tornText) :
    HasHeader storedSerde (storedDisk torn).content ∧
      (openFile storedSerde "p" (storedDisk torn).content).map
        (fun file => (file.path, file.leafId, file.window.isSome)) = some ("p", none, false) := by
  have hBoth : ∀ torn ∈ [[], tornText],
      ((pieces newline (storedDisk torn).content).head?.bind readLine).map isBlank = some false ∧
      (((pieces newline (storedDisk torn).content).head?.bind readLine).bind (readHeader storedSerde)).isSome = true ∧
      (openFile storedSerde "p" (storedDisk torn).content).map
        (fun file => (file.path, file.leafId, file.window.isSome)) = some ("p", none, false) := by
    decide +kernel
  obtain ⟨hSolid, hHeader, hOpens⟩ := hBoth torn (by simpa using hTorn)
  refine ⟨?_, hOpens⟩
  cases hPieces : pieces newline (storedDisk torn).content with
  | nil => rw [hPieces] at hSolid; cases hSolid
  | cons first others =>
    rw [hPieces] at hSolid hHeader
    obtain ⟨line, hLine, hSolid⟩ := Option.map_eq_some_iff.mp hSolid
    rw [List.head?_cons, Option.bind_some] at hLine hHeader
    rw [hLine, Option.bind_some] at hHeader
    obtain ⟨header, hHeader⟩ := Option.isSome_iff_exists.mp hHeader
    exact ⟨first, others, line, header, hPieces, hLine, hSolid, hHeader⟩

theorem persistEntry_durable_stored : ∃ d : Disk, d.accepted = [storedRow] ∧
    loadedEnvelopes storedSerde "p" d.content =
      (loadedEnvelopes storedSerde "p" (storedDisk []).content).map (· ++ d.accepted.map SessionEntry.envelope) := by
  obtain ⟨hHeader, hOpens⟩ := storedDisk_header [] (.inl rfl)
  have hEnd : Terminated newline (storedDisk []).content := .inr (by decide +kernel)
  obtain ⟨d, hRun, -, hAccepted⟩ := @stored_run [] (OnNewLine storedSerde) hOpens ⟨hEnd, storedSerde_keeps⟩
  exact ⟨d, hAccepted, (persistEntry_durable (by decide) hHeader rfl rfl hRun).1⟩

set_option maxRecDepth 8000 in
theorem persistEntry_lost : ¬∀ (serde : StoreSerde) (path : String) (start d : Disk), path ≠ "" →
    HasHeader serde start.content → start.stores = [] → start.accepted = [] →
    Relation.ReflTransGen (StoreStep serde path fun _ row => serde.Keeps row) start d →
    loadedEnvelopes serde path d.content =
      (loadedEnvelopes serde path start.content).map (· ++ d.accepted.map SessionEntry.envelope) := by
  intro hEvery
  obtain ⟨hHeader, hOpens⟩ := storedDisk_header tornText (.inr rfl)
  obtain ⟨d, hRun, hContent, hAccepted⟩ := @stored_run tornText (fun _ row => storedSerde.Keeps row) hOpens
    storedSerde_keeps
  have hLoaded := hEvery storedSerde "p" _ d (by decide) hHeader rfl rfl hRun
  rw [hContent, hAccepted] at hLoaded
  exact absurd hLoaded (by decide +kernel)

end PrimeAgent.SessionStore
