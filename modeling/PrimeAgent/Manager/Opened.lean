import PrimeAgent.Lib.Pieces
import PrimeAgent.Manager.IndexInvariant
import PrimeAgent.Manager.Rows

/-! # Opening a damaged file

A file that can be read after the repair keeps every row, and one that cannot is replaced by a new session.
-/
namespace PrimeAgent

/-- What is relied on of JSON texts: the whitespace around an object does not matter, and neither a blank text nor one
that starts with a zero is a value. -/
structure Serde.Grammar (serde : Serde) : Prop where
  inner : ∀ text text' members, Inner text text' → serde.value text = some (.object members) →
    serde.value text' = some (.object members)
  shown : ∀ text value, serde.value text = some value → ¬ Blank text
  start : ∀ text, serde.value (Char.ofNat 0 :: text) = none

def fileLines (file : Bytes) : List Bytes :=
  (file.splitOn newline).dropLast

def objectOf (serde : Serde) (line : Bytes) : Option JsonMap :=
  match (Utf8.decode line).bind serde.value with
  | some (.object members) => some members
  | _ => none

variable {line : Bytes} {members : JsonMap} {serde : Serde} {content text : Text}

theorem objectOf_eq_some_iff : objectOf serde line = some members ↔
    ∃ text, line = Utf8.encode text ∧ serde.value text = some (.object members) := by
  unfold objectOf
  constructor
  · intro hObject
    split at hObject
    next found hFound =>
      obtain rfl := Option.some.inj hObject
      obtain ⟨text, hText, hValue⟩ := Option.bind_eq_some_iff.mp hFound
      exact ⟨text, Utf8.decode_eq_some_iff.mp hText, hValue⟩
    next => cases hObject
  · rintro ⟨text, rfl, hValue⟩
    rw [Utf8.decode_encode, Option.bind_some, hValue]

/-! ## Lines and bytes -/

theorem splitOn_prepend (hLine : newline ∉ line) (rest : Bytes) :
    (line ++ rest).splitOn newline = (rest.splitOn newline).modifyHead (line ++ ·) := by
  induction line with
  | nil =>
    obtain ⟨first, others, hSplit⟩ := List.exists_cons_of_ne_nil (List.splitOn_ne_nil newline rest)
    rw [List.nil_append, hSplit]
    rfl
  | cons b line ih =>
    obtain ⟨hHead, hRest⟩ := not_or.mp (List.mem_cons.not.mp hLine)
    obtain ⟨first, others, hSplit⟩ := List.exists_cons_of_ne_nil (List.splitOn_ne_nil newline rest)
    rw [List.cons_append, List.splitOn_cons_eq_if_modifyHead, if_neg (by simpa using fun h => hHead h.symm), ih hRest,
      hSplit]
    rfl

theorem newline_mem_encodeChar {c : Char} : newline ∈ String.utf8EncodeChar c ↔ c = '\n' := by
  rw [Utf8.mem_encodeChar_ascii (by decide)]
  constructor
  · exact fun hSame => Char.toNat_inj.mp hSame
  · rintro rfl
    rfl

theorem encode_splitOn (text : Text) :
    (Utf8.encode text).splitOn newline = (text.splitOn '\n').map Utf8.encode := by
  induction text with
  | nil => rfl
  | cons c text ih =>
    rw [Utf8.encode_cons, splitOn_cons]
    by_cases hNewline : c = '\n'
    · subst hNewline
      have hByte : String.utf8EncodeChar '\n' = [newline] := by decide
      rw [if_pos rfl, hByte, List.singleton_append, List.splitOn_cons_eq_if_modifyHead, if_pos (by simp), ih]
      rfl
    · rw [if_neg hNewline, splitOn_prepend (fun hMem => hNewline (newline_mem_encodeChar.mp hMem)), ih]
      obtain ⟨line, rest, hSplit⟩ := exists_splitOn text
      rw [hSplit]
      rfl

/-! ## The scan -/

variable {serde : Serde}

theorem object_dropWhile (hGrammar : serde.Grammar) (hObject : objectOf serde line = some members) :
    line.dropWhile (· == 0) = line := by
  obtain ⟨text, rfl, hValue⟩ := objectOf_eq_some_iff.mp hObject
  cases text with
  | nil => exact absurd blank_nil (hGrammar.shown _ _ hValue)
  | cons c text =>
    obtain ⟨b, bytes, hBytes⟩ := List.exists_cons_of_ne_nil (@String.utf8EncodeChar_ne_nil c)
    rw [Utf8.encode_cons, hBytes, List.cons_append, List.dropWhile_cons_of_neg]
    intro hZero
    have hMem : (0 : UInt8) ∈ String.utf8EncodeChar c := by
      rw [hBytes, ← beq_iff_eq.mp hZero]
      exact List.mem_cons_self
    rw [Utf8.mem_encodeChar_ascii (by decide)] at hMem
    have hChar : c = Char.ofNat 0 := Char.toNat_inj.mp hMem
    rw [hChar, hGrammar.start] at hValue
    cases hValue

theorem object_parses (hObject : objectOf serde line = some members) :
    parsesAsJson serde line = true := by
  obtain ⟨text, rfl, hValue⟩ := objectOf_eq_some_iff.mp hObject
  unfold parsesAsJson
  rw [Utf8.decode_encode, Option.bind_some, hValue]
  rfl

theorem object_ne_nil (hGrammar : serde.Grammar) (hObject : objectOf serde line = some members) : line ≠ [] := by
  rintro rfl
  obtain ⟨text, hText, hValue⟩ := objectOf_eq_some_iff.mp hObject
  have hNil : text = [] := Utf8.encode_injective (by rw [← hText]; rfl)
  rw [hNil] at hValue
  exact hGrammar.shown _ _ hValue blank_nil

theorem scanLine_object (hGrammar : serde.Grammar) (hObject : objectOf serde line = some members)
    (terminated final : Bool) :
    (scanLine serde line terminated final).1 = some line := by
  unfold scanLine
  rw [object_dropWhile hGrammar hObject]
  simp only [object_parses hObject, object_ne_nil hGrammar hObject, List.isEmpty_iff, lt_self_iff_false, if_false,
    not_true_eq_false, and_false, Bool.and_true, not_false_eq_true]
  split
  next => simp [object_ne_nil hGrammar hObject]
  next => rfl

theorem scanLine_eq_some {piece kept : Bytes} {terminated final : Bool}
    (hKept : (scanLine serde piece terminated final).1 = some kept) : kept = piece.dropWhile (· == 0) := by
  unfold scanLine at hKept
  simp only at hKept
  split at hKept
  · split at hKept
    · exact (Option.some.inj hKept).symm
    · cases hKept
  · split at hKept
    · split at hKept
      · exact (Option.some.inj hKept).symm
      · cases hKept
    · split at hKept
      · cases hKept
      · exact (Option.some.inj hKept).symm

theorem scanLines_object (hGrammar : serde.Grammar) (pieces : List Bytes) (hMem : line ∈ pieces.dropLast)
    (hObject : objectOf serde line = some members) :
    line ∈ (scanLines serde pieces).1 := by
  fun_induction scanLines serde pieces with
  | case1 | case2 piece | case3 piece => cases hMem
  | case4 piece next rest scanned others ih =>
    rw [List.dropLast_cons_cons] at hMem
    obtain rfl | hLater := List.mem_cons.mp hMem
    · rw [scanLine_object hGrammar hObject]
      exact List.mem_append_left _ List.mem_cons_self
    · exact List.mem_append_right _ (ih hLater)

theorem scanLines_first (hGrammar : serde.Grammar) (hObject : objectOf serde line = some members) (rest : List Bytes) :
    ∃ more, (scanLines serde (line :: rest)).1 = line :: more := by
  cases rest with
  | nil =>
    refine ⟨[], ?_⟩
    have hFull : line.isEmpty = false := by simpa using object_ne_nil hGrammar hObject
    rw [scanLines, hFull]
    simp only [Bool.false_eq_true, if_false, scanLine_object hGrammar hObject, Option.toList_some]
  | cons next rest =>
    refine ⟨(scanLines serde (next :: rest)).1, ?_⟩
    rw [scanLines]
    simp only [scanLine_object hGrammar hObject, Option.toList_some, List.singleton_append]

theorem scanLines_notMem {pieces : List Bytes} (hPieces : ∀ piece ∈ pieces, newline ∉ piece) :
    ∀ kept ∈ (scanLines serde pieces).1, newline ∉ kept := by
  have hDrop : ∀ {piece kept : Bytes} {terminated final : Bool}, newline ∉ piece →
      kept ∈ (scanLine serde piece terminated final).1.toList → newline ∉ kept := by
    intro piece kept terminated final hPiece hKept hMem
    rw [scanLine_eq_some (Option.mem_toList.mp hKept)] at hMem
    exact hPiece ((List.dropWhile_sublist _).subset hMem)
  fun_induction scanLines serde pieces with
  | case1 => simp
  | case2 piece => simp
  | case3 piece => exact fun kept hKept => hDrop (hPieces _ List.mem_cons_self) hKept
  | case4 piece next rest scanned others ih =>
    intro kept hKept
    obtain hHere | hLater := List.mem_append.mp hKept
    · exact hDrop (hPieces _ List.mem_cons_self) hHere
    · exact ih (fun other hOther => hPieces other (List.mem_cons_of_mem _ hOther)) kept hLater

/-! ## The text that is read -/

theorem repairedContent_splitOn {kept : List Bytes} (hKept : ∀ line ∈ kept, newline ∉ line) {text : Text}
    (hMem : line ∈ kept) (hText : line = Utf8.encode text) (hShown : text ≠ []) :
    (repairedContent kept).splitOn '\n' = kept.map Utf8.lossy ++ [[]] := by
  have hLines : ∀ line ∈ kept.map Utf8.lossy, '\n' ∉ line := by
    intro other hOther hNewline
    obtain ⟨bytes, hBytes, rfl⟩ := List.mem_map.mp hOther
    exact hKept bytes hBytes (Utf8.mem_lossy_ascii (by decide) hNewline)
  have hSome : kept.map Utf8.lossy ≠ [] := by
    intro hNil
    rw [List.map_eq_nil_iff.mp hNil] at hMem
    cases hMem
  have hFull : (List.intercalate ['\n'] (kept.map Utf8.lossy)).isEmpty = false := by
    rw [List.isEmpty_eq_false_iff]
    intro hNil
    have hSplit := List.splitOn_intercalate '\n' hLines hSome
    have hHere : Utf8.lossy line ∈ (List.intercalate ['\n'] (kept.map Utf8.lossy)).splitOn '\n' := by
      rw [hSplit]
      exact List.mem_map_of_mem hMem
    rw [hNil, hText, Utf8.lossy_encode] at hHere
    exact hShown (by simpa using hHere)
  unfold repairedContent
  simp only [hFull, Bool.false_eq_true, if_false]
  rw [intercalate_newline hSome]
  have hSplit := @LineLog.splitOn_block (kept.map Utf8.lossy) [] hLines (by simp)
  rwa [List.append_nil] at hSplit

structure Salvaged (serde : Serde) (file : Bytes) (content : Text) : Prop where
  first : ∀ line rest members, file.splitOn newline = line :: rest → objectOf serde line = some members →
    ∃ text others, line = Utf8.encode text ∧ content.splitOn '\n' = text :: others
  lines : ∀ line ∈ fileLines file, ∀ members, objectOf serde line = some members →
    ∃ text ∈ (content.splitOn '\n').dropLast, line = Utf8.encode text

theorem salvaged_self (content : Text) : Salvaged serde (Utf8.encode content) content where
  first := by
    intro line rest members hSplit _
    rw [encode_splitOn] at hSplit
    obtain ⟨text, others, hLines, hText, -⟩ := List.map_eq_cons_iff.mp hSplit
    exact ⟨text, others, hText.symm, hLines⟩
  lines := by
    intro line hMem members _
    rw [fileLines, encode_splitOn, ← List.map_dropLast] at hMem
    obtain ⟨text, hText, rfl⟩ := List.mem_map.mp hMem
    exact ⟨text, hText, rfl⟩

theorem salvaged_repaired (hGrammar : serde.Grammar) {file : Bytes} {rest : List Bytes}
    (hFirst : file.splitOn newline = line :: rest) (hObject : objectOf serde line = some members) :
    Salvaged serde file (repairedContent (scanLines serde (file.splitOn newline)).1) := by
  obtain ⟨text, hText, hValue⟩ := objectOf_eq_some_iff.mp hObject
  have hShown : text ≠ [] := by
    rintro rfl
    exact hGrammar.shown _ _ hValue blank_nil
  have hKept := @scanLines_notMem serde _ (@Pieces.notMem_of_mem_splitOn _ _ newline file)
  obtain ⟨more, hMore⟩ := scanLines_first hGrammar hObject rest
  have hSplit : (repairedContent (scanLines serde (file.splitOn newline)).1).splitOn '\n' =
      (scanLines serde (file.splitOn newline)).1.map Utf8.lossy ++ [[]] := by
    refine repairedContent_splitOn hKept ?_ hText hShown
    rw [hFirst, hMore]
    exact List.mem_cons_self
  constructor
  · intro other others members' hOther _
    rw [hFirst] at hOther
    obtain ⟨rfl, -⟩ := List.cons.inj hOther
    refine ⟨text, more.map Utf8.lossy ++ [[]], hText, ?_⟩
    rw [hSplit, hFirst, hMore, List.map_cons, List.cons_append, hText, Utf8.lossy_encode]
  · intro other hMem members' hOther
    obtain ⟨text', hText', -⟩ := objectOf_eq_some_iff.mp hOther
    refine ⟨text', ?_, hText'⟩
    rw [hSplit, List.dropLast_concat]
    refine List.mem_map.mpr ⟨other, scanLines_object hGrammar _ hMem hOther, ?_⟩
    rw [hText', Utf8.lossy_encode]

/-! ## The rows of the text -/

theorem forall₂_mem {α β : Type} {R : α → β → Prop} {l : List α} {l' : List β} (hRel : List.Forall₂ R l l') :
    ∀ a ∈ l, ∃ b ∈ l', R a b := by
  induction hRel with
  | nil => simp
  | cons hHead _ ih =>
    rintro a (_ | ⟨_, hMem⟩)
    · exact ⟨_, List.mem_cons_self, hHead⟩
    · obtain ⟨b, hLater, hHere⟩ := ih a hMem
      exact ⟨b, List.mem_cons_of_mem _ hLater, hHere⟩

theorem decode_inner (hGrammar : serde.Grammar) {text text' : Text} (hInner : Inner text text')
    (hValue : serde.value text = some (.object members)) :
    (if (trim text').isEmpty then none else serde.entry text') = FileEntry.ofValue (.object members) := by
  have hSame := hGrammar.inner _ _ _ hInner hValue
  have hFull : (trim text').isEmpty = false := by
    rw [List.isEmpty_eq_false_iff]
    intro hNil
    have hBlank : ¬ Blank text' := hGrammar.shown _ _ hSame
    have hStart := not_blank_trimStart hBlank
    obtain ⟨c, hMem, hSpace⟩ : ∃ c ∈ trimStart text', isWhitespace c = false := by
      simpa [Blank] using hStart
    have hAll := List.rdropWhile_eq_nil_iff.mp hNil c hMem
    rw [hSpace] at hAll
    cases hAll
  rw [hFull]
  simp only [Bool.false_eq_true, if_false, Serde.entry, hSame, Option.bind_some]

theorem mem_decodeLines (hGrammar : serde.Grammar) (hMem : text ∈ content.splitOn '\n')
    (hValue : serde.value text = some (.object members)) :
    ∃ row ∈ decodeLines serde content, FileEntry.ofValue (.object members) = some row := by
  obtain ⟨blanks, kept, blanks', hSplit, hBlank, hKept⟩ := lines_trim content
  have hHere : text ∈ kept := by
    rw [hSplit, List.append_assoc] at hMem
    have hShown := hGrammar.shown _ _ hValue
    rcases List.mem_append.mp hMem with hBefore | hRest
    · exact absurd (hBlank text (List.mem_append_left _ hBefore)) hShown
    · rcases List.mem_append.mp hRest with hKeep | hAfter
      · exact hKeep
      · exact absurd (hBlank text (List.mem_append_right _ hAfter)) hShown
  obtain ⟨text', hMem', hInner⟩ := forall₂_mem hKept text hHere
  refine ⟨_, List.mem_filterMap.mpr ⟨text', hMem', ?_⟩, rfl⟩
  exact decode_inner hGrammar hInner hValue

theorem decodeLines_first (hGrammar : serde.Grammar) {rest : List Text} (hSplit : content.splitOn '\n' = text :: rest)
    (hValue : serde.value text = some (.object members)) :
    (decodeLines serde content).head? = FileEntry.ofValue (.object members) := by
  have hShown := hGrammar.shown _ _ hValue
  obtain ⟨blanks, kept, blanks', hAll, hBlank, hKept⟩ := lines_trim content
  rw [hSplit] at hAll
  generalize hLines : lines (trim content) = found at hKept
  cases blanks with
  | cons blank blanks =>
    obtain ⟨rfl, -⟩ := List.cons.inj hAll
    exact absurd (hBlank _ List.mem_cons_self) hShown
  | nil =>
    cases hKept with
    | nil =>
      rw [List.nil_append, List.nil_append] at hAll
      rw [← hAll] at hBlank
      exact absurd (hBlank text List.mem_cons_self) hShown
    | @cons line line' kept others hInner _ =>
      obtain ⟨rfl, -⟩ := List.cons.inj hAll
      have hRow := decode_inner hGrammar hInner hValue
      rw [decodeLines, hLines, List.filterMap_cons, hRow]
      rfl

/-! ## What is loaded -/

def LineKept (serde : Serde) (current : Bool) (w : World) (path : Path) (line : Bytes) (members : JsonMap) : Prop :=
  ∃ row ∈ FileEntry.ofValue (.object members), ∃ loaded ∈ w.manager.fileEntries,
    loaded.lasting current = row.lasting current ∧
      ∃ file, w.disk.get path = some file ∧ (line ∈ fileLines file ∨
        ∃ before after, file = before ++ utf8 (writeLine serde loaded) ++ after)

section Open

variable {env : Env} {disk : Disk} {cwd sessionDir path : Path}

def repairedDisk (serde : Serde) (env : Env) (disk : Disk) (path : Path) : Disk :=
  repairJsonlDamage serde env.canRepair disk path

theorem readEntries_eq (serde : Serde) (hFile : disk.contains path = true) :
    World.readEntries serde env ⟨World.blankManager cwd sessionDir true, disk⟩ path none =
      (repairedDisk serde env disk path, match readToString (repairedDisk serde env disk path) path with
        | none => []
        | some content => finalizeLoadedEntries (parseSessionEntries serde content)) := by
  unfold World.readEntries loadEntriesFromFile
  rw [if_neg (by simp [hFile])]
  show (match readToString (repairedDisk serde env disk path) path with
    | none => (repairedDisk serde env disk path, [])
    | some content => (repairedDisk serde env disk path, _)) = _
  cases readToString (repairedDisk serde env disk path) path with
  | none => rfl
  | some content => rfl

theorem newDefaultSession_header (env : Env) (w : World) :
    ∃ header n, (w.newDefaultSession env).manager.fileEntries = [.header header] ∧ header.id = env.sessionIds n := by
  have hDraw : ∃ n, createUniqueSessionId env w.disk w.manager.sessionDir = env.sessionIds n := by
    unfold createUniqueSessionId
    cases hFind : ((List.range 100).map fun n => env.sessionIds (n + 1)).find? fun id =>
        !w.disk.contains (getSessionFilePath w.manager.sessionDir id) with
    | none => exact ⟨101, rfl⟩
    | some id =>
      obtain ⟨n, -, hId⟩ := List.mem_map.mp (List.mem_of_find?_eq_some hFind)
      exact ⟨n + 1, hId.symm⟩
  unfold World.newDefaultSession World.newSession NewSessionOptions.default
  simp only [Option.any_none, Bool.false_eq_true, and_false, if_false, Option.getD_some, Option.getD_none]
  split
  next =>
    obtain ⟨n, hId⟩ := hDraw
    exact ⟨_, n, rfl, hId⟩
  next => exact ⟨_, 0, rfl, rfl⟩

theorem setSessionFile_eq {w : World} {read : Disk} {rows : List FileEntry} (hFile : w.disk.contains path = true)
    (hRead : World.readEntries serde env w path none = (read, rows)) :
    let turned := w.manager.refreshHasAssistantEntry rows
    w.setSessionFile serde env path none =
      if rows.isEmpty then
        (World.rewriteFile serde env ((World.newDefaultSession env ⟨{ turned with sessionFile := some path }, read⟩).onManager
          fun m => { m with sessionFile := some path })).setFlushed true
      else
        let loaded : World := ⟨{ turned with
          sessionFile := some path
          sessionId := (World.headerId rows).getD (env.sessionIds 0)
          fileEntries := (World.upgradeEntries env rows).1 }, read⟩
        ((if (World.upgradeEntries env rows).2 then World.rewriteFile serde env loaded
          else loaded).onManager SessionManager.buildIndex).setFlushed true := by
  have hFound : World.readEntries serde env (w.onManager fun m => { m with sessionFile := some path }) path none =
      (read, rows) := hRead
  unfold World.setSessionFile
  simp only [hFound]
  rw [show (w.onManager fun m => { m with sessionFile := some path }).disk.contains path = true from hFile, if_pos rfl]
  rfl

theorem openFile_unread (hFile : disk.contains path = true)
    (hNone : readToString (repairedDisk serde env disk path) path = none) : ∃ header n,
    (World.openFile serde env disk cwd sessionDir path).manager.fileEntries = [.header header] ∧
      header.id = env.sessionIds n := by
  have hRead := @readEntries_eq env disk cwd sessionDir path serde hFile
  rw [hNone] at hRead
  have hOpened := setSessionFile_eq hFile hRead
  obtain ⟨header, n, hRows, hId⟩ := newDefaultSession_header env
    ⟨{ (World.blankManager cwd sessionDir true).refreshHasAssistantEntry [] with sessionFile := some path },
      repairedDisk serde env disk path⟩
  refine ⟨header, n, ?_, hId⟩
  show (World.setSessionFile serde env _ path none).manager.fileEntries = _
  rw [hOpened, List.isEmpty_nil, if_pos rfl, World.setFlushed, World.rewriteFile_manager]
  exact hRows

theorem rewriteFile_get {w : World} (hPath : w.manager.sessionFile = some path) :
    (World.rewriteFile serde env w).disk.get path = w.disk.get path ∨
      (World.rewriteFile serde env w).disk.get path = some (utf8 (fileContent serde w.manager.fileEntries)) := by
  unfold World.rewriteFile World.tryRewriteFile
  rw [hPath]
  simp only
  split
  next written hWritten =>
    split at hWritten
    · obtain rfl := Except.ok.inj hWritten
      exact .inl rfl
    · split at hWritten
      · obtain rfl := Except.ok.inj hWritten
        exact .inr (KeyMap.get_insert_self ..)
      · cases hWritten
  next => exact .inl rfl

theorem openFile_read {content : Text} (hFile : disk.contains path = true)
    (hRead : readToString (repairedDisk serde env disk path) path = some content)
    (hHeader : ((parseSessionEntries serde content).head?).any (·.isHeader) = true) :
    let rows := parseSessionEntries serde content
    let w := World.openFile serde env disk cwd sessionDir path
    w.manager.fileEntries = (World.upgradeEntries env rows).1 ∧
      (w.disk.get path = (repairedDisk serde env disk path).get path ∨
        w.disk.get path = some (utf8 (fileContent serde (World.upgradeEntries env rows).1))) := by
  intro rows w
  have hFound := @readEntries_eq env disk cwd sessionDir path serde hFile
  rw [hRead] at hFound
  simp only [finalizeLoadedEntries, if_pos hHeader] at hFound
  have hSome : rows.isEmpty = false := by
    cases hRows : rows with
    | nil =>
      have hNil : parseSessionEntries serde content = [] := hRows
      rw [hNil] at hHeader
      cases hHeader
    | cons row rest => rfl
  have hOpened := setSessionFile_eq hFile hFound
  rw [show (parseSessionEntries serde content).isEmpty = false from hSome] at hOpened
  simp only [Bool.false_eq_true, if_false] at hOpened
  have hWorld : w = _ := hOpened
  rw [hWorld]
  split
  next =>
    refine ⟨?_, rewriteFile_get rfl⟩
    show (World.rewriteFile serde env _).manager.fileEntries = _
    rw [World.rewriteFile_manager]
  next => exact ⟨rfl, .inl rfl⟩

theorem repairedDisk_get {file : Bytes} (hFile : disk.get path = some file) :
    (repairedDisk serde env disk path).get path =
      if tailLooksDamaged serde file = true ∧ (scanLines serde (file.splitOn newline)).2 = true ∧ env.canRepair = true then
        some (utf8 (repairedContent (scanLines serde (file.splitOn newline)).1))
      else some file := by
  unfold repairedDisk repairJsonlDamage
  rw [hFile]
  simp only
  by_cases hTail : tailLooksDamaged serde file = true
  · rw [if_neg (by simpa using hTail)]
    by_cases hDirty : (scanLines serde (file.splitOn newline)).2 = true ∧ env.canRepair = true
    · rw [if_pos hDirty, if_pos ⟨hTail, hDirty⟩, KeyMap.get_insert_self]
    · rw [if_neg hDirty, if_neg fun h => hDirty h.2, hFile]
  · rw [if_pos (by simpa using hTail), if_neg fun h => hTail h.1, hFile]

def RowsRead (serde : Serde) (canRepair : Bool) (file : Bytes) : Prop :=
  (Utf8.decode file).isSome = true ∨
    (tailLooksDamaged serde file = true ∧ (scanLines serde (file.splitOn newline)).2 = true ∧ canRepair = true)

variable {file : Bytes} {line : Bytes} {rest : List Bytes} {members : JsonMap} {header : SessionHeader}

theorem readable_content (hGrammar : serde.Grammar) (hFile : disk.get path = some file)
    (hFirst : file.splitOn newline = line :: rest) (hObject : objectOf serde line = some members)
    (hReadable : RowsRead serde env.canRepair file) : ∃ content,
    (repairedDisk serde env disk path).get path = some (Utf8.encode content) ∧ Salvaged serde file content := by
  rw [repairedDisk_get hFile]
  by_cases hDirty : tailLooksDamaged serde file = true ∧ (scanLines serde (file.splitOn newline)).2 = true ∧
      env.canRepair = true
  · exact ⟨_, if_pos hDirty, salvaged_repaired hGrammar hFirst hObject⟩
  · obtain ⟨content, hContent⟩ := Option.isSome_iff_exists.mp (hReadable.resolve_right hDirty)
    rw [Utf8.decode_eq_some_iff] at hContent
    subst hContent
    exact ⟨content, if_neg hDirty, salvaged_self content⟩

theorem lineKept_of_readable (hGrammar : serde.Grammar) (hFile : disk.get path = some file)
    (hFirst : file.splitOn newline = line :: rest) (hObject : objectOf serde line = some members)
    (hHeader : FileEntry.ofValue (.object members) = some (.header header))
    (hReadable : RowsRead serde env.canRepair file) {other : Bytes} (hOther : other ∈ fileLines file)
    {members' : JsonMap} (hOtherObject : objectOf serde other = some members') :
    LineKept serde (decide (currentSessionVersion ≤ header.version.getD 1))
      (World.openFile serde env disk cwd sessionDir path) path other members' := by
  obtain ⟨content, hGet, hSalvaged⟩ := readable_content hGrammar hFile hFirst hObject hReadable
  have hRead : readToString (repairedDisk serde env disk path) path = some content := by
    unfold readToString
    rw [hGet, Option.bind_some, Utf8.decode_encode]
  obtain ⟨first, others, hLine, hSplit⟩ := hSalvaged.first line rest members hFirst hObject
  obtain ⟨first', hLine', hValue⟩ := objectOf_eq_some_iff.mp hObject
  obtain rfl := Utf8.encode_injective (hLine.symm.trans hLine')
  have hHead := decodeLines_first hGrammar hSplit hValue
  rw [hHeader] at hHead
  obtain ⟨more, hRows⟩ : ∃ more, decodeLines serde content = .header header :: more := by
    cases hDecoded : decodeLines serde content with
    | nil =>
      rw [hDecoded] at hHead
      cases hHead
    | cons row more =>
      rw [hDecoded] at hHead
      exact ⟨more, by rw [Option.some.inj hHead]⟩
  have hStarts : ((parseSessionEntries serde content).head?).any (·.isHeader) = true := by
    have hMap := applyUpdates_map FileEntry.isHeader FileEntry.setUsage_isHeader (decodeLines serde content)
      (attributionUpdates (decodeLines serde content))
    have hFirstRow := congrArg List.head? hMap
    rw [List.head?_map, List.head?_map, hHead] at hFirstRow
    rw [show parseSessionEntries serde content =
      applyUpdates (decodeLines serde content) (attributionUpdates (decodeLines serde content)) from rfl]
    obtain ⟨row, hRow, hIs⟩ := Option.map_eq_some_iff.mp hFirstRow
    rw [hRow]
    exact hIs
  obtain ⟨hLoaded, hDisk⟩ := @openFile_read serde env disk cwd sessionDir path content (by
    rw [KeyMap.contains, hFile]; rfl) hRead hStarts
  have hVersion : sessionVersion (parseSessionEntries serde content) = header.version.getD 1 := by
    unfold parseSessionEntries
    rw [sessionVersion_attributions, hRows]
    rfl
  have hLasting : (World.openFile serde env disk cwd sessionDir path).manager.fileEntries.map
      (·.lasting (decide (currentSessionVersion ≤ header.version.getD 1))) =
        (decodeLines serde content).map (·.lasting (decide (currentSessionVersion ≤ header.version.getD 1))) := by
    rw [hLoaded, ← hVersion, upgradeEntries_lasting]
    exact attributions_lasting _ _
  obtain ⟨text, hText, rfl⟩ := hSalvaged.lines other hOther members' hOtherObject
  obtain ⟨text', hSame, hTextValue⟩ := objectOf_eq_some_iff.mp hOtherObject
  obtain rfl := Utf8.encode_injective hSame
  obtain ⟨row, hRow, hOf⟩ := mem_decodeLines hGrammar (List.mem_of_mem_dropLast hText) hTextValue
  have hMem := List.mem_map_of_mem (f := (·.lasting (decide (currentSessionVersion ≤ header.version.getD 1)))) hRow
  rw [← hLasting] at hMem
  obtain ⟨loaded, hIn, hKept⟩ := List.mem_map.mp hMem
  refine ⟨row, hOf, loaded, hIn, hKept, ?_⟩
  obtain hOld | hNew := hDisk
  · refine ⟨_, hOld.trans hGet, .inl ?_⟩
    rw [fileLines, encode_splitOn, ← List.map_dropLast]
    exact List.mem_map_of_mem hText
  · refine ⟨_, hNew, .inr ?_⟩
    rw [hLoaded] at hIn
    obtain ⟨before, after, hEntries⟩ := List.append_of_mem hIn
    refine ⟨utf8 (before.flatMap (writeLine serde)), utf8 (after.flatMap (writeLine serde)), ?_⟩
    rw [fileContent_eq serde (List.ne_nil_of_mem hIn), hEntries, List.flatMap_append, List.flatMap_cons]
    simp only [utf8, Utf8.encode_append, List.append_assoc]

theorem readable_of_kept (hFile : disk.get path = some file)
    (hFirst : file.splitOn newline = line :: rest) (hObject : objectOf serde line = some members)
    (hHeader : FileEntry.ofValue (.object members) = some (.header header))
    (hFresh : ∀ n, env.sessionIds n ≠ header.id)
    (hKept : ∀ other ∈ fileLines file, ∀ members', objectOf serde other = some members' →
      LineKept serde (decide (currentSessionVersion ≤ header.version.getD 1))
        (World.openFile serde env disk cwd sessionDir path) path other members') :
    RowsRead serde env.canRepair file := by
  by_contra hUnread
  have hDecode : Utf8.decode file = none := by
    cases hText : Utf8.decode file with
    | none => rfl
    | some text => exact absurd (.inl (by rw [hText]; rfl)) hUnread
  have hNone : readToString (repairedDisk serde env disk path) path = none := by
    unfold readToString
    rw [repairedDisk_get hFile, if_neg fun hDirty => hUnread (.inr hDirty), Option.bind_some, hDecode]
  have hLine : line ∈ fileLines file := by
    unfold fileLines
    rw [hFirst]
    cases rest with
    | nil =>
      have hWhole : [newline].intercalate (file.splitOn newline) = file := List.intercalate_splitOn newline
      rw [hFirst, List.intercalate_singleton] at hWhole
      obtain ⟨text, hText, -⟩ := objectOf_eq_some_iff.mp hObject
      rw [← hWhole, hText, Utf8.decode_encode] at hDecode
      cases hDecode
    | cons next rest =>
      rw [List.dropLast_cons_cons]
      exact List.mem_cons_self
  obtain ⟨row, hRow, loaded, hIn, hSame, -⟩ := hKept line hLine members hObject
  rw [hHeader] at hRow
  obtain rfl := Option.some.inj hRow
  obtain ⟨other, n, hRows, hId⟩ := @openFile_unread serde env disk cwd sessionDir path
    (by rw [KeyMap.contains, hFile]; rfl) hNone
  rw [hRows, List.mem_singleton] at hIn
  rw [hIn] at hSame
  have hIds := congrArg FileEntry.id hSame
  exact hFresh n (hId.symm.trans (Option.some.inj hIds))

theorem openFile_keeps_iff (hGrammar : serde.Grammar) (hFile : disk.get path = some file)
    (hFirst : file.splitOn newline = line :: rest) (hObject : objectOf serde line = some members)
    (hHeader : FileEntry.ofValue (.object members) = some (.header header))
    (hFresh : ∀ n, env.sessionIds n ≠ header.id) :
    (∀ other ∈ fileLines file, ∀ members', objectOf serde other = some members' →
        LineKept serde (decide (currentSessionVersion ≤ header.version.getD 1))
          (World.openFile serde env disk cwd sessionDir path) path other members') ↔
      RowsRead serde env.canRepair file := by
  constructor
  · exact readable_of_kept hFile hFirst hObject hHeader hFresh
  · exact fun hReadable other hOther members' hOtherObject =>
      lineKept_of_readable hGrammar hFile hFirst hObject hHeader hReadable hOther hOtherObject

end Open

/-! ## Two files -/

theorem tableSerde_grammar {table : List Line} (hObjects : ∀ line ∈ table, isObjectLine line.text.toList = true) :
    (tableSerde table).Grammar := by
  have hText : ∀ text value, (tableSerde table).value text = some value → ∃ body, text = '{' :: body ++ ['}'] := by
    intro text value hValue
    obtain ⟨line, hFind, -⟩ := Option.map_eq_some_iff.mp hValue
    have hSame := List.find?_some hFind
    rw [← beq_iff_eq.mp hSame]
    exact (exists_object (hObjects line (List.mem_of_find?_eq_some hFind))).2
  have hOpen : isWhitespace '{' = false := by decide
  have hClose : isWhitespace '}' = false := by decide
  constructor
  · rintro text text' members ⟨before, after, hBefore, hAfter, rfl⟩ hValue
    obtain ⟨body, hBody⟩ := hText _ _ hValue
    have hStart : before = [] := by
      cases before with
      | nil => rfl
      | cons c before =>
        have hHead := (List.cons.inj hBody).1
        have hSpace := hBefore c List.mem_cons_self
        rw [hHead, hOpen] at hSpace
        cases hSpace
    have hEnd : after = [] := by
      rcases List.eq_nil_or_concat after with rfl | ⟨front, c, rfl⟩
      · rfl
      · rw [List.concat_eq_append] at hBody hAfter
        rw [← List.append_assoc] at hBody
        have hLast := (List.append_inj' hBody rfl).2
        have hSpace := hAfter c (by simp)
        rw [(List.cons.inj hLast).1, hClose] at hSpace
        cases hSpace
    rw [hStart, hEnd, List.nil_append, List.append_nil] at hValue
    exact hValue
  · intro text value hValue hBlank
    obtain ⟨body, rfl⟩ := hText _ _ hValue
    have hSpace := hBlank '{' List.mem_cons_self
    rw [hOpen] at hSpace
    cases hSpace
  · intro text
    cases hValue : (tableSerde table).value (Char.ofNat 0 :: text) with
    | none => rfl
    | some value =>
      obtain ⟨body, hBody⟩ := hText _ _ hValue
      exact absurd (List.cons.inj hBody).1 (by decide)

def soundFile : Bytes :=
  utf8 (LineLog.block [headerLine.text.toList, helloLine.text.toList])

def strayFile : Bytes :=
  utf8 (LineLog.block [headerLine.text.toList]) ++ [0xFF, newline] ++ utf8 (LineLog.block [helloLine.text.toList])

theorem strayFile_undecodable : Utf8.decode strayFile = none := by
  have hMem : (0xFF : UInt8) ∈ strayFile := by simp [strayFile]
  exact Utf8.decode_eq_none hMem (by decide)

theorem tail_ofParsed {file line : Bytes} (hParses : parsesAsJson serde line = true)
    (hSize : file.length ≤ repairSuspicionWindowBytes ∧ file.contains 0 = false ∧ file.getLast? = some newline)
    (hLine : file.dropLast.rtakeWhile (· != newline) = line ∧ line.length ≠ file.dropLast.length) :
    tailLooksDamaged serde file = false := by
  obtain ⟨hSmall, hZero, hLast⟩ := hSize
  obtain ⟨rfl, hShort⟩ := hLine
  simp only [tailLooksDamaged, Nat.min_eq_left hSmall, Nat.sub_self, List.drop_zero]
  split
  next => rfl
  next =>
    simp only [hZero, hLast, hShort, hParses]
    simp

theorem strayTail_ofList {header hello : List Char}
    (hParses : parsesAsJson serde (utf8 (String.ofList hello).toList) = true)
    (hSize : let file := utf8 (LineLog.block [header]) ++ [0xFF, newline] ++ utf8 (LineLog.block [hello])
      (file.length ≤ repairSuspicionWindowBytes ∧ file.contains 0 = false ∧ file.getLast? = some newline) ∧
        file.dropLast.rtakeWhile (· != newline) = utf8 hello ∧ (utf8 hello).length ≠ file.dropLast.length) :
    tailLooksDamaged serde (utf8 (LineLog.block [(String.ofList header).toList]) ++ [0xFF, newline] ++
      utf8 (LineLog.block [(String.ofList hello).toList])) = false := by
  rw [String.toList_ofList] at hParses
  rw [String.toList_ofList, String.toList_ofList]
  exact tail_ofParsed hParses hSize.1 hSize.2

theorem helloLine_parses : parsesAsJson (tableSerde namedTable) (utf8 helloLine.text.toList) = true := by
  have hMem : helloLine ∈ namedTable := by simp [namedTable]
  rw [parsesAsJson, utf8, Utf8.decode_encode, Option.bind_some, tableSerde, Option.isSome_map, List.find?_isSome]
  exact ⟨helloLine, hMem, beq_self_eq_true _⟩

set_option maxRecDepth 4000 in
theorem strayFile_tail : tailLooksDamaged (tableSerde namedTable) strayFile = false :=
  strayTail_ofList helloLine_parses (by decide +kernel)

def headerMembers : JsonMap :=
  [("type", .string "session"), ("version", .number (.posInt 3)), ("id", .string "session"),
    ("timestamp", .string "2024-01-01T00:00:00.000Z"), ("cwd", .string "/w"), ("rlmDepth", .number (.posInt 0))]

def headerOfMembers : SessionHeader :=
  ⟨some 3, "session", "2024-01-01T00:00:00.000Z", "/w", none, some 0, none⟩

theorem headerLine_object : objectOf (tableSerde namedTable) (utf8 headerLine.text.toList) = some headerMembers := by
  refine objectOf_eq_some_iff.mpr ⟨headerLine.text.toList, rfl, ?_⟩
  simp only [tableSerde, namedTable, List.find?_cons, beq_self_eq_true]
  rfl

theorem headerLine_newline : newline ∉ utf8 headerLine.text.toList := by
  intro hMem
  obtain ⟨c, hChar, hSame⟩ := (Utf8.mem_encode_ascii (by decide)).mp hMem
  have hNewline : c = '\n' := Char.toNat_inj.mp hSame
  rw [hNewline] at hChar
  exact (exists_object (namedTable_objects headerLine (by simp [namedTable]))).1 hChar

theorem headerLine_first (rest : Bytes) :
    (utf8 (LineLog.block [headerLine.text.toList]) ++ rest).splitOn newline =
      utf8 headerLine.text.toList :: rest.splitOn newline := by
  have hByte : Utf8.encode ['\n'] = [newline] := by decide
  have hBytes : utf8 (LineLog.block [headerLine.text.toList]) = utf8 headerLine.text.toList ++ [newline] := by
    rw [LineLog.block_cons, LineLog.block_nil, utf8, Utf8.encode_append, hByte]
  rw [hBytes, List.append_assoc, List.singleton_append]
  exact List.splitOn_append_cons_self_of_not_mem headerLine_newline rest

def openEnv : Env :=
  { sampleEnv with sessionIds := fun _ => "next" }

theorem openEnv_fresh (n : Nat) : openEnv.sessionIds n ≠ headerOfMembers.id := by
  show "next" ≠ "session"
  decide

def diskOf (file : Bytes) : Disk :=
  KeyMap.empty.insert "/s/session.jsonl" file

theorem soundFile_kept : RowsRead (tableSerde namedTable) openEnv.canRepair soundFile ∧
    ∀ other ∈ fileLines soundFile, ∀ members, objectOf (tableSerde namedTable) other = some members →
      LineKept (tableSerde namedTable) true
        (World.openFile (tableSerde namedTable) openEnv (diskOf soundFile) "/w" "/s" "/s/session.jsonl")
        "/s/session.jsonl" other members := by
  have hBlock : soundFile = utf8 (LineLog.block [headerLine.text.toList]) ++ utf8 (LineLog.block [helloLine.text.toList]) := by
    rw [soundFile, utf8, utf8, ← Utf8.encode_append, ← LineLog.block_append]
    rfl
  have hFirst := (congrArg (List.splitOn newline) hBlock).trans (headerLine_first _)
  have hReadable : RowsRead (tableSerde namedTable) openEnv.canRepair soundFile := by
    refine .inl ?_
    rw [soundFile, Utf8.decode_encode]
    rfl
  exact ⟨hReadable, (@openFile_keeps_iff _ openEnv (diskOf soundFile) "/w" "/s" "/s/session.jsonl" soundFile _ _
    headerMembers headerOfMembers (tableSerde_grammar namedTable_objects) (KeyMap.get_insert_self ..) hFirst
    headerLine_object rfl openEnv_fresh).mpr hReadable⟩

theorem strayFile_lost : ¬ ∀ other ∈ fileLines strayFile, ∀ members,
    objectOf (tableSerde namedTable) other = some members → LineKept (tableSerde namedTable) true
      (World.openFile (tableSerde namedTable) openEnv (diskOf strayFile) "/w" "/s" "/s/session.jsonl")
      "/s/session.jsonl" other members := by
  intro hKept
  have hFirst : strayFile.splitOn newline = utf8 headerLine.text.toList ::
      ([0xFF, newline] ++ utf8 (LineLog.block [helloLine.text.toList])).splitOn newline := by
    rw [strayFile, List.append_assoc]
    exact headerLine_first _
  have hReadable := @readable_of_kept _ openEnv (diskOf strayFile) "/w" "/s" "/s/session.jsonl" strayFile _ _
    headerMembers headerOfMembers (KeyMap.get_insert_self ..) hFirst headerLine_object rfl openEnv_fresh hKept
  obtain hDecode | ⟨hTail, -⟩ := hReadable
  · rw [strayFile_undecodable] at hDecode
    cases hDecode
  · rw [strayFile_tail] at hTail
    cases hTail

end PrimeAgent
