import PrimeAgent.SessionStore.Info
import Mathlib.Logic.Relation

/-! # A resumed scan equals a scan from the first byte -/
namespace PrimeAgent.SessionStore

open Pieces

variable {serde : InfoSerde} {path : String} {size : Nat} {source file : File} {cached : Option SessionScanState}

namespace SessionScanState

def restamp (generation : SessionInfoGeneration) (info : Option SessionInfo) (state : SessionScanState) :
    SessionScanState :=
  { state with generation, info }

theorem scanFromCursor_restamp (generation : SessionInfoGeneration) (info : Option SessionInfo) (ps : List Bytes)
    (state : SessionScanState) :
    (state.restamp generation info).scanFromCursor serde size ps =
      (state.scanFromCursor serde size ps).map fun ended => (ended.1.restamp generation info, ended.2) := by
  induction ps generalizing state with
  | nil => rfl
  | cons consumed rest ih =>
    simp only [scanFromCursor]
    cases Utf8.decode consumed with
    | none => rfl
    | some line =>
      simp only [Option.bind_eq_bind, Option.bind_some]
      have hOffset : (state.restamp generation info).offset = state.offset := rfl
      have hAcc : (state.restamp generation info).acc = state.acc := rfl
      rw [hOffset, hAcc]
      by_cases hTorn : ¬consumed.getLast? = some newline ∧ state.offset + consumed.length ≥ size
      · rw [if_pos hTorn, if_pos hTorn]
        rfl
      · rw [if_neg hTorn, if_neg hTorn]
        cases foldScanEntry serde state.acc (if consumed.getLast? = some newline then line.dropLast else line) with
        | none => rfl
        | some acc =>
          simp only [Option.bind_some]
          by_cases hComplete : consumed.getLast? = some newline
          · simp only [if_pos hComplete]
            exact ih { state with
              acc, offset := state.offset + consumed.length, tail := advanceTail state.tail (utf8 line.dropLast) }
          · simp only [if_neg hComplete]
            rfl

variable {ps : List Bytes} {ended : SessionScanState × Text}

theorem scanFromCursor_append (hEnded : ∀ piece ∈ ps, piece.getLast? = some newline) (qs : List Bytes)
    (state : SessionScanState) :
    state.scanFromCursor serde size (ps ++ qs) =
      (state.scanFromCursor serde size ps).bind fun ended => ended.1.scanFromCursor serde size qs := by
  induction ps generalizing state with
  | nil => rfl
  | cons consumed rest ih =>
    have hComplete := hEnded consumed List.mem_cons_self
    have hRest := ih fun piece hMem => hEnded piece (List.mem_cons_of_mem _ hMem)
    simp only [List.cons_append, scanFromCursor, hComplete]
    cases Utf8.decode consumed with
    | none => rfl
    | some line =>
      simp only [Option.bind_eq_bind, Option.bind_some, not_true_eq_false, false_and, if_false, if_true]
      cases foldScanEntry serde state.acc line.dropLast with
      | none => rfl
      | some acc => exact hRest _

theorem scanFromCursor_size (hEnded : ∀ piece ∈ ps, piece.getLast? = some newline) (size' : Nat)
    (state : SessionScanState) : state.scanFromCursor serde size ps = state.scanFromCursor serde size' ps := by
  induction ps generalizing state with
  | nil => rfl
  | cons consumed rest ih =>
    have hComplete := hEnded consumed List.mem_cons_self
    have hRest := ih fun piece hMem => hEnded piece (List.mem_cons_of_mem _ hMem)
    simp only [scanFromCursor, hComplete, not_true_eq_false, false_and, if_false, if_true, hRest]

theorem advanceTail_window (read line : Bytes) :
    advanceTail (window sessionScanResumeTailBytes newline read) line =
      window sessionScanResumeTailBytes newline (read ++ (line ++ [newline])) := by
  unfold advanceTail
  dsimp only
  have hLength : (line ++ [newline]).length = line.length + 1 := by simp
  split
  next hLong =>
    simp only [sessionScanResumeTailBytes] at hLong ⊢
    rw [window_append_long _ _ (by omega), hLength, List.drop_append_of_le_length (by omega)]
    congr 2
  next hShort =>
    simp only [sessionScanResumeTailBytes] at hShort ⊢
    rw [window_append_short _ _ (by omega), hLength, List.append_assoc]

theorem decode_line {consumed : Bytes} {line : Text} (hDecode : Utf8.decode consumed = some line)
    (hComplete : consumed.getLast? = some newline) : consumed = utf8 line.dropLast ++ [newline] := by
  rw [Utf8.decode_eq_some_iff] at hDecode
  obtain ⟨front, last, rfl⟩ | rfl := (List.eq_nil_or_concat' line).symm
  · rw [List.dropLast_concat]
    rw [hDecode, Utf8.encode_append] at hComplete ⊢
    have hSingle : Utf8.encode [last] = String.utf8EncodeChar last := List.append_nil _
    rw [hSingle] at hComplete ⊢
    rw [List.getLast?_append_of_ne_nil _ String.utf8EncodeChar_ne_nil] at hComplete
    have hLast : last.toNat = newline.toNat :=
      (Utf8.mem_encodeChar_ascii (by decide)).mp (List.mem_of_getLast? hComplete)
    rw [Utf8.encodeChar_ascii (by rw [hLast]; decide), hLast]
    rfl
  · rw [hDecode] at hComplete
    cases hComplete

theorem scanFromCursor_consumed (hEnded : ∀ piece ∈ ps, piece.getLast? = some newline) {read : Bytes}
    {state : SessionScanState} (hOffset : state.offset = read.length)
    (hTail : state.tail = window sessionScanResumeTailBytes newline read)
    (hScan : state.scanFromCursor serde size ps = some ended) :
    ended.2 = [] ∧ ended.1.offset = (read ++ ps.flatten).length ∧
      ended.1.tail = window sessionScanResumeTailBytes newline (read ++ ps.flatten) := by
  induction ps generalizing state read with
  | nil =>
    cases hScan
    rw [List.flatten_nil, List.append_nil]
    exact ⟨rfl, hOffset, hTail⟩
  | cons consumed rest ih =>
    have hComplete := hEnded consumed List.mem_cons_self
    simp only [scanFromCursor, hComplete, not_true_eq_false, false_and, if_false, if_true] at hScan
    obtain ⟨line, hDecode, hScan⟩ := Option.bind_eq_some_iff.mp hScan
    obtain ⟨acc, hFold, hScan⟩ := Option.bind_eq_some_iff.mp hScan
    have hLine := decode_line hDecode hComplete
    have hRest := @ih (fun piece hMem => hEnded piece (List.mem_cons_of_mem _ hMem)) (read ++ consumed) _
      (by simp [hOffset]) (by rw [hTail, advanceTail_window, ← hLine]) hScan
    rwa [List.append_assoc, ← List.flatten_cons] at hRest

theorem scanFromCursor_file {front back : Bytes} (hFront : Terminated newline front) (hBack : newline ∉ back)
    {state : SessionScanState} (hOffset : state.offset = 0)
    (hTail : state.tail = window sessionScanResumeTailBytes newline [])
    (hScan : state.scanFromCursor serde (front ++ back).length (pieces newline (front ++ back)) = some ended) :
    state.scanFromCursor serde (front ++ back).length (pieces newline front) = some (ended.1, []) ∧
      ended.1.offset = front.length ∧ ended.1.tail = window sessionScanResumeTailBytes newline front := by
  have hEnded := pieces_terminated hFront
  rw [pieces_append hFront, scanFromCursor_append hEnded] at hScan
  obtain ⟨mid, hMid, hScan⟩ := Option.bind_eq_some_iff.mp hScan
  obtain ⟨hTorn, hMidOffset, hMidTail⟩ := scanFromCursor_consumed hEnded hOffset hTail hMid
  rw [List.nil_append, pieces_flatten] at hMidOffset hMidTail
  have hSame : ended.1 = mid.1 := by
    rw [pieces_of_notMem hBack] at hScan
    split at hScan
    · cases hScan
      rfl
    next hSome =>
      have hOpen : back.getLast? ≠ some newline := fun hLast => hBack (List.mem_of_getLast? hLast)
      have hWhole : mid.1.offset + back.length ≥ (front ++ back).length := by rw [hMidOffset, List.length_append]
      simp only [scanFromCursor, if_pos (And.intro hOpen hWhole)] at hScan
      obtain ⟨line, hDecode, hScan⟩ := Option.bind_eq_some_iff.mp hScan
      cases hScan
      rfl
  rw [hSame, hMid, ← hTorn]
  exact ⟨rfl, hMidOffset, hMidTail⟩

end SessionScanState

/-! ## What a cached scan says -/

open SessionScanState

def freshInfo (serde : InfoSerde) (path : String) (file : File) : Option SessionInfo :=
  (readSessionInfo serde path file none).1

structure ScannedFrom (serde : InfoSerde) (path : String) (source : File) (state : SessionScanState) : Prop where
  generation : state.generation = source.generation
  info : state.info = freshInfo serde path source
  lines : ∃ front back, source.content = front ++ back ∧ Terminated newline front ∧
    (∀ size, (fresh source.generation).scanFromCursor serde size (pieces newline front) =
      some (state.restamp source.generation none, [])) ∧
    state.offset = front.length ∧ state.tail = window sessionScanResumeTailBytes newline front

theorem scanFile_resumed {state : SessionScanState} (hScanned : ScannedFrom serde path source state)
    (hGrown : source.content <+: file.content) :
    (scanFile serde path file state.cloneForResume).map (fun ended => (ended.1.restamp file.generation none, ended.2)) =
      (scanFile serde path file (fresh file.generation)).map
        fun ended => (ended.1.restamp file.generation none, ended.2) := by
  obtain ⟨front, back, hSource, hFront, hLines, hOffset, hTail⟩ := hScanned.lines
  obtain ⟨more, hMore⟩ := hGrown
  rw [hSource, List.append_assoc] at hMore
  have hFresh : (fresh file.generation).scanFromCursor serde file.generation.len (pieces newline file.content) =
      (state.restamp file.generation none).scanFromCursor serde file.generation.len (pieces newline (back ++ more)) := by
    have hStart : fresh file.generation = (fresh source.generation).restamp file.generation none := rfl
    rw [← hMore, pieces_append hFront, scanFromCursor_append (pieces_terminated hFront), hStart,
      scanFromCursor_restamp, hLines]
    rfl
  have hResumed : state.cloneForResume = state.restamp state.generation none := rfl
  have hDrop : file.content.drop state.offset = back ++ more := by
    rw [← hMore, hOffset, List.drop_left]
  have hClone : state.cloneForResume.offset = state.offset := rfl
  have hZero : (fresh file.generation).offset = 0 := rfl
  unfold scanFile
  rw [hClone, hDrop, hZero, List.drop_zero, hFresh, hResumed, scanFromCursor_restamp, scanFromCursor_restamp]
  cases state.scanFromCursor serde file.generation.len (pieces newline (back ++ more)) with
  | none => rfl
  | some ended =>
    have hInfo : ∀ generation, (ended.1.restamp generation none).buildInfo serde path file.statsMtimeMs ended.2 =
        ended.1.buildInfo serde path file.statsMtimeMs ended.2 := fun _ => rfl
    simp only [Option.map_some, Option.bind_some, hInfo]
    cases ended.1.buildInfo serde path file.statsMtimeMs ended.2 <;> rfl

theorem freshInfo_eq (file : File) :
    freshInfo serde path file = (scanFile serde path file (fresh file.generation)).map (·.2) := by
  unfold freshInfo readSessionInfo resumeState
  simp only [Option.filter_none]
  cases scanFile serde path file (fresh file.generation) with
  | none => rfl
  | some ended =>
    simp only [Option.map_some]
    split <;> rfl

theorem readSessionInfo_scanned {file : File} {cached : Option SessionScanState}
    (hMiss : ∀ state, cached = some state → state.generation ≠ file.generation) :
    (readSessionInfo serde path file cached).1 = (scanFile serde path file (resumeState file cached)).map (·.2) := by
  have hFilter : cached.filter (·.generation = file.generation) = none := by
    rw [Option.filter_eq_none_iff]
    intro state hState
    simpa using hMiss state hState
  unfold readSessionInfo
  rw [hFilter]
  cases scanFile serde path file (resumeState file cached) with
  | none => rfl
  | some ended =>
    simp only [Option.map_some]
    split <;> rfl

theorem resumeState_cases (file : File) (state : SessionScanState) :
    resumeState file (some state) = state.cloneForResume ∨ resumeState file (some state) = fresh file.generation := by
  unfold resumeState
  dsimp only
  split
  · exact .inl rfl
  · exact .inr rfl

theorem scanFile_resumeState (hScanned : ∀ state, cached = some state → ScannedFrom serde path source state)
    (hGrown : ∀ state, cached = some state → source.content <+: file.content) :
    (scanFile serde path file (resumeState file cached)).map
        (fun ended => (ended.1.restamp file.generation none, ended.2)) =
      (scanFile serde path file (fresh file.generation)).map
        fun ended => (ended.1.restamp file.generation none, ended.2) := by
  cases cached with
  | none => rfl
  | some state =>
    obtain hResumed | hFresh := resumeState_cases file state
    · rw [hResumed]
      exact scanFile_resumed (hScanned state rfl) (hGrown state rfl)
    · rw [hFresh]

theorem file_eq (hGeneration : source.generation = file.generation) (hGrown : source.content <+: file.content) :
    source = file := by
  have hLength := congrArg SessionInfoGeneration.len hGeneration
  have hContent := hGrown.eq_of_length hLength
  cases source
  cases file
  simp only [File.generation, SessionInfoGeneration.mk.injEq] at hGeneration
  simp only at hContent
  obtain ⟨-, rfl, rfl, rfl, rfl, rfl, rfl⟩ := hGeneration
  rw [hContent]

section

variable (hScanned : ∀ state, cached = some state → ScannedFrom serde path source state)

include hScanned

theorem readSessionInfo_grown (hGrown : ∀ state, cached = some state → source.content <+: file.content) :
    (readSessionInfo serde path file cached).1 = freshInfo serde path file := by
  by_cases hHit : ∃ state, cached = some state ∧ state.generation = file.generation
  · obtain ⟨state, rfl, hGeneration⟩ := hHit
    have hState := hScanned state rfl
    have hSame := file_eq (hState.generation.symm.trans hGeneration) (hGrown state rfl)
    have hFilter : (some state).filter (·.generation = file.generation) = some state := by
      simp [Option.filter, hGeneration]
    unfold readSessionInfo
    rw [hFilter, ← hSame]
    exact hState.info
  · push Not at hHit
    rw [readSessionInfo_scanned hHit, freshInfo_eq]
    have hRows := congrArg (Option.map Prod.snd) (scanFile_resumeState hScanned hGrown)
    simpa only [Option.map_map, Function.comp_def] using hRows

theorem readSessionInfo_cached (hGrown : ∀ state, cached = some state → source.content <+: file.content) :
    (readSessionInfo serde path file cached).2 = cached ∨
      ∃ state, (readSessionInfo serde path file cached).2 = some state ∧ ScannedFrom serde path file state := by
  have hAnswer := readSessionInfo_grown hScanned hGrown
  unfold readSessionInfo at hAnswer ⊢
  split at hAnswer
  next state hHit =>
    left
    exact (Option.eq_some_of_filter_eq_some hHit).symm
  next hMiss =>
    cases hFile : scanFile serde path file (resumeState file cached) with
    | none => exact .inl rfl
    | some ended =>
      obtain ⟨state, info⟩ := ended
      rw [hFile] at hAnswer
      dsimp only at hAnswer ⊢
      split
      next hActive =>
        right
        rw [if_pos hActive] at hAnswer
        refine ⟨_, rfl, rfl, hAnswer, ?_⟩
        have hEnds := scanFile_resumeState hScanned hGrown
        rw [hFile, Option.map_some] at hEnds
        obtain ⟨⟨state₀, info₀⟩, hFresh, hSame⟩ := Option.map_eq_some_iff.mp hEnds.symm
        obtain ⟨hState, -⟩ := Prod.mk.inj hSame
        obtain ⟨front, back, hContent, hFront, hBack⟩ := exists_terminated newline file.content
        obtain ⟨⟨mid, torn⟩, hScan, hBuild⟩ := Option.bind_eq_some_iff.mp hFresh
        have hMid : mid = state₀ := by
          obtain ⟨row, -, hRow⟩ := Option.map_eq_some_iff.mp hBuild
          exact (Prod.mk.inj hRow).1
        have hZero : (fresh file.generation).offset = 0 := rfl
        have hLen : file.generation.len = (front ++ back).length := congrArg List.length hContent
        rw [hZero, List.drop_zero, hLen, hContent] at hScan
        obtain ⟨hLines, hOffset, hTail⟩ := scanFromCursor_file hFront hBack rfl (by simp [fresh, window]) hScan
        have hClean : state₀ = state₀.restamp file.generation none := by
          have hStamped := @scanFromCursor_restamp serde (front ++ back).length file.generation none
            (pieces newline front) (fresh file.generation)
          have hFreshSame : (fresh file.generation).restamp file.generation none = fresh file.generation := rfl
          rw [hFreshSame, hLines, Option.map_some] at hStamped
          rw [← hMid]
          exact (Prod.mk.inj (Option.some.inj hStamped)).1
        have hEnd : mid = state.restamp file.generation none := hMid.trans (hClean.trans hState)
        rw [hEnd] at hLines hOffset hTail
        refine ⟨front, back, hContent, hFront, fun size => ?_, hOffset, hTail⟩
        rw [scanFromCursor_size (pieces_terminated hFront) (front ++ back).length, hLines]
        rfl
      next => exact .inl rfl

end

/-! ## Files that grow, and files that are replaced -/

structure Listed where
  file : File
  cached : Option SessionScanState

namespace Listed

def info (serde : InfoSerde) (path : String) (w : Listed) : Option SessionInfo :=
  (readSessionInfo serde path w.file w.cached).1

def read (serde : InfoSerde) (path : String) (w : Listed) : Listed :=
  { w with cached := (readSessionInfo serde path w.file w.cached).2 }

def append (w : Listed) (chunk : Bytes) (mtime mtimeNs ctime ctimeNs : Int) : Listed :=
  { w with file := { w.file with content := w.file.content ++ chunk, mtime, mtimeNs, ctime, ctimeNs } }

end Listed

inductive Grows (serde : InfoSerde) (path : String) : Listed → Listed → Prop
  | append {w : Listed} (chunk : Bytes) (mtime mtimeNs ctime ctimeNs : Int) :
      Grows serde path w (w.append chunk mtime mtimeNs ctime ctimeNs)
  | read {w : Listed} : Grows serde path w (w.read serde path)
  | evict {w : Listed} : Grows serde path w { w with cached := none }

def beforeCursor (offset : Nat) (content : Bytes) : Bytes :=
  (content.take offset).drop (offset - sessionScanResumeTailBytes)

/-- The new file's metadata is not that of the cached scan, and it is another inode, or no longer than the file that was
scanned, or differs before the cursor. -/
def Replaces (w : Listed) (file : File) : Prop :=
  ∀ state, w.cached = some state → state.generation ≠ file.generation ∧
    (¬state.sameFileIdentity file.generation ∨ file.content.length ≤ state.generation.len ∨
      beforeCursor state.offset file.content ≠ beforeCursor state.offset w.file.content)

def Tracks (serde : InfoSerde) (path : String) (w : Listed) : Prop :=
  ∃ source : File, ∀ state, w.cached = some state →
    ScannedFrom serde path source state ∧ source.content <+: w.file.content

variable {w w' : Listed}

theorem grows_tracks (hStep : Grows serde path w w') (hTracks : Tracks serde path w) : Tracks serde path w' := by
  obtain ⟨source, hSource⟩ := hTracks
  cases hStep with
  | append chunk mtime mtimeNs ctime ctimeNs =>
    refine ⟨source, fun state hState => ?_⟩
    obtain ⟨hScanned, hGrown⟩ := hSource state hState
    exact ⟨hScanned, hGrown.trans (List.prefix_append _ _)⟩
  | read =>
    obtain hKept | ⟨state, hStored, hScanned⟩ :=
      readSessionInfo_cached (fun state hState => (hSource state hState).1) (fun state hState => (hSource state hState).2)
    · refine ⟨source, fun state hState => ?_⟩
      exact hSource state (hKept.symm.trans hState)
    · refine ⟨w.file, fun state' hState => ?_⟩
      cases hStored.symm.trans hState
      exact ⟨hScanned, List.prefix_rfl⟩
  | evict => exact ⟨source, fun state hState => by cases hState⟩

theorem resumeState_replaced {state : SessionScanState} (hScanned : ScannedFrom serde path source state)
    (hReplaced : ¬state.sameFileIdentity file.generation ∨ file.content.length ≤ state.generation.len ∨
      beforeCursor state.offset file.content ≠ beforeCursor state.offset source.content) :
    resumeState file (some state) = fresh file.generation := by
  unfold resumeState
  apply if_neg
  rintro ⟨hIdentity, hLonger, hIntact⟩
  obtain hOther | hShorter | hDiffers := hReplaced
  · exact hOther hIdentity
  · exact absurd hLonger (Nat.not_lt.mpr hShorter)
  · apply hDiffers
    obtain ⟨front, back, hContent, -, -, hOffset, hTail⟩ := hScanned.lines
    unfold beforeCursor
    have hSource : (source.content.take state.offset).drop (state.offset - sessionScanResumeTailBytes) =
        front.drop (front.length - sessionScanResumeTailBytes) := by
      rw [hContent, hOffset, List.take_left]
    unfold prefixIntact at hIntact
    split at hIntact
    next hZero => rw [hZero, List.take_zero, List.take_zero]
    next hCursor =>
      simp only [decide_eq_true_eq] at hIntact
      rw [hSource, List.drop_take, hIntact.2, hTail, window_length, ← window_drop newline front, hOffset]
      congr 1
      simp only [sessionScanResumeTailBytes]
      omega

theorem beforeCursor_grown {offset : Nat} (hOffset : offset ≤ source.content.length)
    (hGrown : source.content <+: file.content) :
    beforeCursor offset source.content = beforeCursor offset file.content := by
  obtain ⟨more, hMore⟩ := hGrown
  unfold beforeCursor
  rw [← hMore, List.take_append_of_le_length hOffset]

/-- However a file has grown and been listed, each listing is that of the whole file; so is the next one after the file
is replaced. -/
theorem readSessionInfo_fresh {start : Listed} (hStart : start.cached = none)
    (hRun : Relation.ReflTransGen (Grows serde path) start w) :
    w.info serde path = freshInfo serde path w.file ∧
      ∀ file, Replaces w file → { w with file }.info serde path = freshInfo serde path file := by
  have hTracks : Tracks serde path w := by
    induction hRun with
    | refl => exact ⟨start.file, fun state hState => by rw [hStart] at hState; cases hState⟩
    | tail _ hStep ih => exact grows_tracks hStep ih
  obtain ⟨source, hSource⟩ := hTracks
  refine ⟨readSessionInfo_grown (fun state hState => (hSource state hState).1)
    fun state hState => (hSource state hState).2, fun file hReplaces => ?_⟩
  have hMiss := @readSessionInfo_scanned serde path file w.cached (fun state hState => (hReplaces state hState).1)
  refine hMiss.trans ?_
  rw [freshInfo_eq]
  congr 1
  congr 1
  cases hCached : w.cached with
  | none => rfl
  | some state =>
    obtain ⟨hScanned, hGrown⟩ := hSource state hCached
    obtain ⟨front, back, hContent, -, -, hOffset, -⟩ := hScanned.lines
    have hRoom : state.offset ≤ source.content.length := by rw [hContent, List.length_append, hOffset]; omega
    apply resumeState_replaced hScanned
    rw [beforeCursor_grown hRoom hGrown]
    exact (hReplaces state hCached).2

/-! ## A file that is listed, grows and is replaced unlisted -/

def sampleHeaderText : Text :=
  "\x7b\"type\":\"session\",\"id\":\"s\",\"timestamp\":\"\",\"cwd\":\"/\"\x7d".toList

def sampleMessageText (said : Char) : Text :=
  "\x7b\"type\":\"message\",\"id\":\"m\",\"timestamp\":\"\",\"message\":\x7b\"role\":\"user\",\"content\":\"".toList ++ said :: "\",\"timestamp\":1\x7d\x7d".toList

def sampleNameText : Text :=
  "\x7b\"type\":\"session_info\",\"id\":\"n\",\"timestamp\":\"\",\"name\":\"x\"\x7d".toList

def sampleEntry (type id : String) : SessionInfoEntry :=
  { type, id, name := none, state := none, provider := none, modelId := none, thinkingLevel := none, message := none
    targetId := none, childUsage := none, aggregateUsage := none, usage := none }

def sampleMessage (said : String) : SessionInfoMessage :=
  { role := some ⟨some (.string "user")⟩, provider := none, model := none
    timestamp := some ⟨some (.number (.posInt 1))⟩, usage := none, content := some ⟨some (.string said)⟩ }

def sampleSerde : InfoSerde where
  entry text :=
    if text = sampleHeaderText then some (sampleEntry "session" "s")
    else if text = sampleMessageText 'a' then some { sampleEntry "message" "m" with message := some (sampleMessage "a") }
    else if text = sampleMessageText 'b' then some { sampleEntry "message" "m" with message := some (sampleMessage "b") }
    else if text = sampleNameText then
      some { sampleEntry "session_info" "n" with name := some ⟨some (.string "x")⟩ }
    else none
  header text :=
    if text = sampleHeaderText then some ⟨none, "s", "", "/", none, none, none⟩ else none

def sampleFile (said : Char) (more : Text) : File :=
  { content := utf8 (sampleHeaderText ++ '\n' :: sampleMessageText said ++ '\n' :: more), dev := 1, ino := 1
    mtime := 0, mtimeNs := 0, ctime := 0, ctimeNs := 0 }

def sampleListed : Listed :=
  ⟨sampleFile 'a' [], none⟩

def sampleGrown : Listed :=
  (sampleListed.read sampleSerde "p").append (utf8 (sampleNameText ++ ['\n'])) 0 0 0 0

def sampleReplacement : File :=
  sampleFile 'b' ['\n']

theorem sampleGrown_run : Relation.ReflTransGen (Grows sampleSerde "p") sampleListed sampleGrown := by
  apply Relation.ReflTransGen.tail (.single .read)
  exact .append (utf8 (sampleNameText ++ ['\n'])) 0 0 0 0

theorem readSessionInfo_fresh_sample :
    sampleGrown.info sampleSerde "p" = freshInfo sampleSerde "p" sampleGrown.file ∧
      ∀ file, Replaces sampleGrown file →
        { sampleGrown with file }.info sampleSerde "p" = freshInfo sampleSerde "p" file :=
  readSessionInfo_fresh rfl sampleGrown_run

set_option maxRecDepth 8000 in
theorem readSessionInfo_stale : ¬∀ (serde : InfoSerde) (path : String) (start w : Listed), start.cached = none →
    Relation.ReflTransGen (Grows serde path) start w → ∀ file : File,
      (file.dev, file.ino) ≠ (w.file.dev, w.file.ino) ∨ file.content.length < w.file.content.length ∨
        (∃ state, w.cached = some state ∧
          beforeCursor state.offset file.content ≠ beforeCursor state.offset w.file.content) →
      { w with file }.info serde path = freshInfo serde path file := by
  intro hEvery
  have hShorter : sampleReplacement.content.length < sampleGrown.file.content.length := by decide +kernel
  have hSame := hEvery sampleSerde "p" sampleListed sampleGrown rfl sampleGrown_run sampleReplacement
    (.inr (.inl hShorter))
  have hText := congrArg (Option.map SessionInfo.firstMessage) hSame
  exact absurd hText (by decide +kernel)

end PrimeAgent.SessionStore
