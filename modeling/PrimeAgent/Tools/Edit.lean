import PrimeAgent.Tools.EditSlices

/-! # The edit tool

The file is read, its line ends become newlines, the edits are applied, and every newline of the result is written as
the first newline of the file was.
-/
namespace PrimeAgent.Tools

open Splice

/-- `std::io::Error`: the raw error number, where there is one, and the kind. -/
inductive IoErrorKind where
  | notFound
  | permissionDenied
  | isADirectory
  | other
deriving DecidableEq

structure IoError where
  rawOsError : Option Int
  kind : IoErrorKind
deriving DecidableEq

def errnoName (err : IoError) : String :=
  match err.rawOsError with
  | some 1 => "EPERM"
  | some 2 => "ENOENT"
  | some 13 => "EACCES"
  | some 20 => "ENOTDIR"
  | some 21 => "EISDIR"
  | some 30 => "EROFS"
  | some 36 => "ENAMETOOLONG"
  | some 40 => "ELOOP"
  | some number => s!"E{number}"
  | none =>
    match err.kind with
    | .notFound => "ENOENT"
    | .permissionDenied => "EACCES"
    | _ => "EUNKNOWN"

def readReason (code : String) : Option String :=
  if code = "ENOENT" then some "no such file or directory"
  else if code = "EACCES" then some "permission denied"
  else if code = "ENOTDIR" then some "not a directory"
  else if code = "ELOOP" then some "too many levels of symbolic links"
  else if code = "EISDIR" then some "illegal operation on a directory"
  else if code = "EROFS" then some "read-only file system"
  else none

def readErrorMessage (err : IoError) (absolutePath : String) : String :=
  if err.kind = .isADirectory then "EISDIR: illegal operation on a directory, read"
  else
    let code := errnoName err
    match readReason code with
    | some reason => s!"{code}: {reason}, open '{absolutePath}'"
    | none => s!"Error code: {code}."

structure EditOperations where
  access : Except IoError Unit
  readFile : Except IoError Bytes
  writeFile : Text → Except IoError Unit

structure AbortSignal where
  atStart : Bool
  afterAccess : Bool

structure DiffStringResult where
  diff : Text
  firstChangedLine : Option Nat

structure ToolExecutionResult where
  text : String
  details : DiffStringResult
  isError : Bool

/-- The texts handed to `write_file`, and the answer; no answer after a panic. -/
structure EditRun where
  writes : List Text
  result : Option (Except String ToolExecutionResult)

def EditRun.failed (message : String) : EditRun :=
  ⟨[], some (.error message)⟩

def editContent (nfkc : Text → Text) (generateDiff : Text → Text → DiffStringResult) (path : String)
    (ops : EditOperations)
    (edits : List Edit) (raw : Bytes) : EditRun :=
  let (bom, content) := stripBom (Utf8.lossy raw)
  let originalEnding := detectLineEnding content
  match applyEditsToNormalizedContent nfkc (normalizeToLf content) edits path with
  | none => ⟨[], none⟩
  | some (.error message) => .failed message
  | some (.ok applied) =>
    let finalContent := bom ++ restoreLineEndings applied.newContent originalEnding
    match ops.writeFile finalContent with
    | .error err => ⟨[finalContent], some (.error s!"Error code: {errnoName err}.")⟩
    | .ok () => ⟨[finalContent], some (.ok
        ⟨s!"Successfully replaced {edits.length} block(s) in {path}.",
          generateDiff applied.baseContent applied.newContent, false⟩)⟩

def executeEditLocked (nfkc : Text → Text) (generateDiff : Text → Text → DiffStringResult) (path absolutePath : String)
    (ops : EditOperations) (edits : List Edit) (signal : Option AbortSignal) : EditRun :=
  if signal.any AbortSignal.atStart then .failed "Operation aborted"
  else match ops.access with
    | .error err => .failed s!"Could not edit file: {path}. Error code: {errnoName err}."
    | .ok () =>
      if signal.any AbortSignal.afterAccess then .failed "Operation aborted"
      else match ops.readFile with
        | .error err => .failed (readErrorMessage err absolutePath)
        | .ok raw => editContent nfkc generateDiff path ops edits raw

/-! ### What an edit may change -/

def units : Text → List Text
  | [] => []
  | '\r' :: '\n' :: text => ['\r', '\n'] :: units text
  | c :: text => [c] :: units text

def unitChar (unit : Text) : Char :=
  if unit.head? = some '\r' then '\n' else unit.headD '\n'

def unitWeight (unit : Text) : Nat :=
  (unitChar unit).utf8Size

def regionOf (content : Text) (edit : Edit) : Region Char :=
  ⟨(findText (normalizeToLf edit.oldText) content).getD 0, byteLength (normalizeToLf edit.oldText),
    normalizeToLf edit.newText⟩

def matchedRegions (content : Text) (edits : List Edit) : List (Region Char) :=
  (edits.map (regionOf content)).insertionSort fun a b => a.start ≤ b.start

def MatchesExactly (content : Text) (edit : Edit) : Prop :=
  (findText (normalizeToLf edit.oldText) content).isSome = true

def inFile (ending : LineEnding) (region : Region Char) : Region Text :=
  ⟨region.start, region.length, [restoreLineEndings region.new ending]⟩

def fileRegions (content : Text) (edits : List Edit) : List (Region Text) :=
  (matchedRegions (normalizeToLf content) edits).map (inFile (detectLineEnding content))

def OnlyMatchedReplaced (file : Text) (edits : List Edit) (written : Text) : Prop :=
  ∃ out, Spliced unitWeight 0 (fileRegions (stripBom file).2 edits) (units (stripBom file).2) out ∧
    written = (stripBom file).1 ++ out.flatten

def EndsAlike (file : Text) (edits : List Edit) : Prop :=
  ∀ unit ∈ kept unitWeight (fileRegions (stripBom file).2 edits) 0 (units (stripBom file).2),
    unitChar unit = '\n' → unit = (detectLineEnding (stripBom file).2).chars

instance (file : Text) (edits : List Edit) : Decidable (EndsAlike file edits) :=
  inferInstanceAs (Decidable (∀ unit ∈ _, _ → _))

section Units

variable {ending : LineEnding} {unit : Text} {us : List Text} {text : Text}

def IsUnit (unit : Text) : Prop :=
  unit = ['\r', '\n'] ∨ ∃ c, unit = [c]

def Misread (ending : LineEnding) (unit : Text) : Prop :=
  unitChar unit = '\n' ∧ unit ≠ ending.chars

instance (ending : LineEnding) (unit : Text) : Decidable (Misread ending unit) :=
  inferInstanceAs (Decidable (_ ∧ _))

theorem isUnit_units (text : Text) : ∀ unit ∈ units text, IsUnit unit := by
  fun_induction units text with
  | case1 => exact fun _ hMem => nomatch hMem
  | case2 text ih => exact List.forall_mem_cons.mpr ⟨.inl rfl, ih⟩
  | case3 c text _ ih => exact List.forall_mem_cons.mpr ⟨.inr ⟨c, rfl⟩, ih⟩

theorem unitChar_single (c : Char) : unitChar [c] = if c = '\r' then '\n' else c := by
  simp [unitChar]

theorem normalizeToLf_units (text : Text) : normalizeToLf text = (units text).map unitChar := by
  fun_induction units text with
  | case1 => rfl
  | case2 text ih =>
    rw [normalizeToLf, ih]
    rfl
  | case3 c text hPair ih =>
    rw [normalizeToLf, ih, List.map_cons, unitChar_single]
    exact hPair

theorem unitWeight_pos (unit : Text) : 0 < unitWeight unit :=
  Char.utf8Size_pos _

theorem restoreLineEndings_append (before after : Text) (ending : LineEnding) :
    restoreLineEndings (before ++ after) ending =
      restoreLineEndings before ending ++ restoreLineEndings after ending := by
  cases ending with
  | crLf => exact List.flatMap_append
  | lf => rfl

theorem restoreLineEndings_cons (c : Char) (text : Text) (ending : LineEnding) :
    restoreLineEndings (c :: text) ending = restoreLineEndings [c] ending ++ restoreLineEndings text ending :=
  restoreLineEndings_append [c] text ending

def endsMeasure : LineEnding → Text → Int
  | .crLf, text => -text.length
  | .lf, text => text.count '\r'

theorem endsMeasure_append (ending : LineEnding) (before after : Text) :
    endsMeasure ending (before ++ after) = endsMeasure ending before + endsMeasure ending after := by
  cases ending with
  | crLf =>
    rw [endsMeasure, endsMeasure, endsMeasure, List.length_append]
    omega
  | lf =>
    rw [endsMeasure, endsMeasure, endsMeasure, List.count_append]
    omega

theorem restore_unit (hUnit : IsUnit unit) (hRead : ¬ Misread ending unit) :
    restoreLineEndings [unitChar unit] ending = unit := by
  have hEnd : unitChar unit = '\n' → unit = ending.chars := fun hNewline => by
    by_contra hOther
    exact hRead ⟨hNewline, hOther⟩
  by_cases hNewline : unitChar unit = '\n'
  · rw [hNewline, hEnd hNewline]
    cases ending <;> rfl
  · obtain rfl | ⟨c, rfl⟩ := hUnit
    · exact absurd rfl hNewline
    · have hPlain : unitChar [c] = c := by
        rw [unitChar_single] at hNewline ⊢
        split_ifs at hNewline ⊢ with hCr
        · exact absurd rfl hNewline
        · rfl
      rw [hPlain] at hNewline ⊢
      cases ending with
      | crLf => simp [restoreLineEndings, hNewline]
      | lf => rfl

theorem measure_misread (hUnit : IsUnit unit) (hMisread : Misread ending unit) :
    endsMeasure ending unit = endsMeasure ending (restoreLineEndings [unitChar unit] ending) + 1 := by
  obtain ⟨hNewline, hOther⟩ := hMisread
  rw [hNewline]
  obtain rfl | ⟨c, rfl⟩ := hUnit
  · cases ending with
    | crLf => exact absurd rfl hOther
    | lf => rfl
  · cases ending with
    | crLf => rfl
    | lf =>
      have hCr : c = '\r' := by
        rw [unitChar_single] at hNewline
        split_ifs at hNewline with hCr
        · exact hCr
        · exact absurd (hNewline ▸ rfl) hOther
      rw [hCr]
      rfl

theorem measure_units (hUnits : ∀ unit ∈ us, IsUnit unit) : endsMeasure ending us.flatten =
    endsMeasure ending (restoreLineEndings (us.map unitChar) ending) + us.countP (Misread ending ·) := by
  induction us with
  | nil => cases ending <;> rfl
  | cons unit us ih =>
    have hOne : endsMeasure ending unit = endsMeasure ending (restoreLineEndings [unitChar unit] ending) +
        if Misread ending unit then 1 else 0 := by
      split_ifs with hMisread
      · exact measure_misread (hUnits unit List.mem_cons_self) hMisread
      · rw [restore_unit (hUnits unit List.mem_cons_self) hMisread, Int.add_zero]
    have hRest := ih fun later hLater => hUnits later (List.mem_cons_of_mem _ hLater)
    rw [List.flatten_cons, endsMeasure_append, hOne, hRest, List.map_cons, List.countP_cons,
      restoreLineEndings_cons (unitChar unit) (us.map unitChar), endsMeasure_append]
    simp only [decide_eq_true_eq]
    split_ifs <;> omega

theorem restore_units (hUnits : ∀ unit ∈ us, IsUnit unit) (hRead : ∀ unit ∈ us, ¬ Misread ending unit) :
    restoreLineEndings (us.map unitChar) ending = us.flatten := by
  induction us with
  | nil => cases ending <;> rfl
  | cons unit us ih =>
    obtain ⟨hUnit, hUnits⟩ := List.forall_mem_cons.mp hUnits
    obtain ⟨hFirst, hRead⟩ := List.forall_mem_cons.mp hRead
    rw [List.map_cons, List.flatten_cons, restoreLineEndings_cons, restore_unit hUnit hFirst, ih hUnits hRead]

end Units

section Outside

variable {ending : LineEnding} {offset : Nat} {regions : List (Region Char)} {chars out : Text}

theorem Spliced.inFile (hSpliced : Spliced Char.utf8Size offset regions chars out) : ∀ us : List Text,
    chars = us.map unitChar → (∀ unit ∈ us, IsUnit unit) →
      ∃ out', Spliced unitWeight offset (regions.map (Tools.inFile ending)) us out' ∧
        endsMeasure ending out'.flatten = endsMeasure ending (restoreLineEndings out ending) +
          (kept unitWeight (regions.map (Tools.inFile ending)) offset us).countP (Misread ending ·) ∧
        ((∀ unit ∈ kept unitWeight (regions.map (Tools.inFile ending)) offset us, ¬ Misread ending unit) →
          restoreLineEndings out ending = out'.flatten) := by
  induction hSpliced with
  | @rest offset chars =>
    rintro us rfl hUnits
    have hKept : kept unitWeight (([] : List (Region Char)).map (Tools.inFile ending)) offset us = us := by
      have hNone := @kept_before _ unitWeight (([] : List (Region Char)).map (Tools.inFile ending)) []
        unitWeight_pos us offset
        fun _ hMem => nomatch hMem
      rw [List.append_nil] at hNone
      rw [hNone]
      exact List.append_nil us
    refine ⟨us, .rest us, ?_, ?_⟩
    · rw [hKept]
      exact measure_units hUnits
    · intro hRead
      exact restore_units hUnits (hKept ▸ hRead)
  | @region offset region regions outside matched chars out hStart hLength hRest ih =>
    intro us hChars hUnits
    obtain ⟨front, back, rfl, hFront, rfl⟩ := List.append_eq_map_iff.mp hChars
    obtain ⟨before, found, rfl, rfl, rfl⟩ := List.map_eq_append_iff.mp hFront
    have hWeight : ∀ part : List Text, total Char.utf8Size (part.map unitChar) = total unitWeight part := fun part => by
      rw [total, List.map_map]
      rfl
    rw [hWeight] at hStart hLength
    obtain ⟨out', hSpliced, hMeasure, hSame⟩ := ih back rfl fun unit hMem => hUnits unit (List.mem_append_right _ hMem)
    have hBefore : ∀ unit ∈ before, IsUnit unit := fun unit hMem =>
      hUnits unit (List.mem_append_left _ (List.mem_append_left _ hMem))
    have hKept := @kept_spliced _ _ _ _ _ _ unitWeight_pos (Tools.inFile ending region) before found hStart
      hLength hSpliced
    refine ⟨_, .region before found hStart hLength hSpliced, ?_, ?_⟩
    · rw [List.map_cons, hKept, List.flatten_append, List.flatten_append, endsMeasure_append,
        endsMeasure_append, hMeasure, measure_units hBefore, restoreLineEndings_append, restoreLineEndings_append,
        endsMeasure_append, endsMeasure_append, List.countP_append]
      have hNew : (Tools.inFile ending region).new.flatten = restoreLineEndings region.new ending := List.append_nil _
      have hNext : (Tools.inFile ending region).start + (Tools.inFile ending region).length =
        region.start + region.length := rfl
      rw [hNew, hNext]
      omega
    · intro hRead
      rw [List.map_cons, hKept] at hRead
      have hFirst := restore_units hBefore fun unit hMem => hRead unit (List.mem_append_left _ hMem)
      have hLater := hSame fun unit hMem => hRead unit (List.mem_append_right _ hMem)
      rw [restoreLineEndings_append, restoreLineEndings_append, List.flatten_append, List.flatten_append,
        hFirst, hLater]
      congr 2
      exact (List.append_nil _).symm

theorem restore_iff_endsAlike {content : Text} {edits : List Edit} {newContent : Text}
    (hSpliced : Spliced Char.utf8Size 0 (matchedRegions (normalizeToLf content) edits) (normalizeToLf content)
      newContent) :
    (∃ out, Spliced unitWeight 0 (fileRegions content edits) (units content) out ∧
      restoreLineEndings newContent (detectLineEnding content) = out.flatten) ↔
    ∀ unit ∈ kept unitWeight (fileRegions content edits) 0 (units content),
      unitChar unit = '\n' → unit = (detectLineEnding content).chars := by
  obtain ⟨out, hOut, hMeasure, hSame⟩ := @Spliced.inFile (detectLineEnding content) 0 _ _ _ hSpliced (units content)
    (normalizeToLf_units content) (isUnit_units content)
  constructor
  · rintro ⟨other, hOther, hRestore⟩ unit hMem hNewline
    obtain rfl := hOut.unique unitWeight_pos hOther
    have hNone : (kept unitWeight (fileRegions content edits) 0 (units content)).countP
        (Misread (detectLineEnding content) ·) = 0 := by
      rw [hRestore] at hMeasure
      rw [fileRegions]
      omega
    by_contra hDiffers
    exact List.countP_eq_zero.mp hNone unit hMem (decide_eq_true ⟨hNewline, hDiffers⟩)
  · intro hAlike
    exact ⟨out, hOut, hSame fun unit hMem hMisread => hMisread.2 (hAlike unit hMem hMisread.1)⟩

end Outside

section Exact

variable {nfkc : Text → Text} {base content : Text} {edits : List Edit} {path : String} {applied : AppliedEditsResult}

def Found (base : Text) (edit : Edit) : Prop :=
  (findText edit.oldText base).isSome = true

theorem fuzzyFindText_found {edit : Edit} (hFound : Found base edit) : fuzzyFindText nfkc base edit.oldText =
    ⟨true, (findText edit.oldText base).getD 0, byteLength edit.oldText, false, base⟩ := by
  obtain ⟨i, hFind⟩ := Option.isSome_iff_exists.mp hFound
  rw [fuzzyFindText, hFind]
  rfl

theorem baseContent_found (hFound : ∀ edit ∈ edits, Found content edit) : baseContent nfkc content edits = content := by
  rw [baseContent, if_neg]
  intro hAny
  obtain ⟨edit, hMem, hFuzzy⟩ := List.any_eq_true.mp hAny
  rw [fuzzyFindText_found (hFound edit hMem)] at hFuzzy
  cases hFuzzy

theorem matchEdits_found (totalEdits : Nat) : ∀ (edits : List Edit) (i : Nat), (∀ edit ∈ edits, Found base edit) →
    ∀ matched, matchEdits nfkc base path totalEdits i edits = .ok matched →
      matched.map MatchedEdit.region =
        edits.map fun edit => ⟨(findText edit.oldText base).getD 0, byteLength edit.oldText, edit.newText⟩ := by
  intro edits
  induction edits with
  | nil =>
    rintro i - matched hMatched
    cases hMatched
    rfl
  | cons edit edits ih =>
    intro i hFound matched hMatched
    rw [matchEdits, fuzzyFindText_found (hFound edit List.mem_cons_self)] at hMatched
    dsimp only at hMatched
    rw [if_neg Bool.true_eq_false_eq_False] at hMatched
    split at hMatched
    next => cases hMatched
    next =>
      cases hLater : matchEdits nfkc base path totalEdits (i + 1) edits with
      | error message =>
        rw [hLater] at hMatched
        cases hMatched
      | ok later =>
        rw [hLater] at hMatched
        obtain rfl := Except.ok.inj hMatched
        rw [List.map_cons, List.map_cons,
          ih (i + 1) (fun next hNext => hFound next (List.mem_cons_of_mem _ hNext)) later hLater]
        rfl

theorem applied_steps (hApplied : applyEditsToNormalizedContent nfkc content edits path = some (.ok applied)) :
    ∃ matched, matchEdits nfkc (baseContent nfkc content (normalizedEdits edits)) path (normalizedEdits edits).length 0
        (normalizedEdits edits) = .ok matched ∧
      findOverlap (sortMatches matched) = none ∧
      spliceAll Char.utf8Size ((sortMatches matched).map MatchedEdit.region)
        (baseContent nfkc content (normalizedEdits edits)) = some applied.newContent := by
  rw [applyEditsToNormalizedContent] at hApplied
  dsimp only at hApplied
  split at hApplied
  next => cases hApplied
  next =>
    split at hApplied
    next => cases hApplied
    next matched hMatched =>
      split at hApplied
      next => cases hApplied
      next hNone =>
        obtain ⟨newContent, hSplice, hOutcome⟩ := Option.bind_eq_some_iff.mp hApplied
        split at hOutcome
        next => cases hOutcome
        next =>
          cases hOutcome
          exact ⟨matched, hMatched, hNone, hSplice⟩

theorem applied_spliced (hExact : ∀ edit ∈ edits, MatchesExactly content edit)
    (hApplied : applyEditsToNormalizedContent nfkc content edits path = some (.ok applied)) :
    Spliced Char.utf8Size 0 (matchedRegions content edits) content applied.newContent := by
  have hFound : ∀ edit ∈ normalizedEdits edits, Found content edit := by
    intro edit hMem
    obtain ⟨source, hSource, rfl⟩ := List.mem_map.mp hMem
    exact hExact source hSource
  obtain ⟨matched, hMatched, hNone, hSplice⟩ := applied_steps hApplied
  rw [baseContent_found hFound] at hMatched hSplice
  have hRegions := matchEdits_found _ _ 0 hFound matched hMatched
  have hBounded : ∀ edit ∈ matched, Bounded Char.utf8Size content edit.region := by
    refine matchEdits_bounded _ _ 0 ?_ matched hMatched
    intro edit hMem _
    obtain ⟨i, hFind⟩ := Option.isSome_iff_exists.mp (hFound edit hMem)
    rw [fuzzyFindText_found (hFound edit hMem), hFind]
    exact findText_bounded hFind edit.newText
  obtain ⟨newContent, hSpliced, hSame⟩ := spliceAll_matched hBounded hNone
  rw [hSplice] at hSame
  obtain rfl := Option.some.inj hSame
  have hSorted : (sortMatches matched).map MatchedEdit.region = matchedRegions content edits := by
    have hSort := List.map_insertionSort (fun a b : MatchedEdit => a.matchIndex ≤ b.matchIndex)
      (fun a b : Region Char => a.start ≤ b.start) MatchedEdit.region matched fun _ _ _ _ => Iff.rfl
    rw [sortMatches, hSort, hRegions, normalizedEdits, List.map_map]
    rfl
  rw [← hSorted]
  exact hSpliced

end Exact

section Run

variable {nfkc : Text → Text} {generateDiff : Text → Text → DiffStringResult} {path absolutePath : String}
  {ops : EditOperations} {edits : List Edit} {signal : Option AbortSignal} {raw : Bytes} {answer : ToolExecutionResult}

theorem executeEditLocked_reads
    (hDone : (executeEditLocked nfkc generateDiff path absolutePath ops edits signal).result = some (.ok answer)) :
    ∃ raw, ops.readFile = .ok raw ∧ executeEditLocked nfkc generateDiff path absolutePath ops edits signal =
      editContent nfkc generateDiff path ops edits raw := by
  rw [executeEditLocked] at hDone ⊢
  split at hDone
  next => cases hDone
  next hStart =>
    rw [if_neg hStart]
    split at hDone
    next => cases hDone
    next =>
      split at hDone
      next => cases hDone
      next hAfter =>
        rw [if_neg hAfter]
        split at hDone
        next => cases hDone
        next raw hRead => exact ⟨raw, hRead, rfl⟩

theorem editContent_steps (hDone : (editContent nfkc generateDiff path ops edits raw).result = some (.ok answer)) :
    ∃ applied, applyEditsToNormalizedContent nfkc (normalizeToLf (stripBom (Utf8.lossy raw)).2) edits path =
        some (.ok applied) ∧
      (editContent nfkc generateDiff path ops edits raw).writes = [(stripBom (Utf8.lossy raw)).1 ++
        restoreLineEndings applied.newContent (detectLineEnding (stripBom (Utf8.lossy raw)).2)] := by
  rw [editContent] at hDone ⊢
  dsimp only at hDone ⊢
  generalize applyEditsToNormalizedContent nfkc (normalizeToLf (stripBom (Utf8.lossy raw)).2) edits path = outcome
    at hDone ⊢
  match outcome, hDone with
  | some (.ok applied), hDone =>
    refine ⟨applied, rfl, ?_⟩
    dsimp only
    split
    · rfl
    · rfl

theorem edit_writes_nothing (hFails : signal.any AbortSignal.atStart = true ∨ (∃ err, ops.access = .error err) ∨
      signal.any AbortSignal.afterAccess = true ∨ (∃ err, ops.readFile = .error err) ∨
      ∃ raw message, ops.readFile = .ok raw ∧
        applyEditsToNormalizedContent nfkc (normalizeToLf (stripBom (Utf8.lossy raw)).2) edits path = some
          (.error message)) :
    (executeEditLocked nfkc generateDiff path absolutePath ops edits signal).writes = [] := by
  rw [executeEditLocked]
  split
  · rfl
  next hStart =>
    split
    · rfl
    next hAccess =>
      split
      · rfl
      next hAfter =>
        split
        · rfl
        next raw hRead =>
          obtain h | ⟨err, h⟩ | h | ⟨err, h⟩ | ⟨raw', message, hRaw, hError⟩ := hFails
          · exact absurd h hStart
          · rw [hAccess] at h
            cases h
          · exact absurd h hAfter
          · rw [hRead] at h
            cases h
          · rw [hRead] at hRaw
            obtain rfl := Except.ok.inj hRaw
            rw [editContent]
            dsimp only
            rw [hError]
            rfl

end Run

/-- A run that fails in front of the write writes nothing, and one that succeeds changes nothing but the matched regions
exactly when every other line end is of the kind of the file's first newline. -/
theorem edit_keeps_outside (nfkc : Text → Text) (generateDiff : Text → Text → DiffStringResult)
    (path absolutePath : String)
    (ops : EditOperations) (edits : List Edit) (signal : Option AbortSignal) :
    (∀ file, ops.readFile = .ok (utf8 file) → (∀ edit ∈ edits, MatchesExactly (normalizeToLf (stripBom file).2) edit) →
      ∀ answer, (executeEditLocked nfkc generateDiff path absolutePath ops edits signal).result = some (.ok answer) →
        ∃ written, (executeEditLocked nfkc generateDiff path absolutePath ops edits signal).writes = [written] ∧
          (OnlyMatchedReplaced file edits written ↔ EndsAlike file edits)) ∧
    (signal.any AbortSignal.atStart = true ∨ (∃ err, ops.access = .error err) ∨
      signal.any AbortSignal.afterAccess = true ∨ (∃ err, ops.readFile = .error err) ∨
      (∃ raw message, ops.readFile = .ok raw ∧
        applyEditsToNormalizedContent nfkc (normalizeToLf (stripBom (Utf8.lossy raw)).2) edits path = some
          (.error message)) →
      (executeEditLocked nfkc generateDiff path absolutePath ops edits signal).writes = []) := by
  refine ⟨?_, edit_writes_nothing⟩
  intro file hRead hExact answer hDone
  obtain ⟨raw, hRaw, hRun⟩ := executeEditLocked_reads hDone
  rw [hRead] at hRaw
  obtain rfl := Except.ok.inj hRaw
  rw [hRun] at hDone ⊢
  obtain ⟨applied, hApplied, hWrites⟩ := editContent_steps hDone
  have hFile : Utf8.lossy (utf8 file) = file := Utf8.lossy_encode file
  rw [hFile] at hApplied hWrites
  refine ⟨_, hWrites, ?_⟩
  rw [EndsAlike, ← restore_iff_endsAlike (applied_spliced hExact hApplied), OnlyMatchedReplaced]
  constructor
  · rintro ⟨out, hOut, hSame⟩
    exact ⟨out, hOut, List.append_cancel_left hSame⟩
  · rintro ⟨out, hOut, hSame⟩
    exact ⟨out, hOut, by rw [hSame]⟩

def fileOperations (file : Text) : EditOperations :=
  ⟨.ok (), .ok (utf8 file), fun _ => .ok ()⟩

def firstLineRun (file : Text) : EditRun :=
  executeEditLocked id (fun _ _ => ⟨[], none⟩) "f" "/f" (fileOperations file) [⟨['a'], ['x']⟩] none

theorem edit_keeps_outside_crlf : ∃ written, (firstLineRun ['a', '\r', '\n', 'b']).writes = [written] ∧
    OnlyMatchedReplaced ['a', '\r', '\n', 'b'] [⟨['a'], ['x']⟩] written := by
  have hExact : ∀ edit ∈ [Edit.mk ['a'] ['x']], MatchesExactly (normalizeToLf (stripBom ['a', '\r', '\n', 'b']).2)
    edit := by
    rintro _ (_ | ⟨_, ⟨⟩⟩)
    rfl
  obtain ⟨written, hWritten, hIff⟩ := (edit_keeps_outside id (fun _ _ => ⟨[], none⟩) "f" "/f"
    (fileOperations ['a', '\r', '\n', 'b']) [⟨['a'], ['x']⟩] none).1 _ rfl hExact _ rfl
  exact ⟨written, hWritten, hIff.mpr (by decide)⟩

def mixedFile : Text :=
  ['a', '\n', 'b', '\r', '\n', 'c']

theorem edit_keeps_outside_mixed :
    (∀ edit ∈ [Edit.mk ['a'] ['x']], MatchesExactly (normalizeToLf (stripBom mixedFile).2) edit) ∧
    (∃ answer, (firstLineRun mixedFile).result = some (.ok answer)) ∧
    (firstLineRun mixedFile).writes = [['x', '\n', 'b', '\n', 'c']] ∧
    ¬ OnlyMatchedReplaced mixedFile [⟨['a'], ['x']⟩] ['x', '\n', 'b', '\n', 'c'] := by
  refine ⟨?_, ⟨_, rfl⟩, rfl, ?_⟩
  · rintro _ (_ | ⟨_, ⟨⟩⟩)
    rfl
  · rintro ⟨out, hOut, hSame⟩
    have hFile := hOut.spliceAll unitWeight_pos [] rfl
    have hWanted : spliceAll unitWeight (fileRegions (stripBom mixedFile).2 [⟨['a'], ['x']⟩])
      (units (stripBom mixedFile).2) =
        some [['x'], ['\n'], ['b'], ['\r', '\n'], ['c']] := by rfl
    rw [List.nil_append, hWanted] at hFile
    obtain rfl := Option.some.inj hFile
    revert hSame
    decide

end PrimeAgent.Tools
