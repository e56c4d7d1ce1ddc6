import PrimeAgent.Tools.Truncate
import Mathlib.Logic.Relation

/-! # Keeping the whole output in a file

Output past the limits is spilled to a temporary file. Any call on the file can fail; a spill that has failed stays failed
and its path is not told.
-/
namespace PrimeAgent.Tools

/-- The files, the calls made so far, and whether a file could not be opened or written. -/
structure Disk where
  files : Text → Option Bytes
  calls : Nat
  faulted : Bool

/-- Which calls fail, how many bytes a failing write puts out, and the temporary paths by call. -/
structure Host where
  fails : Nat → Bool
  written : Nat → Nat
  tempFilePath : Text → Nat → Text

namespace Disk

/-- `File::create`. -/
def create (host : Host) (path : Text) (disk : Disk) : Bool × Disk :=
  if host.fails disk.calls then (false, { disk with calls := disk.calls + 1, faulted := true })
  else (true, { disk with files := Function.update disk.files path (some []), calls := disk.calls + 1 })

def writeAll (host : Host) (path : Text) (chunk : Bytes) (disk : Disk) : Bool × Disk :=
  let contents := (disk.files path).getD []
  if host.fails disk.calls then
    (false, {
      files := Function.update disk.files path (some (contents ++ chunk.take (host.written disk.calls)))
      calls := disk.calls + 1
      faulted := true })
  else
    (true, { disk with
      files := Function.update disk.files path (some (contents ++ chunk))
      calls := disk.calls + 1 })

/-- `let _ = remove_file(..)`: the file may stay. -/
def removeFile (host : Host) (path : Text) (disk : Disk) : Disk :=
  if host.fails disk.calls then { disk with calls := disk.calls + 1 }
  else { disk with files := Function.update disk.files path none, calls := disk.calls + 1 }

def writeChunks (host : Host) (path : Text) : List Bytes → Disk → Bool × Disk
  | [], disk => (true, disk)
  | chunk :: chunks, disk =>
    let (ok, disk) := disk.writeAll host path chunk
    if ok then writeChunks host path chunks disk else (false, disk)

end Disk

structure OutputSpill where
  tempFilePrefix : Text
  path : Option Text
  file : Option Text
  failed : Bool

namespace OutputSpill

def new (tempFilePrefix : Text) : OutputSpill :=
  ⟨tempFilePrefix, none, none, false⟩

def isOpen (spill : OutputSpill) : Bool :=
  spill.file.isSome

def currentPath (spill : OutputSpill) : Option Text :=
  spill.path

def openWith (host : Host) (replay : List Bytes) (spill : OutputSpill) (disk : Disk) : OutputSpill × Disk :=
  if spill.file.isSome ∨ spill.failed = true then (spill, disk)
  else
    let path := host.tempFilePath spill.tempFilePrefix disk.calls
    let (created, disk) := disk.create host path
    if created then
      let (ok, disk) := disk.writeChunks host path replay
      if ok then ({ spill with path := some path, file := some path }, disk)
      else ({ spill with path := none, file := none, failed := true }, disk.removeFile host path)
    else ({ spill with path := none, failed := true }, disk)

def write (host : Host) (chunk : Bytes) (spill : OutputSpill) (disk : Disk) : OutputSpill × Disk :=
  match spill.file with
  | none => (spill, disk)
  | some file =>
    let (ok, disk) := disk.writeAll host file chunk
    if ok then (spill, disk)
    else
      ({ spill with path := none, file := none, failed := true },
        match spill.path with
        | some path => disk.removeFile host path
        | none => disk)

def finalizeSync (spill : OutputSpill) : OutputSpill :=
  { spill with file := none }

end OutputSpill

structure OutputAccumulatorOptions where
  maxLines : Nat
  maxBytes : Nat
  tempFilePrefix : Text

structure OutputSnapshot where
  content : Text
  truncation : TruncationResult
  fullOutputPath : Option Text

structure OutputAccumulator where
  maxLines : Nat
  maxBytes : Nat
  maxRollingBytes : Nat
  decoder : StreamingUtf8
  rawChunks : List Bytes
  tailText : Text
  tailBytes : Nat
  tailStartsAtLineBoundary : Bool
  totalRawBytes : Nat
  totalDecodedBytes : Nat
  totalLines : Nat
  currentLineBytes : Nat
  finished : Bool
  spill : OutputSpill

namespace OutputAccumulator

def new (options : OutputAccumulatorOptions) : OutputAccumulator where
  maxLines := options.maxLines
  maxBytes := options.maxBytes
  maxRollingBytes := max (options.maxBytes * 2) 1
  decoder := .empty
  rawChunks := []
  tailText := []
  tailBytes := 0
  tailStartsAtLineBoundary := true
  totalRawBytes := 0
  totalDecodedBytes := 0
  totalLines := 1
  currentLineBytes := 0
  finished := false
  spill := .new options.tempFilePrefix

def trimTail (acc : OutputAccumulator) : OutputAccumulator :=
  let buffer := utf8 acc.tailText
  if buffer.length ≤ acc.maxRollingBytes then { acc with tailBytes := buffer.length }
  else
    let rest := (buffer.drop (buffer.length - acc.maxRollingBytes)).dropWhile fun b => b &&& 0xC0 = 0x80
    let start := buffer.length - rest.length
    let tailText := Utf8.lossy rest
    { acc with
      tailStartsAtLineBoundary := if start = 0 then acc.tailStartsAtLineBoundary else buffer[start - 1]? == some 0x0A
      tailText
      tailBytes := byteLength tailText }

def appendDecodedText (text : Text) (acc : OutputAccumulator) : OutputAccumulator :=
  if text.isEmpty then acc
  else
    let bytes := byteLength text
    let acc := { acc with
      totalDecodedBytes := acc.totalDecodedBytes + bytes
      tailText := acc.tailText ++ text
      tailBytes := acc.tailBytes + bytes }
    let acc := if acc.maxRollingBytes * 2 < acc.tailBytes then acc.trimTail else acc
    let newlines := text.count '\n'
    if newlines = 0 then { acc with currentLineBytes := acc.currentLineBytes + bytes }
    else
      { acc with
        totalLines := acc.totalLines + newlines
        currentLineBytes := byteLength (text.reverse.takeWhile (· ≠ '\n')).reverse }

def shouldUseTempFile (acc : OutputAccumulator) : Bool :=
  acc.maxBytes < acc.totalRawBytes || acc.maxBytes < acc.totalDecodedBytes || acc.maxLines < acc.totalLines

def ensureTempFile (host : Host) (acc : OutputAccumulator) (disk : Disk) : OutputAccumulator × Disk :=
  let (spill, disk) := acc.spill.openWith host acc.rawChunks disk
  ({ acc with spill, rawChunks := [] }, disk)

/-- `none` is the panic of a finished accumulator. -/
def append (host : Host) (data : Bytes) (acc : OutputAccumulator) (disk : Disk) : Option (OutputAccumulator × Disk) :=
  if acc.finished then none
  else
    let (decoded, decoder) := acc.decoder.decodeChunk data
    let acc := appendDecodedText decoded { acc with totalRawBytes := acc.totalRawBytes + data.length, decoder }
    if acc.spill.isOpen || acc.shouldUseTempFile then
      let (acc, disk) := acc.ensureTempFile host disk
      let (spill, disk) := acc.spill.write host data disk
      some ({ acc with spill }, disk)
    else if data.isEmpty then some (acc, disk)
    else some ({ acc with rawChunks := acc.rawChunks ++ [data] }, disk)

def finish (host : Host) (acc : OutputAccumulator) (disk : Disk) : OutputAccumulator × Disk :=
  if acc.finished then (acc, disk)
  else
    let acc := appendDecodedText acc.decoder.flush { acc with finished := true, decoder := .empty }
    if acc.shouldUseTempFile then acc.ensureTempFile host disk else (acc, disk)

def closeTempFileSync (acc : OutputAccumulator) : OutputAccumulator :=
  { acc with spill := acc.spill.finalizeSync }

def getSnapshotText (acc : OutputAccumulator) : Text :=
  if acc.tailStartsAtLineBoundary then acc.tailText
  else if '\n' ∈ acc.tailText then (acc.tailText.dropWhile (· ≠ '\n')).drop 1
  else acc.tailText

def snapshot (acc : OutputAccumulator) : OutputSnapshot :=
  let tailTruncation := truncateTail acc.getSnapshotText ⟨acc.maxLines, acc.maxBytes⟩
  let truncated := acc.maxLines < acc.totalLines || acc.maxBytes < acc.totalDecodedBytes
  let truncatedBy := if truncated
    then tailTruncation.truncatedBy <|> some (if acc.maxBytes < acc.totalDecodedBytes then .bytes else .lines)
    else none
  let truncation := { tailTruncation with
    truncated
    truncatedBy
    totalLines := acc.totalLines
    totalBytes := acc.totalDecodedBytes
    maxLines := acc.maxLines
    maxBytes := acc.maxBytes }
  { content := truncation.content, truncation, fullOutputPath := acc.spill.currentPath }

end OutputAccumulator

structure Session where
  acc : OutputAccumulator
  disk : Disk
  appended : List Bytes

def Session.start (options : OutputAccumulatorOptions) (disk : Disk) : Session :=
  ⟨.new options, disk, []⟩

inductive Session.Step (host : Host) : Session → Session → Prop where
  | append {s : Session} {data : Bytes} {acc : OutputAccumulator} {disk : Disk}
      (hAppend : s.acc.append host data s.disk = some (acc, disk)) : Step host s ⟨acc, disk, s.appended ++ [data]⟩
  | finish {s : Session} :
      Step host s ⟨(s.acc.finish host s.disk).1, (s.acc.finish host s.disk).2, s.appended⟩
  | close {s : Session} (hFinished : s.acc.finished = true) : Step host s { s with acc := s.acc.closeTempFileSync }

section Spill

variable {host : Host} {spill : OutputSpill} {disk : Disk} {path : Text} {chunk contents : Bytes} {replay : List Bytes}

/-- A spill that has not failed holds what was written; one that has failed has no path. -/
structure OutputSpill.Holds (spill : OutputSpill) (disk : Disk) (contents : Bytes) : Prop where
  failed : spill.failed = disk.faulted
  degraded : spill.failed = true → spill.path = none ∧ spill.file = none
  opened : ∀ path, spill.file = some path → spill.path = some path
  complete : ∀ path, spill.path = some path → disk.files path = some contents

theorem OutputSpill.Holds.of_failed (hFailed : spill.failed = true) (hFaulted : disk.faulted = true) (hPath : spill.path = none)
    (hFile : spill.file = none) : spill.Holds disk contents where
  failed := hFailed.trans hFaulted.symm
  degraded := fun _ => ⟨hPath, hFile⟩
  opened := fun path h => by rw [hFile] at h; cases h
  complete := fun path h => by rw [hPath] at h; cases h

theorem create_cases (host : Host) (path : Text) (disk : Disk) :
    (∃ disk', disk.create host path = (true, disk') ∧ disk'.files path = some [] ∧ disk'.faulted = disk.faulted) ∨
      ∃ disk', disk.create host path = (false, disk') ∧ disk'.faulted = true := by
  rw [Disk.create]
  split
  · exact Or.inr ⟨_, rfl, rfl⟩
  · exact Or.inl ⟨_, rfl, Function.update_self .., rfl⟩

theorem writeAll_cases (host : Host) (chunk : Bytes) (hFile : disk.files path = some contents) :
    (∃ disk', disk.writeAll host path chunk = (true, disk') ∧ disk'.files path = some (contents ++ chunk) ∧
      disk'.faulted = disk.faulted) ∨
      ∃ disk', disk.writeAll host path chunk = (false, disk') ∧ disk'.faulted = true := by
  rw [Disk.writeAll]
  split
  · exact Or.inr ⟨_, rfl, rfl⟩
  · refine Or.inl ⟨_, rfl, ?_, rfl⟩
    dsimp only
    rw [Function.update_self, hFile, Option.getD_some]

theorem writeChunks_cases (host : Host) (path : Text) (replay : List Bytes) : ∀ (disk : Disk) (contents : Bytes),
    disk.files path = some contents →
    (∃ disk', disk.writeChunks host path replay = (true, disk') ∧
      disk'.files path = some (contents ++ replay.flatten) ∧ disk'.faulted = disk.faulted) ∨
      ∃ disk', disk.writeChunks host path replay = (false, disk') ∧ disk'.faulted = true := by
  induction replay with
  | nil =>
    intro disk contents hFile
    refine Or.inl ⟨disk, rfl, ?_, rfl⟩
    rw [List.flatten_nil, List.append_nil, hFile]
  | cons chunk replay ih =>
    intro disk contents hFile
    rw [Disk.writeChunks]
    rcases writeAll_cases host chunk hFile with ⟨disk', hWrite, hFile', hSame⟩ | ⟨disk', hWrite, hFaulted⟩
    · rw [hWrite]
      dsimp only
      rw [if_pos rfl, List.flatten_cons, ← List.append_assoc, ← hSame]
      exact ih disk' (contents ++ chunk) hFile'
    · rw [hWrite]
      exact Or.inr ⟨disk', rfl, hFaulted⟩

theorem removeFile_faulted (host : Host) (path : Text) (disk : Disk) : (disk.removeFile host path).faulted = disk.faulted := by
  rw [Disk.removeFile]
  split <;> rfl

theorem openWith_holds (host : Host) (hHolds : spill.Holds disk contents)
    (hReplay : spill.file = none → spill.failed = false → replay.flatten = contents) :
    (spill.openWith host replay disk).1.Holds (spill.openWith host replay disk).2 contents ∧
      ((spill.openWith host replay disk).1.failed = false → ∃ path, (spill.openWith host replay disk).1.file = some path) := by
  rw [OutputSpill.openWith]
  split
  · rename_i hSkip
    refine ⟨hHolds, fun hNot => ?_⟩
    rcases hSkip with hOpen | hFailed
    · exact Option.isSome_iff_exists.mp hOpen
    · rw [hNot] at hFailed
      cases hFailed
  · rename_i hOpen
    obtain ⟨hClosed, hSound⟩ := not_or.mp hOpen
    have hNone : spill.file = none := Option.not_isSome_iff_eq_none.mp hClosed
    have hFalse : spill.failed = false := Bool.eq_false_iff.mpr hSound
    generalize host.tempFilePath spill.tempFilePrefix disk.calls = path
    dsimp only
    rcases create_cases host path disk with ⟨disk', hCreate, hEmpty, hSame⟩ | ⟨disk', hCreate, hFaulted⟩
    · rw [hCreate]
      dsimp only
      rw [if_pos rfl]
      rcases writeChunks_cases host path replay disk' [] hEmpty with ⟨disk'', hWrite, hFile, hSame'⟩ | ⟨disk'', hWrite, hFaulted⟩
      · rw [hWrite]
        dsimp only
        rw [if_pos rfl]
        rw [List.nil_append, hReplay hNone hFalse] at hFile
        refine ⟨⟨?_, fun hFailed => ?_, fun path h => h, fun path h => ?_⟩, fun _ => ⟨_, rfl⟩⟩
        · exact hHolds.failed.trans (hSame.symm.trans hSame'.symm)
        · exact absurd hFailed hSound
        · obtain rfl := Option.some.inj h
          exact hFile
      · rw [hWrite]
        refine ⟨.of_failed rfl ?_ rfl rfl, fun h => nomatch h⟩
        exact (removeFile_faulted ..).trans hFaulted
    · rw [hCreate]
      exact ⟨.of_failed rfl hFaulted rfl hNone, fun h => nomatch h⟩

theorem write_holds (host : Host) (chunk : Bytes) (hHolds : spill.Holds disk contents)
    (hOpen : spill.failed = false → ∃ path, spill.file = some path) :
    (spill.write host chunk disk).1.Holds (spill.write host chunk disk).2 (contents ++ chunk) ∧
      ((spill.write host chunk disk).1.failed = false → ∃ path, (spill.write host chunk disk).1.file = some path) := by
  rw [OutputSpill.write]
  cases hFile : spill.file with
  | none =>
    have hFailed : spill.failed = true := by
      by_contra hNot
      obtain ⟨path, hPath⟩ := hOpen (Bool.eq_false_iff.mpr hNot)
      rw [hFile] at hPath
      cases hPath
    refine ⟨.of_failed hFailed (hHolds.failed.symm.trans hFailed) (hHolds.degraded hFailed).1 hFile, fun h => ?_⟩
    exact absurd (hFailed.symm.trans h) Bool.noConfusion
  | some path =>
    have hPath := hHolds.opened path hFile
    dsimp only
    rcases writeAll_cases host chunk (hHolds.complete path hPath) with ⟨disk', hWrite, hFile', hSame⟩ | ⟨disk', hWrite, hFaulted⟩
    · rw [hWrite]
      dsimp only
      rw [if_pos rfl]
      refine ⟨⟨hHolds.failed.trans hSame.symm, hHolds.degraded, hHolds.opened, fun path' h => ?_⟩, fun _ => ⟨path, hFile⟩⟩
      obtain rfl := Option.some.inj (hPath.symm.trans h)
      exact hFile'
    · rw [hWrite]
      dsimp only
      rw [if_neg Bool.false_ne_true, hPath]
      exact ⟨.of_failed rfl ((removeFile_faulted ..).trans hFaulted) rfl rfl, fun h => nomatch h⟩

end Spill

section Accumulator

variable {host : Host} {acc : OutputAccumulator} {disk : Disk} {text data : Bytes} {appended : List Bytes}

theorem trimTail_keeps (acc : OutputAccumulator) : acc.trimTail.spill = acc.spill ∧
    acc.trimTail.rawChunks = acc.rawChunks ∧ acc.trimTail.finished = acc.finished := by
  rw [OutputAccumulator.trimTail]
  split <;> exact ⟨rfl, rfl, rfl⟩

theorem appendDecodedText_keeps (text : Text) (acc : OutputAccumulator) : (acc.appendDecodedText text).spill = acc.spill ∧
    (acc.appendDecodedText text).rawChunks = acc.rawChunks ∧ (acc.appendDecodedText text).finished = acc.finished := by
  have hIf (p : Prop) [Decidable p] (acc : OutputAccumulator) : (if p then acc.trimTail else acc).spill = acc.spill ∧
      (if p then acc.trimTail else acc).rawChunks = acc.rawChunks ∧
      (if p then acc.trimTail else acc).finished = acc.finished := by
    split
    · exact trimTail_keeps acc
    · exact ⟨rfl, rfl, rfl⟩
  rw [OutputAccumulator.appendDecodedText]
  split
  · exact ⟨rfl, rfl, rfl⟩
  · dsimp only
    split <;> exact hIf _ _

/-- The spill holds what was appended. While it has no path, the chunks wait in memory, and no limit is passed, but for a
limit of no lines at the start. -/
structure OutputAccumulator.Holds (acc : OutputAccumulator) (disk : Disk) (appended : List Bytes) : Prop where
  spill : acc.spill.Holds disk appended.flatten
  unsettled : acc.finished = false → acc.spill.file = none → acc.spill.path = none
  buffered : acc.spill.path = none → acc.spill.failed = false → acc.rawChunks.flatten = appended.flatten ∧
    (acc.finished = true ∨ appended ≠ [] → acc.shouldUseTempFile = false)

theorem ensureTempFile_holds (host : Host) (hSpill : acc.spill.Holds disk appended.flatten)
    (hRaw : acc.spill.file = none → acc.spill.failed = false → acc.rawChunks.flatten = appended.flatten) :
    (acc.ensureTempFile host disk).1.spill.Holds (acc.ensureTempFile host disk).2 appended.flatten ∧
      ((acc.ensureTempFile host disk).1.spill.failed = false →
        ∃ path, (acc.ensureTempFile host disk).1.spill.file = some path) :=
  openWith_holds host hSpill hRaw

theorem holds_of_open (hSpill : acc.spill.Holds disk appended.flatten)
    (hOpen : acc.spill.failed = false → ∃ path, acc.spill.file = some path) : acc.Holds disk appended where
  spill := hSpill
  unsettled := by
    intro _ hNone
    refine (hSpill.degraded ?_).1
    by_contra hNot
    obtain ⟨path, hFile⟩ := hOpen (Bool.eq_false_iff.mpr hNot)
    rw [hNone] at hFile
    cases hFile
  buffered := by
    intro hPath hSound
    obtain ⟨path, hFile⟩ := hOpen hSound
    rw [hSpill.opened path hFile] at hPath
    cases hPath

theorem append_holds (hHolds : acc.Holds disk appended) {acc' : OutputAccumulator} {disk' : Disk}
    (hAppend : acc.append host data disk = some (acc', disk')) : acc'.Holds disk' (appended ++ [data]) := by
  have hFlatten : (appended ++ [data]).flatten = appended.flatten ++ data := by
    rw [List.flatten_append, List.flatten_singleton]
  rw [OutputAccumulator.append] at hAppend
  split at hAppend
  · cases hAppend
  rename_i hRunning
  have hFinished : acc.finished = false := Bool.eq_false_iff.mpr hRunning
  generalize acc.decoder.decodeChunk data = decodedChunk at hAppend
  obtain ⟨decoded, decoder⟩ := decodedChunk
  dsimp only at hAppend
  obtain ⟨hSpill, hRaw, hSame⟩ := appendDecodedText_keeps decoded
    { acc with totalRawBytes := acc.totalRawBytes + data.length, decoder }
  generalize OutputAccumulator.appendDecodedText decoded
    { acc with totalRawBytes := acc.totalRawBytes + data.length, decoder } = told at hAppend hSpill hRaw hSame
  dsimp only at hSpill hRaw hSame
  have hOldSpill : told.spill.Holds disk appended.flatten := hSpill ▸ hHolds.spill
  have hNoPath : told.spill.file = none → told.spill.path = none := by
    rw [hSpill]
    exact hHolds.unsettled hFinished
  have hBuffered : told.spill.path = none → told.spill.failed = false → told.rawChunks.flatten = appended.flatten := by
    rw [hSpill, hRaw]
    exact fun hPath hSound => (hHolds.buffered hPath hSound).1
  split at hAppend
  · obtain ⟨hEnsured, hOpen⟩ := @ensureTempFile_holds told disk appended host hOldSpill
      fun hNone => hBuffered (hNoPath hNone)
    generalize told.ensureTempFile host disk = ensured at hAppend hEnsured hOpen
    obtain ⟨ensured, disk₁⟩ := ensured
    obtain ⟨hWritten, hOpen'⟩ := write_holds host data hEnsured hOpen
    obtain ⟨rfl, rfl⟩ := Prod.mk.inj (Option.some.inj hAppend)
    refine holds_of_open ?_ hOpen'
    rw [hFlatten]
    exact hWritten
  · rename_i hMemory
    rw [Bool.or_eq_true, not_or] at hMemory
    obtain ⟨hClosed, hWithin⟩ := hMemory
    have hNone : told.spill.file = none := Option.not_isSome_iff_eq_none.mp hClosed
    have hPath := hNoPath hNone
    have hSpill' : told.spill.Holds disk (appended ++ [data]).flatten :=
      ⟨hOldSpill.failed, hOldSpill.degraded, hOldSpill.opened, fun path h => by rw [hPath] at h; cases h⟩
    split at hAppend
    · rename_i hEmpty
      obtain ⟨rfl, rfl⟩ := Prod.mk.inj (Option.some.inj hAppend)
      refine ⟨hSpill', fun _ _ => hPath, fun _ hSound => ⟨?_, fun _ => Bool.eq_false_iff.mpr hWithin⟩⟩
      rw [hFlatten, List.isEmpty_iff.mp hEmpty, List.append_nil]
      exact hBuffered hPath hSound
    · obtain ⟨rfl, rfl⟩ := Prod.mk.inj (Option.some.inj hAppend)
      refine ⟨hSpill', fun _ _ => hPath, fun _ hSound => ⟨?_, fun _ => Bool.eq_false_iff.mpr hWithin⟩⟩
      dsimp only
      rw [hFlatten, List.flatten_append, List.flatten_singleton, hBuffered hPath hSound]

theorem finish_holds (host : Host) (hHolds : acc.Holds disk appended) :
    (acc.finish host disk).1.Holds (acc.finish host disk).2 appended := by
  rw [OutputAccumulator.finish]
  split
  · exact hHolds
  rename_i hRunning
  have hFinished : acc.finished = false := Bool.eq_false_iff.mpr hRunning
  obtain ⟨hSpill, hRaw, hSame⟩ := appendDecodedText_keeps acc.decoder.flush { acc with finished := true, decoder := .empty }
  dsimp only
  generalize OutputAccumulator.appendDecodedText acc.decoder.flush { acc with finished := true, decoder := .empty } =
    told at hSpill hRaw hSame ⊢
  dsimp only at hSpill hRaw hSame
  have hOldSpill : told.spill.Holds disk appended.flatten := hSpill ▸ hHolds.spill
  have hBuffered : told.spill.path = none → told.spill.failed = false → told.rawChunks.flatten = appended.flatten := by
    rw [hSpill, hRaw]
    exact fun hPath hSound => (hHolds.buffered hPath hSound).1
  have hNoPath : told.spill.file = none → told.spill.path = none := by
    rw [hSpill]
    exact hHolds.unsettled hFinished
  split
  · obtain ⟨hEnsured, hOpen⟩ := @ensureTempFile_holds told disk appended host hOldSpill
      fun hNone => hBuffered (hNoPath hNone)
    exact holds_of_open hEnsured hOpen
  · rename_i hWithin
    exact ⟨hOldSpill, fun _ => hNoPath, fun hPath hSound => ⟨hBuffered hPath hSound, fun _ => Bool.eq_false_iff.mpr hWithin⟩⟩

theorem close_holds (hFinished : acc.finished = true) (hHolds : acc.Holds disk appended) :
    acc.closeTempFileSync.Holds disk appended where
  spill := {
    failed := hHolds.spill.failed
    degraded := fun hFailed => ⟨(hHolds.spill.degraded hFailed).1, rfl⟩
    opened := fun _ h => nomatch h
    complete := hHolds.spill.complete }
  unsettled := fun hNot => absurd (hFinished.symm.trans hNot) Bool.noConfusion
  buffered := hHolds.buffered

end Accumulator

section Run

variable {host : Host} {options : OutputAccumulatorOptions} {disk : Disk} {s s' : Session}

def Session.Holds (s : Session) : Prop :=
  s.acc.Holds s.disk s.appended

theorem start_holds (hSound : disk.faulted = false) : (Session.start options disk).Holds where
  spill := {
    failed := hSound.symm
    degraded := fun h => nomatch h
    opened := fun _ h => nomatch h
    complete := fun _ h => nomatch h }
  unsettled := fun _ _ => rfl
  buffered := fun _ _ => ⟨rfl, fun h => h.elim (fun h => nomatch h) (fun h => absurd rfl h)⟩

theorem step_holds (hHolds : s.Holds) (hStep : Session.Step host s s') : s'.Holds := by
  cases hStep with
  | append hAppend => exact append_holds hHolds hAppend
  | finish => exact finish_holds host hHolds
  | close hFinished => exact close_holds hFinished hHolds

theorem run_holds (hHolds : s.Holds) (hRun : Relation.ReflTransGen (Session.Step host) s s') : s'.Holds := by
  induction hRun with
  | refl => exact hHolds
  | tail _ hStep ih => exact step_holds ih hStep

theorem ensureTempFile_failed {acc : OutputAccumulator} (hFailed : acc.spill.failed = true) (disk : Disk) :
    acc.ensureTempFile host disk = ({ acc with rawChunks := [] }, disk) := by
  rw [OutputAccumulator.ensureTempFile, OutputSpill.openWith, if_pos (Or.inr hFailed)]

theorem step_faulted (hHolds : s.Holds) (hStep : Session.Step host s s') (hFaulted : s.disk.faulted = true) :
    s'.disk.faulted = true := by
  have hFailed : s.acc.spill.failed = true := hHolds.spill.failed.trans hFaulted
  have hFile := (hHolds.spill.degraded hFailed).2
  cases hStep with
  | @append data acc disk hAppend =>
    rw [OutputAccumulator.append] at hAppend
    split at hAppend
    · cases hAppend
    generalize s.acc.decoder.decodeChunk data = decodedChunk at hAppend
    obtain ⟨decoded, decoder⟩ := decodedChunk
    dsimp only at hAppend
    obtain ⟨hSpill, -, -⟩ := appendDecodedText_keeps decoded
      { s.acc with totalRawBytes := s.acc.totalRawBytes + data.length, decoder }
    generalize OutputAccumulator.appendDecodedText decoded
      { s.acc with totalRawBytes := s.acc.totalRawBytes + data.length, decoder } = told at hAppend hSpill
    dsimp only at hSpill
    split at hAppend
    · rw [ensureTempFile_failed (hSpill ▸ hFailed)] at hAppend
      dsimp only at hAppend
      rw [OutputSpill.write, hSpill, hFile] at hAppend
      obtain ⟨-, rfl⟩ := Prod.mk.inj (Option.some.inj hAppend)
      exact hFaulted
    · split at hAppend
      · obtain ⟨-, rfl⟩ := Prod.mk.inj (Option.some.inj hAppend)
        exact hFaulted
      · obtain ⟨-, rfl⟩ := Prod.mk.inj (Option.some.inj hAppend)
        exact hFaulted
  | finish =>
    dsimp only
    rw [OutputAccumulator.finish]
    split
    · exact hFaulted
    obtain ⟨hSpill, -, -⟩ := appendDecodedText_keeps s.acc.decoder.flush { s.acc with finished := true, decoder := .empty }
    dsimp only at hSpill ⊢
    split
    · rw [ensureTempFile_failed (by rw [hSpill]; exact hFailed)]
      exact hFaulted
    · exact hFaulted
  | close _ => exact hFaulted

theorem run_faulted (hHolds : s.Holds) (hRun : Relation.ReflTransGen (Session.Step host) s s')
    (hFaulted : s.disk.faulted = true) : s'.disk.faulted = true := by
  induction hRun with
  | refl => exact hFaulted
  | tail hRun hStep ih => exact step_faulted (run_holds hHolds hRun) hStep ih

/-- A path that is told is of a file with all that was appended; a fault ends the telling; and a truncated output without
one has a path. -/
theorem session_spill (hSound : disk.faulted = false)
    (hRun : Relation.ReflTransGen (Session.Step host) (Session.start options disk) s)
    (hLater : Relation.ReflTransGen (Session.Step host) s s') :
    (∀ path, s.acc.snapshot.fullOutputPath = some path → s.disk.files path = some s.appended.flatten) ∧
      (s.disk.faulted = true → s'.acc.snapshot.fullOutputPath = none) ∧
      (s.disk.faulted = false → s.acc.finished = true ∨ s.appended ≠ [] → s.acc.snapshot.truncation.truncated = true →
        ∃ path, s.acc.snapshot.fullOutputPath = some path) := by
  have hHolds := run_holds (start_holds hSound) hRun
  have hHolds' := run_holds hHolds hLater
  refine ⟨hHolds.spill.complete, fun hFaulted => ?_, fun hNone hBegun hTruncated => ?_⟩
  · exact (hHolds'.spill.degraded (hHolds'.spill.failed.trans (run_faulted hHolds hLater hFaulted))).1
  · refine Option.ne_none_iff_exists'.mp fun hPath => ?_
    have hWithin := (hHolds.buffered hPath (hHolds.spill.failed.trans hNone)).2 hBegun
    change (decide (s.acc.maxLines < s.acc.totalLines) || decide (s.acc.maxBytes < s.acc.totalDecodedBytes)) = true at hTruncated
    rw [OutputAccumulator.shouldUseTempFile, Bool.or_eq_false_iff, Bool.or_eq_false_iff] at hWithin
    obtain ⟨⟨-, hDecoded⟩, hLines⟩ := hWithin
    rw [hLines, hDecoded] at hTruncated
    cases hTruncated

def calmHost : Host :=
  ⟨fun _ => false, fun _ => 0, fun tempFilePrefix _ => tempFilePrefix⟩

theorem session_spill_two : ∃ s, Relation.ReflTransGen (Session.Step calmHost)
      (Session.start ⟨10, 1, ['o']⟩ ⟨fun _ => none, 0, false⟩) s ∧
    s.appended = [[97], [98]] ∧ s.acc.snapshot.fullOutputPath = some ['o'] ∧ s.disk.files ['o'] = some [97, 98] := by
  refine ⟨_, .tail (.tail (.tail (.tail .refl (.append rfl)) (.append rfl)) .finish) (.close rfl), rfl, rfl, ?_⟩
  exact (session_spill rfl (.tail (.tail (.tail (.tail .refl (.append rfl)) (.append rfl)) .finish) (.close rfl)) .refl).1
    ['o'] rfl

end Run

end PrimeAgent.Tools
