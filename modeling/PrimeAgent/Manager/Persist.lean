import PrimeAgent.Manager.State
import PrimeAgent.Session.Migrate

/-! # Writing the session file

The manager on a disk: the whole rewrite, the durable append, and the rule that defers the first rows
of a session.
-/
namespace PrimeAgent

abbrev Disk := KeyMap Path Bytes

structure World where
  manager : SessionManager
  disk : Disk

/-- What one operation takes from outside: ids, the time, the repository, and how its writes end. The
`n`-th call of `generate_id` draws from `ids n`. -/
structure Env where
  ids : Nat → IdSource
  sessionIds : Nat → String
  now : String
  git : Option GitContext
  rootRlmDepth : Nat
  canRepair : Bool
  canWrite : Bool

inductive StoreError where
  | disk
  | invalidInput (text : String)
deriving DecidableEq

/-- `std::fs::read_to_string`. -/
def readToString (disk : Disk) (path : Path) : Option Text :=
  (disk.get path).bind Utf8.decode

/-- The text `try_rewrite_file` writes. -/
def fileContent (serde : Serde) (entries : List FileEntry) : Text :=
  List.intercalate ['\n'] (entries.map serde.writeEntry) ++ ['\n']

theorem fileContent_eq (serde : Serde) {entries : List FileEntry} (hSome : entries ≠ []) :
    fileContent serde entries = entries.flatMap (writeLine serde) := by
  rw [fileContent, intercalate_newline (by simpa using hSome), List.flatMap_map]
  rfl

namespace World

variable (serde : Serde) (env : Env)

def tryRewriteFile (w : World) : Except StoreError World :=
  match w.manager.sessionFile with
  | none => .ok w
  | some path =>
    if ¬ w.manager.persist then .ok w
    else if env.canWrite then
      .ok { w with disk := w.disk.insert path (utf8 (fileContent serde w.manager.fileEntries)) }
    else .error .disk

/-- `rewrite_file`: a failed rewrite is only logged. -/
def rewriteFile (w : World) : World :=
  match tryRewriteFile serde env w with
  | .ok w => w
  | .error _ => w

def setFlushed (w : World) (flushed : Bool) : World :=
  { w with manager := { w.manager with flushed := flushed } }

def flushNow (w : World) : Except StoreError World :=
  match w.manager.sessionFile with
  | none => .ok w
  | some path =>
    if ¬ w.manager.persist then .ok w
    else if w.manager.flushed ∧ w.disk.contains path then .ok w
    else (tryRewriteFile serde env w).map (·.setFlushed true)

/-- `append_cached`, as far as the file goes: the file must exist. -/
def appendLine (w : World) (path : Path) (entry : FileEntry) : Except StoreError World :=
  match w.disk.get path with
  | some bytes =>
    if env.canWrite then .ok { w with disk := w.disk.insert path (bytes ++ utf8 (writeLine serde entry)) }
    else .error .disk
  | none => .error .disk

def isSessionStateOrInfo : FileEntry → Bool
  | .sessionState _ _ | .sessionInfo _ _ => true
  | _ => false

/-- `persist_entry`, for the row just pushed. -/
def persistEntry (w : World) (entry : FileEntry) : Except StoreError World :=
  match w.manager.sessionFile with
  | none => .ok w
  | some path =>
    if ¬ w.manager.persist then .ok w
    else if ¬ w.manager.hasAssistantEntry ∧ ¬ isSessionStateOrInfo entry then .ok (w.setFlushed false)
    else if ¬ w.manager.flushed ∨ ¬ w.disk.contains path then
      (tryRewriteFile serde env w).map (·.setFlushed true)
    else appendLine serde env w path entry

end World

end PrimeAgent

/-! ## Repair on open

A bounded look at the tail of a session file decides whether it is scanned for crash damage; the scan
keeps what it can and rewrites the file when it found any.
-/
namespace PrimeAgent

/-- `REPAIR_SUSPICION_WINDOW_BYTES`. -/
def repairSuspicionWindowBytes : Nat :=
  1024 * 1024

/-- `serde_json::from_slice::<Value>` succeeds: the bytes are UTF-8 and a JSON value. -/
def parsesAsJson (serde : Serde) (line : Bytes) : Bool :=
  ((Utf8.decode line).bind serde.value).isSome

/-- `b'\n'`. -/
def newline : UInt8 :=
  0x0A

/-- `tail_looks_damaged`, on the bytes of an existing file. -/
def tailLooksDamaged (serde : Serde) (file : Bytes) : Bool :=
  let size := file.length
  if size = 0 then false
  else
    let windowBytes := min size repairSuspicionWindowBytes
    let window := file.drop (size - windowBytes)
    if window.contains 0 then true
    else if window.getLast? ≠ some newline then true
    else
      let before := window.dropLast
      let lastLine := before.rtakeWhile (· != newline)
      if lastLine.length = before.length then decide (windowBytes < size)
      else !lastLine.isEmpty && !parsesAsJson serde lastLine

def scanLine (serde : Serde) (piece : Bytes) (terminated final : Bool) : Option Bytes × Bool :=
  let line := piece.dropWhile (· == 0)
  let recovered := if !line.isEmpty && parsesAsJson serde line then some line else none
  if line.length < piece.length then (recovered, true)
  else if ¬ terminated then (recovered, true)
  else if final ∧ ¬ line.isEmpty ∧ ¬ parsesAsJson serde line then (none, true)
  else (some line, false)

/-- The loop of `repair_jsonl_damage` over the pieces between newlines; nothing follows a final newline. -/
def scanLines (serde : Serde) : List Bytes → List Bytes × Bool
  | [] => ([], false)
  | [piece] =>
    if piece.isEmpty then ([], false)
    else
      let scanned := scanLine serde piece false false
      (scanned.1.toList, scanned.2)
  | piece :: next :: rest =>
    let scanned := scanLine serde piece true (next.isEmpty && rest.isEmpty)
    let others := scanLines serde (next :: rest)
    (scanned.1.toList ++ others.1, scanned.2 || others.2)

def repairedContent (keptLines : List Bytes) : Text :=
  let content := List.intercalate ['\n'] (keptLines.map Utf8.lossy)
  if content.isEmpty then [] else content ++ ['\n']

def repairJsonlDamage (serde : Serde) (canRepair : Bool) (disk : Disk) (path : Path) : Disk :=
  match disk.get path with
  | none => disk
  | some file =>
    if ¬ tailLooksDamaged serde file then disk
    else
      let scanned := scanLines serde (file.splitOn newline)
      if scanned.2 ∧ canRepair then disk.insert path (utf8 (repairedContent scanned.1)) else disk

/-- `finalize_loaded_entries`: without a header first nothing is loaded. -/
def finalizeLoadedEntries (entries : List FileEntry) : List FileEntry :=
  if (entries.head?).any (·.isHeader) then entries else []

/-- `load_entries_from_file`: the disk after the repair, and the rows. -/
def loadEntriesFromFile (serde : Serde) (canRepair : Bool) (disk : Disk) (path : Path) (repair : Bool) :
    Disk × List FileEntry :=
  if ¬ disk.contains path then (disk, [])
  else
    let disk := if repair then repairJsonlDamage serde canRepair disk path else disk
    match readToString disk path with
    | none => (disk, [])
    | some content => (disk, finalizeLoadedEntries (parseSessionEntries serde content))

end PrimeAgent
