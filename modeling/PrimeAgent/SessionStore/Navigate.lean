import PrimeAgent.Session.BranchSummary
import PrimeAgent.SessionStore.Fork
import PrimeAgent.SessionStore.ForkPoints

/-! # Moving the leaf of a live session

`navigate_tree` settles the running turn, has the abandoned branch summarized, moves the leaf, persists the summary and
the label, and rebuilds the engine's context. What the turn, the summarizer, the disk and the engine do is given.
-/
namespace PrimeAgent.SessionStore

/-! ## The call -/

structure NavigateRequest where
  targetId : String
  summarize : Bool
  customInstructions : Option String
  replaceInstructions : Bool
  label : Option String

def isTrue (payload : Json) (key : String) : Bool :=
  payload.get key == some (.bool true)

def NavigateRequest.ofPayload (payload : Json) : NavigateRequest where
  targetId := ((payload.get "targetId").bind Json.asStr).getD ""
  summarize := isTrue payload "summarize"
  customInstructions := (payload.get "customInstructions").bind Json.asStr
  replaceInstructions := isTrue payload "replaceInstructions"
  label := (payload.get "label").bind Json.asStr

structure BranchSummaryRequest where
  entries : List FileEntry
  customInstructions : Option String
  replaceInstructions : Bool

structure BranchSummaryRun where
  summary : String
  usage : Option Json
  details : Option Json
  model : Option (String × String)

inductive BranchSummaryOutcome where
  | complete (run : BranchSummaryRun)
  | aborted
  | failed (error : String)

inductive GoalBranchReload where
  | sameTimeline
  | faithfulBranch

inductive DaemonResponse where
  | success (data : Json)
  | failure (error : String)

structure Write where
  timestamp : String
  draw : Nat → String
  uuid : String
  succeeds : Bool
  error : String

/-- What the navigation meets: the rows that the running turn appends until it settles and the engine's rows then, the
summarizer, the two writes, and the failure of the rebuild. -/
structure NavigationEnv where
  turn : List PersistCall
  turnRows : List FileEntry
  runBranchSummary : BranchSummaryRequest → BranchSummaryOutcome
  summaryWrite : Write
  labelWrite : Write
  rebuildError : List FileEntry → GoalBranchReload → Option String

structure SessionCore where
  store : Option SessionFile
  disk : Option Bytes
  retainedIds : List String
  rows : List FileEntry

/-! ## The store -/

abbrev Held := SessionFile × Option Bytes

def notFound (id : String) : String :=
  "Entry " ++ id ++ " not found"

def Write.call (write : Write) (entryType : String) (fields : Json) : PersistCall :=
  ⟨entryType, fields, write.timestamp, write.draw, write.uuid, write.succeeds⟩

def Write.persistEntry (serde : StoreSerde) (write : Write) (entryType : String) (fields : Json) (held : Held) :
    Except String String × Held :=
  match persistEntryAt serde (write.call entryType fields) held.1 held.2 with
  | (some id, held) => (.ok id, held)
  | (none, held) => (.error write.error, held)

def branchSummaryFields (fromId : Option String) (run : BranchSummaryRun) : Json :=
  .object ([("fromId", .string (fromId.getD "root")), ("summary", .string run.summary),
      ("details", run.details.getD .null)] ++ (run.usage.map ("usage", ·)).toList ++
    (run.model.map fun model => [("provider", .string model.1), ("modelId", .string model.2)]).getD [])

def appendBranchSummary (serde : StoreSerde) (write : Write) (fromId : Option String) (run : BranchSummaryRun)
    (held : Held) : Except String String × Held :=
  match held.1.branchTo fromId with
  | none => (.error (notFound (fromId.getD "")), held)
  | some file => write.persistEntry serde "branch_summary" (branchSummaryFields fromId run) (file, held.2)

def appendLabelChange (serde : StoreSerde) (write : Write) (targetId : String) (label : Option String) (held : Held) :
    Except String String × Held :=
  match held.1.labelChange targetId label with
  | none => (.error (notFound targetId), held)
  | some fields => write.persistEntry serde "label" fields held

def branchFileEntries (retainedIds : List String) (file : SessionFile) : List FileEntry :=
  let branch := match file.window with
    | none => file.branch
    | some window => (file.branch.reverse.takeWhile fun entry : SessionEntry =>
        window.loadedEntries ≤ (file.byId.get entry.id).getD 0 || entry.id ∈ retainedIds).reverse
  branch.filterMap (·.toFileEntry)

def entryJson (entry : SessionEntry) : Json :=
  entry.toValue.getD .null

/-! ## The navigation -/

def userEntryText (entry : SessionEntry) : Option String :=
  if entry.type = "message" then
    (entry.fields.get "message").bind fun message =>
      if messageRole message = some "user" then some (messageText message) else none
  else none

def customMessageText (entry : SessionEntry) : Option String :=
  match entry.fields.get "content" with
  | some (.string text) => some text
  | some (.array _) => if messageText entry.fields = "" then none else some (messageText entry.fields)
  | _ => none

def navigationPoint (target : SessionEntry) : Option String × Option String :=
  match userEntryText target with
  | some text => (target.parentId, some text)
  | none =>
    if target.type = "custom_message" then (target.parentId, customMessageText target)
    else (some target.id, none)

def runTurn (serde : StoreSerde) : List PersistCall → Held → List String × Held
  | [], held => ([], held)
  | call :: calls, held =>
    let (id, file, disk) := persistEntryAt serde call held.1 held.2
    let (ids, held) := runTurn serde calls (file, disk)
    (id.toList ++ ids, held)

def engineRows (file : SessionFile) : List FileEntry :=
  file.entries.filterMap (·.toFileEntry)

def summarizeBranch (fuel : Nat) (env : NavigationEnv) (request : NavigateRequest) (store : SessionFile) :
    Option (List FileEntry × Except DaemonResponse (Option BranchSummaryRun)) :=
  if request.summarize then
    (collectEntriesForBranchSummary (engineRows store) fuel store.leafId request.targetId).map fun collected =>
      (collected.entries,
        if collected.entries.isEmpty then .ok none
        else match env.runBranchSummary
            ⟨collected.entries, request.customInstructions, request.replaceInstructions⟩ with
          | .complete run => .ok (some run)
          | .aborted => .error (.success (.object [("cancelled", .bool true), ("aborted", .bool true)]))
          | .failed error => .error (.failure error))
  else some ([], .ok none)

def labelEntry (serde : StoreSerde) (env : NavigationEnv) (label : Option String) (id : String) (held : Held) :
    Except String Unit × Held :=
  match label with
  | none => (.ok (), held)
  | some label =>
    match appendLabelChange serde env.labelWrite id (some label) held with
    | (.ok _, held) => (.ok (), held)
    | (.error error, held) => (.error error, held)

def moveLeaf (serde : StoreSerde) (env : NavigationEnv) (request : NavigateRequest) (newLeaf : Option String)
    (summary : Option BranchSummaryRun) (held : Held) : Except String (Option Json) × Held :=
  match summary with
  | some run =>
    match appendBranchSummary serde env.summaryWrite newLeaf run held with
    | (.error error, held) => (.error error, held)
    | (.ok id, held) =>
      match labelEntry serde env request.label id held with
      | (.error error, held) => (.error error, held)
      | (.ok _, held) => (.ok ((held.1.entry id).map entryJson), held)
  | none =>
    match held.1.branchTo newLeaf with
    | none => (.error (notFound (newLeaf.getD "")), held)
    | some file =>
      match labelEntry serde env request.label request.targetId (file, held.2) with
      | (.error error, held) => (.error error, held)
      | (.ok _, held) => (.ok none, held)

/-- An answer with the rows that the summarizer was handed, and the session when the turn had settled and at the end. -/
structure Navigated where
  answer : DaemonResponse
  handed : List FileEntry
  settled : SessionCore
  after : SessionCore

def SessionCore.hold (core : SessionCore) (held : Held) : SessionCore :=
  { core with store := some held.1, disk := held.2 }

def landedAnswer (editorText : Option String) (summaryEntry : Option Json) : DaemonResponse :=
  .success (.object ([("cancelled", .bool false)] ++ (editorText.map (("editorText", Json.string ·))).toList ++
    (summaryEntry.map (("summaryEntry", ·))).toList))

def land (serde : StoreSerde) (env : NavigationEnv) (request : NavigateRequest) (point : Option String × Option String)
    (summary : Option BranchSummaryRun) (settled : SessionCore) (held : Held) : DaemonResponse × SessionCore :=
  match moveLeaf serde env request point.1 summary held with
  | (.error error, held) => (.failure error, settled.hold held)
  | (.ok summaryEntry, held) =>
    let branch := branchFileEntries settled.retainedIds held.1
    let reload := if summary.isSome then GoalBranchReload.sameTimeline else .faithfulBranch
    match env.rebuildError branch reload with
    | some error => (.failure error, settled.hold held)
    | none => (landedAnswer point.2 summaryEntry, { settled.hold held with rows := branch })

def navigateTree (serde : StoreSerde) (fuel : Nat) (env : NavigationEnv) (payload : Json) (core : SessionCore) :
    Option Navigated :=
  let request := NavigateRequest.ofPayload payload
  match core.store with
  | none => some ⟨.failure "Session is still initializing", [], core, core⟩
  | some store =>
    match store.entry request.targetId with
    | none => some ⟨.failure (notFound request.targetId), [], core, core⟩
    | some target =>
      if some request.targetId = store.leafId then
        some ⟨.success (.object [("cancelled", .bool false)]), [], core, core⟩
      else
        let (_, held) := runTurn serde env.turn (store, core.disk)
        let settled := { core.hold held with rows := env.turnRows }
        (summarizeBranch fuel env request store).map fun
          | (handed, .error answer) => ⟨answer, handed, settled, settled⟩
          | (handed, .ok summary) =>
            let (answer, after) := land serde env request (navigationPoint target) summary settled held
            ⟨answer, handed, settled, after⟩

/-! ## What a navigation keeps -/

namespace SessionCore

def leafId (core : SessionCore) : Option String :=
  core.store.bind (·.leafId)

def Agrees (core : SessionCore) : Prop :=
  ∀ file, core.store = some file → core.rows = branchFileEntries core.retainedIds file

end SessionCore

def DaemonResponse.gaveUp : DaemonResponse → Bool
  | .failure _ => true
  | .success data => isTrue data "aborted"

inductive Above (rows : List FileEntry) : Option String → FileEntry → Prop where
  | here {id : String} {row : FileEntry} : firstRow rows id = some row → Above rows (some id) row
  | up {id : String} {row other : FileEntry} : firstRow rows id = some row → Above rows row.parentId other →
      Above rows (some id) other

open Classical in
def Abandoned (rows : List FileEntry) (leafId : Option String) (targetId : String) (handed : List FileEntry) : Prop :=
  ∃ oldPath : List FileEntry, Upward rows leafId oldPath.reverse ∧
    handed = oldPath.filter fun row => ¬ Above rows (some targetId) row

structure Navigated.Sound (request : NavigateRequest) (core : SessionCore) (navigated : Navigated) : Prop where
  leaf : navigated.answer.gaveUp = true → navigated.after.leafId = navigated.settled.leafId
  context : navigated.answer.gaveUp = true → navigated.settled.Agrees → navigated.after.Agrees
  handed : navigated.answer.gaveUp = false → request.summarize = true → some request.targetId ≠ core.leafId →
    ∀ file, navigated.settled.store = some file →
      Abandoned (engineRows file) file.leafId request.targetId navigated.handed

def Completes (serde : StoreSerde) (env : NavigationEnv) (request : NavigateRequest) (newLeaf : Option String)
    (summary : Option BranchSummaryRun) (retainedIds : List String) (held : Held) : Prop :=
  ∃ entry moved, moveLeaf serde env request newLeaf summary held = (.ok entry, moved) ∧
    env.rebuildError (branchFileEntries retainedIds moved.1)
      (if summary.isSome then .sameTimeline else .faithfulBranch) = none

def FailsFirst (serde : StoreSerde) (env : NavigationEnv) (request : NavigateRequest) (newLeaf : Option String)
    (summary : Option BranchSummaryRun) (retainedIds : List String) (held : Held) (moved : SessionFile) : Prop :=
  match summary, request.label with
  | some run, _ => ∃ error, (appendBranchSummary serde env.summaryWrite newLeaf run held).1 = .error error
  | none, some label => ∃ error,
      (appendLabelChange serde env.labelWrite request.targetId (some label) (moved, held.2)).1 = .error error
  | none, none => env.rebuildError (branchFileEntries retainedIds moved) .faithfulBranch ≠ none

def ForkAtRoot (rows : List FileEntry) (leafId : Option String) (targetId : String) : Prop :=
  ∀ oldPath targetPath : List FileEntry, Upward rows leafId oldPath.reverse → RootPath rows targetId targetPath →
    (sharedRows oldPath targetPath).length ≤ 1

/-- Where the leaf is to move, every step succeeds, or it moves to where it was and the first step fails; and a branch
that is summarized got no row from the turn and forks at the root. -/
def SafeMove (serde : StoreSerde) (fuel : Nat) (env : NavigationEnv) (request : NavigateRequest) (core : SessionCore) :
    Prop :=
  ∀ store target handed summary ids held moved, core.store = some store → store.entry request.targetId = some target →
    some request.targetId ≠ store.leafId → summarizeBranch fuel env request store = some (handed, .ok summary) →
    runTurn serde env.turn (store, core.disk) = (ids, held) →
    held.1.branchTo (navigationPoint target).1 = some moved →
    (Completes serde env request (navigationPoint target).1 summary core.retainedIds held ∨
        FailsFirst serde env request (navigationPoint target).1 summary core.retainedIds held moved ∧
          (navigationPoint target).1 = held.1.leafId) ∧
      (Completes serde env request (navigationPoint target).1 summary core.retainedIds held → request.summarize = true →
        ids = [] ∧ ForkAtRoot (engineRows store) store.leafId request.targetId)

def SessionFile.Holds (file : SessionFile) (id : String) : Prop :=
  file.leafId = some id ∨ file.byId.get id ≠ none ∨ ∃ entry ∈ file.entries, entry.id = id ∨ entry.parentId = some id

instance (file : SessionFile) (id : String) : Decidable (file.Holds id) :=
  inferInstanceAs (Decidable (_ ∨ _ ∨ _))

def PersistCall.Fresh (call : PersistCall) (file : SessionFile) : Prop :=
  ∀ other, ¬ file.Holds (call.entry other).id

/-! ## The steps after the move -/

section Steps

variable {serde : StoreSerde} {call : PersistCall} {write : Write} {file file' moved : SessionFile}
  {disk disk' : Option Bytes} {id : String} {newLeaf : Option String}

theorem persist_outcome {result : Option String} (hPersist : persistEntryAt serde call file disk = (result, file', disk')) :
    (result = none ∧ (file' = file ∨ file' = { file with
        byId := (file.byId.insert (call.entry file).id file.entries.length).remove (call.entry file).id })) ∨
      result = some (call.entry file).id ∧ (file' = file.pushIndex (call.entry file) ∨
        file' = (file.pushIndexInner (call.entry file) false).foldAttributionId (call.entry file).id) := by
  unfold persistEntryAt at hPersist
  dsimp only at hPersist
  generalize (if file.path = "" then none else disk) = existing at hPersist
  split at hPersist
  next =>
    cases hPersist
    exact .inl ⟨rfl, .inl rfl⟩
  next =>
    cases existing with
    | some content =>
      dsimp only at hPersist
      split at hPersist
      next =>
        split at hPersist
        · cases hPersist
          exact .inr ⟨rfl, .inl rfl⟩
        · cases hPersist
          exact .inl ⟨rfl, .inl rfl⟩
      next =>
        cases hPersist
        exact .inl ⟨rfl, .inl rfl⟩
    | none =>
      dsimp only at hPersist
      split at hPersist
      next =>
        cases hPersist
        exact .inr ⟨rfl, .inr rfl⟩
      next =>
        cases hPersist
        refine .inl ⟨rfl, .inr ?_⟩
        simp [SessionFile.pushIndexInner]

theorem persist_failed (hFailed : persistEntryAt serde call file disk = (none, file', disk')) :
    file'.entries = file.entries ∧ file'.leafId = file.leafId ∧
      (file.byId.get (call.entry file).id = none → file' = file) := by
  obtain ⟨-, rfl | rfl⟩ | ⟨hResult, -⟩ := persist_outcome hFailed
  · exact ⟨rfl, rfl, fun _ => rfl⟩
  · refine ⟨rfl, rfl, fun hNew => ?_⟩
    have hIndex : (file.byId.insert (call.entry file).id file.entries.length).remove (call.entry file).id =
        file.byId := by
      refine KeyMap.ext fun key => ?_
      rw [KeyMap.get_remove, KeyMap.get_insert]
      by_cases hKey : key = (call.entry file).id
      · rw [if_pos hKey, hKey, hNew]
      · rw [if_neg hKey, if_neg hKey]
    rw [hIndex]
  · cases hResult

theorem foldAttributionId_keeps (file : SessionFile) (id : String) :
    (file.foldAttributionId id).leafId = file.leafId ∧ (file.foldAttributionId id).envelopes = file.envelopes ∧
      ∀ entry ∈ file.entries, ∃ kept ∈ (file.foldAttributionId id).entries, kept.id = entry.id ∧
        (entry.Written → kept.Written) := by
  have hSame : ∀ entry ∈ file.entries, ∃ kept ∈ file.entries, kept.id = entry.id ∧ (entry.Written → kept.Written) :=
    fun entry hEntry => ⟨entry, hEntry, rfl, fun hWritten => hWritten⟩
  unfold SessionFile.foldAttributionId
  split
  next entry _ =>
    split
    next =>
      refine ⟨?_, envelopes_foldLiveAttribution _ _, ?_⟩
      · unfold SessionFile.foldLiveAttribution
        split <;> rfl
      · unfold SessionFile.foldLiveAttribution
        split
        next row aggregate _ _ =>
          intro entry hEntry
          obtain ⟨i, hAt⟩ := List.mem_iff_getElem?.mp hEntry
          refine ⟨if row = i then entry.setUsage aggregate else entry, List.mem_of_getElem? (i := i) ?_, ?_⟩
          · rw [List.getElem?_modify, hAt]
            rfl
          · split
            · exact ⟨(setUsage_ids aggregate entry).1, fun hWritten => setUsage_written hWritten aggregate⟩
            · exact ⟨rfl, fun hWritten => hWritten⟩
        next => exact hSame
    next => exact ⟨rfl, rfl, hSame⟩
  next => exact ⟨rfl, rfl, hSame⟩

theorem persist_done (hDone : persistEntryAt serde call file disk = (some id, file', disk')) :
    id = (call.entry file).id ∧ file'.leafId = some id ∧
      file'.envelopes = file.envelopes ++ [(call.entry file).envelope] ∧
      ((call.entry file).Written → ∃ entry ∈ file'.entries, entry.id = id ∧ entry.Written) := by
  obtain ⟨hResult, -⟩ | ⟨hResult, rfl | rfl⟩ := persist_outcome hDone
  · cases hResult
  · obtain rfl := Option.some.inj hResult
    exact ⟨rfl, rfl, envelopes_pushIndex _ _, fun hWritten =>
      ⟨_, List.mem_append_right _ List.mem_cons_self, rfl, hWritten⟩⟩
  · obtain rfl := Option.some.inj hResult
    obtain ⟨hLeaf, hEnvelopes, hKept⟩ := foldAttributionId_keeps (file.pushIndexInner (call.entry file) false)
      (call.entry file).id
    refine ⟨rfl, hLeaf, hEnvelopes.trans ?_, fun hWritten => ?_⟩
    · simp [SessionFile.envelopes, SessionFile.pushIndexInner]
    · obtain ⟨kept, hMem, hId, hKeptWritten⟩ := hKept (call.entry file) (List.mem_append_right _ List.mem_cons_self)
      exact ⟨kept, hMem, hId, hKeptWritten hWritten⟩

theorem branchTo_moved (hMoved : file.branchTo newLeaf = some moved) : moved = { file with leafId := newLeaf } := by
  unfold SessionFile.branchTo at hMoved
  split at hMoved
  next =>
    split at hMoved
    next => exact (Option.some.inj hMoved).symm
    next => cases hMoved
  next => exact (Option.some.inj hMoved).symm

theorem persistEntry_outcome {entryType : String} {fields : Json} {held : Held}
    (hFresh : (write.call entryType fields).Fresh file) (hIndex : held.1.byId = file.byId) :
    (∃ held', write.persistEntry serde entryType fields held = (.error write.error, held') ∧ held'.1 = held.1) ∨
      ∃ id held', write.persistEntry serde entryType fields held = (.ok id, held') ∧ held'.1.leafId = some id ∧
        ¬ file.Holds id := by
  unfold Write.persistEntry
  cases hPersist : persistEntryAt serde (write.call entryType fields) held.1 held.2 with
  | mk result held' =>
    cases result with
    | none =>
      refine .inl ⟨held', rfl, (persist_failed hPersist).2.2 ?_⟩
      rw [hIndex]
      exact not_not.mp fun hHeld => hFresh held.1 (.inr (.inl hHeld))
    | some id =>
      obtain ⟨rfl, hLeaf, -⟩ := persist_done hPersist
      exact .inr ⟨_, held', rfl, hLeaf, hFresh held.1⟩

end Steps

section Move

variable {serde : StoreSerde} {env : NavigationEnv} {request : NavigateRequest} {newLeaf : Option String}
  {summary : Option BranchSummaryRun} {held : Held} {moved : SessionFile} {retainedIds : List String}

theorem labelEntry_new {id : String} {file : SessionFile} (hLabel : ∀ fields, (env.labelWrite.call "label" fields).Fresh file)
    (hNew : ¬ file.Holds id) (hLeaf : held.1.leafId = some id) :
    ∃ leaf, (labelEntry serde env request.label id held).2.1.leafId = some leaf ∧ ¬ file.Holds leaf := by
  unfold labelEntry
  split
  next => exact ⟨id, hLeaf, hNew⟩
  next label _ =>
    unfold appendLabelChange
    cases held.1.labelChange id (some label) with
    | none => exact ⟨id, hLeaf, hNew⟩
    | some fields =>
      cases hPersist : persistEntryAt serde (env.labelWrite.call "label" fields) held.1 held.2 with
      | mk result held' =>
        cases result with
        | none =>
          simp only [Write.persistEntry, hPersist]
          exact ⟨id, (persist_failed hPersist).2.1.trans hLeaf, hNew⟩
        | some labelId =>
          simp only [Write.persistEntry, hPersist]
          obtain ⟨rfl, hMoved, -⟩ := persist_done hPersist
          exact ⟨_, hMoved, hLabel fields held.1⟩

theorem moveLeaf_outcome (hMoved : held.1.branchTo newLeaf = some moved)
    (hSummary : ∀ fields, (env.summaryWrite.call "branch_summary" fields).Fresh held.1)
    (hLabel : ∀ fields, (env.labelWrite.call "label" fields).Fresh held.1) :
    (∃ error held', moveLeaf serde env request newLeaf summary held = (.error error, held') ∧ held'.1 = moved ∧
        FailsFirst serde env request newLeaf summary retainedIds held moved) ∨
      (∃ result held' id, moveLeaf serde env request newLeaf summary held = (result, held') ∧
        held'.1.leafId = some id ∧ ¬ held.1.Holds id ∧
        ¬ FailsFirst serde env request newLeaf summary retainedIds held moved) ∨
      moveLeaf serde env request newLeaf summary held = (.ok none, (moved, held.2)) ∧ summary = none ∧
        request.label = none := by
  have hIndex : moved.byId = held.1.byId := by rw [branchTo_moved hMoved]
  cases summary with
  | some run =>
    have hAppend : appendBranchSummary serde env.summaryWrite newLeaf run held =
        env.summaryWrite.persistEntry serde "branch_summary" (branchSummaryFields newLeaf run) (moved, held.2) := by
      unfold appendBranchSummary
      rw [hMoved]
    obtain ⟨held', hError, hStays⟩ | ⟨id, held', hDone, hLeaf, hNew⟩ :=
      @persistEntry_outcome serde env.summaryWrite held.1 "branch_summary" (branchSummaryFields newLeaf run)
        (moved, held.2) (hSummary _) hIndex
    · refine .inl ⟨env.summaryWrite.error, held', ?_, hStays, env.summaryWrite.error, by rw [hAppend, hError]⟩
      simp only [moveLeaf, hAppend, hError]
    · refine .inr (.inl ?_)
      obtain ⟨leaf, hAt, hFresh⟩ := @labelEntry_new serde env request held' id held.1 hLabel hNew hLeaf
      have hFirst : ¬ FailsFirst serde env request newLeaf (some run) retainedIds held moved := by
        rintro ⟨error, hError⟩
        rw [hAppend, hDone] at hError
        cases hError
      cases hLabelled : labelEntry serde env request.label id held' with
      | mk result last =>
        rw [hLabelled] at hAt
        refine ⟨(moveLeaf serde env request newLeaf (some run) held).1, last, leaf, ?_, hAt, hFresh, hFirst⟩
        simp only [moveLeaf, hAppend, hDone, hLabelled]
        cases result <;> rfl
  | none =>
    cases hAsked : request.label with
    | none =>
      refine .inr (.inr ⟨?_, rfl, rfl⟩)
      simp only [moveLeaf, hMoved, hAsked, labelEntry]
    | some label =>
      cases hChange : moved.labelChange request.targetId (some label) with
      | none =>
        have hAppend : appendLabelChange serde env.labelWrite request.targetId (some label) (moved, held.2) =
            (.error (notFound request.targetId), (moved, held.2)) := by
          unfold appendLabelChange
          rw [hChange]
        refine .inl ⟨notFound request.targetId, (moved, held.2), ?_, rfl, ?_⟩
        · simp only [moveLeaf, hMoved, hAsked, labelEntry, hAppend]
        · simp only [FailsFirst, hAsked, hAppend]
          exact ⟨_, rfl⟩
      | some fields =>
        have hAppend : appendLabelChange serde env.labelWrite request.targetId (some label) (moved, held.2) =
            env.labelWrite.persistEntry serde "label" fields (moved, held.2) := by
          unfold appendLabelChange
          rw [hChange]
        obtain ⟨held', hError, hStays⟩ | ⟨id, held', hDone, hLeaf, hNew⟩ :=
          @persistEntry_outcome serde env.labelWrite held.1 "label" fields (moved, held.2) (hLabel _) hIndex
        · refine .inl ⟨env.labelWrite.error, held', ?_, hStays, ?_⟩
          · simp only [moveLeaf, hMoved, hAsked, labelEntry, hAppend, hError]
          · simp only [FailsFirst, hAsked, hAppend, hError]
            exact ⟨_, rfl⟩
        · refine .inr (.inl ⟨.ok none, held', id, ?_, hLeaf, hNew, ?_⟩)
          · simp only [moveLeaf, hMoved, hAsked, labelEntry, hAppend, hDone]
          · simp only [FailsFirst, hAsked, hAppend, hDone]
            rintro ⟨error, hError⟩
            cases hError

theorem landedAnswer_gaveUp (editorText : Option String) (summaryEntry : Option Json) :
    (landedAnswer editorText summaryEntry).gaveUp = false := by
  cases editorText <;> cases summaryEntry <;> rfl

variable {settled : SessionCore} {editorText : Option String}

theorem hold_moved_iff {held' : Held} (hStore : settled.store = some held.1) (hMoved : held.1.branchTo newLeaf = some moved)
    (hHeld : held'.1 = moved) :
    ((settled.hold held').leafId = settled.leafId ∧ (settled.Agrees → (settled.hold held').Agrees)) ↔
      newLeaf = held.1.leafId := by
  have hSame := branchTo_moved hMoved
  have hSettled : settled.leafId = held.1.leafId := by
    unfold SessionCore.leafId
    rw [hStore, Option.bind_some]
  have hLeaf : (settled.hold held').leafId = newLeaf := by
    show held'.1.leafId = newLeaf
    rw [hHeld, hSame]
  constructor
  · exact fun hKept => hLeaf.symm.trans (hKept.1.trans hSettled)
  · intro hBack
    refine ⟨hLeaf.trans (hBack.trans hSettled.symm), fun hAgrees file hFile => ?_⟩
    obtain rfl := Option.some.inj hFile
    have hStayed : held'.1 = held.1 := by
      rw [hHeld, hSame, hBack]
    show settled.rows = branchFileEntries settled.retainedIds held'.1
    rw [hStayed]
    exact hAgrees held.1 hStore

theorem hold_new {held' : Held} {id : String} (hStore : settled.store = some held.1) (hLeaf : held'.1.leafId = some id)
    (hNew : ¬ held.1.Holds id) : (settled.hold held').leafId ≠ settled.leafId := by
  intro hSame
  refine hNew (.inl ?_)
  have hSettled : settled.leafId = held.1.leafId := by
    unfold SessionCore.leafId
    rw [hStore, Option.bind_some]
  rw [← hSettled, ← hSame]
  exact hLeaf

theorem land_iff (hStore : settled.store = some held.1) (hMoved : held.1.branchTo newLeaf = some moved)
    (hSummary : ∀ fields, (env.summaryWrite.call "branch_summary" fields).Fresh held.1)
    (hLabel : ∀ fields, (env.labelWrite.call "label" fields).Fresh held.1) :
    let landed := land serde env request (newLeaf, editorText) summary settled held
    (landed.1.gaveUp = false ↔ Completes serde env request newLeaf summary settled.retainedIds held) ∧
      ((landed.1.gaveUp = true → landed.2.leafId = settled.leafId ∧ (settled.Agrees → landed.2.Agrees)) ↔
        Completes serde env request newLeaf summary settled.retainedIds held ∨
          FailsFirst serde env request newLeaf summary settled.retainedIds held moved ∧ newLeaf = held.1.leafId) := by
  obtain ⟨error, held', hMove, hHeld, hFirst⟩ | ⟨result, held', id, hMove, hLeaf, hNew, hFirst⟩ | ⟨hMove, rfl, hNone⟩ :=
    @moveLeaf_outcome serde env request newLeaf summary held moved settled.retainedIds hMoved hSummary hLabel
  · have hStops : ¬ Completes serde env request newLeaf summary settled.retainedIds held := by
      rintro ⟨entry, other, hDone, -⟩
      rw [hMove] at hDone
      cases hDone
    simp only [land, hMove, DaemonResponse.gaveUp, Bool.true_eq_false, hStops, hFirst, true_and, false_or, true_imp_iff,
      hold_moved_iff hStore hMoved hHeld, and_self]
  · cases result with
    | error error =>
      have hStops : ¬ Completes serde env request newLeaf summary settled.retainedIds held := by
        rintro ⟨entry, other, hDone, -⟩
        rw [hMove] at hDone
        cases hDone
      simp only [land, hMove, DaemonResponse.gaveUp, Bool.true_eq_false, hStops, hFirst, hold_new hStore hLeaf hNew,
        false_and, or_self, imp_false, not_true, and_self]
    | ok entry =>
      cases hRebuild : env.rebuildError (branchFileEntries settled.retainedIds held'.1)
          (if summary.isSome then .sameTimeline else .faithfulBranch) with
      | some error =>
        have hStops : ¬ Completes serde env request newLeaf summary settled.retainedIds held := by
          rintro ⟨_, other, hDone, hBuilt⟩
          rw [hMove] at hDone
          cases hDone
          rw [hRebuild] at hBuilt
          cases hBuilt
        simp only [land, hMove, hRebuild, DaemonResponse.gaveUp, Bool.true_eq_false, hStops, hFirst,
          hold_new hStore hLeaf hNew, false_and, or_self, imp_false, not_true, and_self]
      | none =>
        have hCompletes : Completes serde env request newLeaf summary settled.retainedIds held :=
          ⟨entry, held', hMove, hRebuild⟩
        simp only [land, hMove, hRebuild, landedAnswer_gaveUp, hCompletes, Bool.false_eq_true, false_imp_iff, true_or,
          and_self]
  · cases hRebuild : env.rebuildError (branchFileEntries settled.retainedIds moved) .faithfulBranch with
    | some error =>
      have hStops : ¬ Completes serde env request newLeaf none settled.retainedIds held := by
        rintro ⟨_, other, hDone, hBuilt⟩
        rw [hMove] at hDone
        cases hDone
        rw [show (if (none : Option BranchSummaryRun).isSome then GoalBranchReload.sameTimeline else .faithfulBranch) =
          .faithfulBranch from rfl, hRebuild] at hBuilt
        cases hBuilt
      have hFirst : FailsFirst serde env request newLeaf none settled.retainedIds held moved := by
        simp only [FailsFirst, hNone, hRebuild]
        nofun
      simp only [land, hMove, Option.isSome_none, Bool.false_eq_true, if_false, hRebuild, DaemonResponse.gaveUp,
        Bool.true_eq_false, hStops, hFirst, true_and, false_or, true_imp_iff,
        @hold_moved_iff newLeaf held moved settled (moved, held.2) hStore hMoved rfl, and_self]
    | none =>
      have hCompletes : Completes serde env request newLeaf none settled.retainedIds held :=
        ⟨none, (moved, held.2), hMove, hRebuild⟩
      simp only [land, hMove, Option.isSome_none, Bool.false_eq_true, if_false, hRebuild, landedAnswer_gaveUp,
        hCompletes, false_imp_iff, true_or, and_self]

end Move

/-! ## The rows of a path -/

theorem above_iff {rows path : List FileEntry} {id? : Option String} (hUp : Upward rows id? path) (row : FileEntry) :
    Above rows id? row ↔ row ∈ path := by
  constructor
  · intro hAbove
    induction hAbove generalizing path with
    | here hRow =>
      cases hUp with
      | stops hNone => rw [Option.bind_some, hRow] at hNone; cases hNone
      | climbs hRow' _ =>
        cases hRow.symm.trans hRow'
        exact List.mem_cons_self
    | up hRow _ ih =>
      cases hUp with
      | stops hNone => rw [Option.bind_some, hRow] at hNone; cases hNone
      | climbs hRow' hRest =>
        cases hRow.symm.trans hRow'
        exact List.mem_cons_of_mem _ (ih hRest)
  · intro hMem
    induction hUp with
    | stops => cases hMem
    | climbs hRow _ ih =>
      obtain rfl | hMem := List.mem_cons.mp hMem
      · exact .here hRow
      · exact .up hRow (ih hMem)

theorem shared_le_one {rows oldRows targetRows : List FileEntry} {old target : String}
    (hOld : Upward rows (some old) oldRows) (hTarget : Upward rows (some target) targetRows)
    (hSame : (oldRows.takeWhile fun row =>
        row.id != (sharedRows oldRows.reverse targetRows.reverse).head?.bind FileEntry.id) =
      oldRows.filter (· ∉ targetRows)) : (sharedRows oldRows.reverse targetRows.reverse).length ≤ 1 := by
  cases hShared : sharedRows oldRows.reverse targetRows.reverse with
  | nil => exact Nat.zero_le 1
  | cons shared others =>
    cases others with
    | nil => exact le_rfl
    | cons next others =>
      exfalso
      have hSub : (shared :: next :: others).Sublist targetRows.reverse := hShared ▸ List.filter_sublist
      obtain ⟨above, below, hSplit, hHere, hRest⟩ := List.cons_sublist_iff.mp hSub
      have hNext : next ∈ below := hRest.subset List.mem_cons_self
      have hOnOld : next ∈ oldRows := by
        have hMem : next ∈ sharedRows oldRows.reverse targetRows.reverse := by
          rw [hShared]
          exact List.mem_cons_of_mem _ List.mem_cons_self
        simpa [sharedRows] using (List.mem_filter.mp hMem).2
      have hReversed : targetRows = below.reverse ++ above.reverse := by
        rw [← List.reverse_append, ← hSplit, List.reverse_reverse]
      obtain ⟨left, right, hBelow⟩ := List.append_of_mem (List.mem_reverse.mpr hNext)
      have hTargetSplit : targetRows = left ++ next :: (right ++ above.reverse) := by
        rw [hReversed, hBelow, List.append_assoc, List.cons_append]
      obtain ⟨start, rest, hOldSplit⟩ := List.append_of_mem hOnOld
      have hAbove : rest = right ++ above.reverse :=
        (List.cons.inj ((hOld.within hOldSplit).determined (hTarget.within hTargetSplit))).2
      have hDistinct := hOld.nodup
      rw [hOldSplit, List.pairwise_append] at hDistinct
      have hSharedRest : shared ∈ rest := by
        rw [hAbove]
        exact List.mem_append_right _ (List.mem_reverse.mpr hHere)
      have hStart : ∀ row ∈ start, (row.id != (some shared).bind FileEntry.id) = true := fun row hRow => by
        simpa using hDistinct.2.2 row hRow shared (List.mem_cons_of_mem _ hSharedRest)
      have hNe : (next.id != (some shared).bind FileEntry.id) = true := by
        simpa using (List.pairwise_cons.mp hDistinct.2.1).1 shared hSharedRest
      have hTake := @List.takeWhile_cons_of_pos _ (fun row => row.id != (some shared).bind FileEntry.id) next rest hNe
      rw [hShared, List.head?_cons, hOldSplit, List.takeWhile_append_of_pos hStart, hTake] at hSame
      have hKept : next ∈ (start ++ next :: rest).filter (· ∉ targetRows) :=
        hSame ▸ List.mem_append_right _ List.mem_cons_self
      have hOnTarget : next ∈ targetRows := by
        rw [hTargetSplit]
        exact List.mem_append_right _ List.mem_cons_self
      simpa [hOnTarget] using (List.mem_filter.mp hKept).2

variable {fuel : Nat} {leafId : Option String} {result : CollectEntriesResult} {rows : List FileEntry} {target : String}
  {row : FileEntry} {env : NavigationEnv} {handed : List FileEntry} {request : NavigateRequest} {store : SessionFile}
  {serde : StoreSerde}

open Classical in
theorem collected_iff (hResult : collectEntriesForBranchSummary rows fuel leafId target = some result) :
    Abandoned rows leafId target result.entries ↔ ForkAtRoot rows leafId target := by
  cases leafId with
  | none =>
    cases hResult
    refine iff_of_true ⟨[], .stops rfl, rfl⟩ fun oldPath targetPath hOld _ => ?_
    have hNil : oldPath.reverse = [] := hOld.determined (.stops rfl)
    rw [List.reverse_eq_nil_iff.mp hNil]
    simp [sharedRows]
  | some old =>
    simp only [collectEntriesForBranchSummary, Option.bind_eq_bind, Option.bind_eq_some_iff] at hResult
    obtain ⟨oldIds, hOldIds, targetIds, hTargetIds, collected, hWalk, hResult⟩ := hResult
    obtain ⟨oldRows, hOld, rfl⟩ := parentPath_upward hOldIds
    obtain ⟨targetRows, hTarget, rfl⟩ := parentPath_upward hTargetIds
    rw [find_shared hOld hTarget] at hWalk hResult
    cases hResult
    rw [collectWalk_takeWhile hOld hWalk]
    have hAbandoned : ∀ handed : List FileEntry, Abandoned rows (some old) target handed.reverse ↔
        handed = oldRows.filter (· ∉ targetRows) := by
      intro handed
      have hFilter : ∀ path : List FileEntry, (path.filter fun row => ¬ Above rows (some target) row) =
          path.filter (· ∉ targetRows) := fun path => List.filter_congr fun row _ => by simp [above_iff hTarget]
      constructor
      · rintro ⟨oldPath, hPath, hHanded⟩
        rw [hFilter, ← List.reverse_reverse oldPath, hPath.determined hOld, List.filter_reverse] at hHanded
        exact List.reverse_inj.mp hHanded
      · rintro rfl
        refine ⟨oldRows.reverse, by rwa [List.reverse_reverse], ?_⟩
        rw [hFilter, List.filter_reverse]
    rw [hAbandoned]
    constructor
    · intro hSame oldPath targetPath hOldPath hTargetPath
      rw [← List.reverse_reverse oldPath, ← List.reverse_reverse targetPath, hOldPath.determined hOld,
        Upward.determined hTargetPath hTarget]
      exact shared_le_one hOld hTarget hSame
    · intro hRoot
      refine below_shared hOld hTarget (hRoot _ _ ?_ ?_)
      · rwa [List.reverse_reverse]
      · rwa [RootPath, List.reverse_reverse]

theorem collected_mem (hResult : collectEntriesForBranchSummary rows fuel leafId target = some result)
    (hMem : row ∈ result.entries) : row ∈ rows := by
  cases leafId with
  | none =>
    cases hResult
    cases hMem
  | some old =>
    simp only [collectEntriesForBranchSummary, Option.bind_eq_bind, Option.bind_eq_some_iff] at hResult
    obtain ⟨oldIds, hOldIds, targetIds, -, collected, hWalk, hResult⟩ := hResult
    obtain ⟨oldRows, hOld, rfl⟩ := parentPath_upward hOldIds
    cases hResult
    rw [collectWalk_takeWhile hOld hWalk] at hMem
    obtain ⟨id, -, hFirst⟩ := hOld.first ((List.takeWhile_prefix _).subset (List.mem_reverse.mp hMem))
    obtain ⟨index, -, hAt⟩ := Option.bind_eq_some_iff.mp hFirst
    exact List.mem_of_getElem? hAt

theorem toFileEntry_ids {entry : SessionEntry} (hRow : entry.toFileEntry = some row) :
    row.id = some entry.id ∧ ∀ parent, row.parentId = some parent → entry.parentId = some parent := by
  obtain ⟨value, hValue, hRead⟩ := Option.bind_eq_some_iff.mp hRow
  unfold SessionEntry.toValue at hValue
  split at hValue
  next members _ =>
    cases hValue
    obtain rfl := Option.some.inj hRead
    have hBase := members_base entry members
    show ((KnownFileEntry.ofMembers (entry.members members)).getD (.unknown (entry.members members))).id = _ ∧
      ∀ parent, ((KnownFileEntry.ofMembers (entry.members members)).getD (.unknown (entry.members members))).parentId =
        some parent → _
    cases hKnown : KnownFileEntry.ofMembers (entry.members members) with
    | none =>
      obtain ⟨type, id, parentId, timestamp, fields⟩ := entry
      refine ⟨rfl, fun parent hParent => ?_⟩
      cases parentId with
      | none => cases hParent
      | some above => exact hParent
    | some known =>
      by_cases hType : entry.type = "session"
      · unfold KnownFileEntry.ofMembers at hKnown
        rw [show (entry.members members).lookup "type" = some (.string entry.type) from rfl, hType] at hKnown
        obtain ⟨header, hHeader, rfl⟩ := Option.map_eq_some_iff.mp hKnown
        unfold SessionHeader.ofFields at hHeader
        simp only [Option.bind_eq_bind, Option.bind_eq_some_iff, Option.some.injEq] at hHeader
        obtain ⟨_, -, id, hId, _, -, _, -, _, -, _, -, _, -, rfl⟩ := hHeader
        obtain rfl : entry.id = id := Option.some.inj hId
        exact ⟨rfl, nofun⟩
      · obtain ⟨base, hBase', hKept, -⟩ := @known_base (entry.members members) entry.type rfl hType known hKnown
        rw [hBase] at hBase'
        obtain rfl := Option.some.inj hBase'
        exact ⟨FileEntry.id_of_base hKept, fun parent hParent => (FileEntry.parentId_of_base hKept).symm.trans hParent⟩
  next => cases hValue

/-! ## The running turn -/

section Turn

variable {serde : StoreSerde} {store : SessionFile} {calls : List PersistCall} {held held' : Held} {ids : List String}
  {row : FileEntry}

theorem runTurn_idle (hTurn : runTurn serde calls held = ([], held')) :
    held'.1.entries = held.1.entries ∧ held'.1.leafId = held.1.leafId := by
  induction calls generalizing held with
  | nil =>
    cases hTurn
    exact ⟨rfl, rfl⟩
  | cons call calls ih =>
    unfold runTurn at hTurn
    cases hPersist : persistEntryAt serde call held.1 held.2 with
    | mk result next =>
      cases hRest : runTurn serde calls next with
      | mk rest last =>
        simp only [hPersist, hRest, Prod.mk.injEq, List.append_eq_nil_iff] at hTurn
        obtain ⟨⟨hNone, rfl⟩, rfl⟩ := hTurn
        obtain rfl : result = none := by simpa using hNone
        obtain ⟨hEntries, hLeaf, -⟩ := persist_failed hPersist
        exact ⟨(ih hRest).1.trans hEntries, (ih hRest).2.trans hLeaf⟩

def NewRow (store : SessionFile) (entry : SessionEntry) : Prop :=
  entry.Written ∧ ¬ store.Holds entry.id

def Grown (store file : SessionFile) : Prop :=
  ∃ more, file.envelopes = store.envelopes ++ more ∧ ∀ envelope ∈ more, ¬ store.Holds envelope.id

theorem runTurn_grown (hNew : ∀ call ∈ calls, ∀ file, NewRow store (call.entry file)) (hGrown : Grown store held.1)
    (hTurn : runTurn serde calls held = (ids, held')) :
    Grown store held'.1 ∧ (ids ≠ [] → ∃ entry ∈ held'.1.entries, held'.1.leafId = some entry.id ∧ NewRow store entry) := by
  induction calls generalizing held ids with
  | nil =>
    cases hTurn
    exact ⟨hGrown, fun hIds => absurd rfl hIds⟩
  | cons call calls ih =>
    obtain ⟨hHere, hThere⟩ := List.forall_mem_cons.mp hNew
    unfold runTurn at hTurn
    cases hPersist : persistEntryAt serde call held.1 held.2 with
    | mk result next =>
      cases hRest : runTurn serde calls next with
      | mk rest last =>
        simp only [hPersist, hRest, Prod.mk.injEq] at hTurn
        obtain ⟨rfl, rfl⟩ := hTurn
        cases result with
        | none =>
          have hSame : next.1.envelopes = held.1.envelopes :=
            congrArg (List.map SessionEntry.envelope) (persist_failed hPersist).1
          exact ih hThere (by unfold Grown; rwa [hSame]) hRest
        | some id =>
          obtain ⟨rfl, hLeaf, hEnvelopes, hRow⟩ := persist_done hPersist
          obtain ⟨more, hMore, hFresh⟩ := hGrown
          have hNext : Grown store next.1 := by
            refine ⟨more ++ [(call.entry held.1).envelope], ?_, fun envelope hMem => ?_⟩
            · rw [hEnvelopes, hMore, List.append_assoc]
            · obtain hOld | hLast := List.mem_append.mp hMem
              · exact hFresh envelope hOld
              · rw [List.mem_singleton.mp hLast]
                exact (hHere held.1).2
          obtain ⟨hLastGrown, hLastLeaf⟩ := ih hThere hNext hRest
          refine ⟨hLastGrown, fun _ => ?_⟩
          by_cases hNone : rest = []
          · subst hNone
            obtain ⟨hEntries, hSameLeaf⟩ := runTurn_idle hRest
            obtain ⟨entry, hMem, hId, hWritten⟩ := hRow (hHere held.1).1
            refine ⟨entry, hEntries ▸ hMem, ?_, hWritten, ?_⟩
            · rw [hSameLeaf, hLeaf, hId]
            · rw [hId]
              exact (hHere held.1).2
          · exact hLastLeaf hNone

theorem above_held {file : SessionFile} (hGrown : Grown store file) {id? : Option String}
    (hAbove : Above (engineRows file) id? row) (hHeld : ∀ id, id? = some id → store.Holds id) :
    ∃ id, row.id = some id ∧ store.Holds id := by
  induction hAbove with
  | here hRow => exact ⟨_, firstRow_id hRow, hHeld _ rfl⟩
  | @up id row other hRow _ ih =>
    refine ih fun parent hParent => ?_
    obtain ⟨index, -, hAt⟩ := Option.bind_eq_some_iff.mp hRow
    obtain ⟨entry, hEntry, hRead⟩ := List.mem_filterMap.mp (List.mem_of_getElem? hAt)
    obtain ⟨hId, hParents⟩ := toFileEntry_ids hRead
    have hSame : entry.id = id := Option.some.inj (hId.symm.trans (firstRow_id hRow))
    obtain ⟨more, hMore, hFresh⟩ := hGrown
    have hEnvelope : entry.envelope ∈ store.envelopes ++ more := hMore ▸ List.mem_map_of_mem hEntry
    obtain hOld | hNew := List.mem_append.mp hEnvelope
    · obtain ⟨kept, hKept, hShared⟩ := List.mem_map.mp hOld
      have hAbove : kept.parentId = some parent :=
        (congrArg Envelope.parentId hShared).trans (hParents parent hParent)
      exact .inr (.inr ⟨kept, hKept, .inr hAbove⟩)
    · refine absurd (hHeld id rfl) ?_
      rw [← hSame]
      exact hFresh _ hNew

theorem firstRow_ne_none {rows : List FileEntry} {id : String} (hMem : row ∈ rows) (hId : row.id = some id) :
    firstRow rows id ≠ none := by
  intro hNone
  unfold firstRow at hNone
  cases hIndex : firstIndexById rows id with
  | none =>
    unfold firstIndexById at hIndex
    rw [List.findIdx?_eq_none_iff] at hIndex
    simpa [hId] using hIndex row hMem
  | some index =>
    rw [hIndex, Option.bind_some, List.getElem?_eq_none_iff] at hNone
    exact absurd (firstIndexById_lt hIndex) (by omega)

theorem handed_iff (hNew : ∀ call ∈ calls, ∀ file, NewRow store (call.entry file)) {disk : Option Bytes} {fuel : Nat}
    (hTurn : runTurn serde calls (store, disk) = (ids, held)) {target : String} (hTarget : store.Holds target)
    {result : CollectEntriesResult}
    (hResult : collectEntriesForBranchSummary (engineRows store) fuel store.leafId target = some result) :
    Abandoned (engineRows held.1) held.1.leafId target result.entries ↔
      ids = [] ∧ ForkAtRoot (engineRows store) store.leafId target := by
  by_cases hIdle : ids = []
  · subst hIdle
    obtain ⟨hEntries, hLeaf⟩ := runTurn_idle hTurn
    have hRows : engineRows held.1 = engineRows store := by
      unfold engineRows
      rw [hEntries]
    rw [hRows, hLeaf, collected_iff hResult]
    exact (and_iff_right rfl).symm
  · refine iff_of_false ?_ fun hBoth => hIdle hBoth.1
    rintro ⟨oldPath, hOld, hHanded⟩
    obtain ⟨hGrown, hLast⟩ := runTurn_grown hNew ⟨[], (List.append_nil _).symm, by simp⟩ hTurn
    obtain ⟨entry, hEntry, hLeaf, hWritten, hFresh⟩ := hLast hIdle
    have hRow : entry.row ∈ engineRows held.1 := by
      obtain ⟨_, -, hRead, -⟩ := written_row hWritten
      exact List.mem_filterMap.mpr ⟨entry, hEntry, hRead⟩
    rw [hLeaf] at hOld
    generalize hPath : oldPath.reverse = path at hOld
    cases hOld with
    | stops hNone => exact firstRow_ne_none hRow (row_ids hWritten).1 hNone
    | @climbs _ row rest hFirst _ =>
      have hId := firstRow_id hFirst
      have hApart : ¬ Above (engineRows held.1) (some target) row := by
        intro hAbove
        obtain ⟨other, hOther, hHeld⟩ := above_held hGrown hAbove fun id hSame => Option.some.inj hSame ▸ hTarget
        rw [hId] at hOther
        exact hFresh (Option.some.inj hOther ▸ hHeld)
      have hMem : row ∈ result.entries := by
        rw [hHanded, List.mem_filter]
        refine ⟨List.mem_reverse.mp (hPath ▸ List.mem_cons_self), by simpa using hApart⟩
      obtain ⟨old, hOldEntry, hRead⟩ := List.mem_filterMap.mp (collected_mem hResult hMem)
      have hSame : old.id = entry.id := Option.some.inj ((toFileEntry_ids hRead).1.symm.trans hId)
      exact hFresh (.inr (.inr ⟨old, hOldEntry, .inl hSame⟩))

end Turn

/-! ## Every navigation -/

theorem summarizeBranch_gaveUp {answer : DaemonResponse}
    (hSummary : summarizeBranch fuel env request store = some (handed, .error answer)) : answer.gaveUp = true := by
  unfold summarizeBranch at hSummary
  split at hSummary
  next =>
    obtain ⟨collected, -, hOutcome⟩ := Option.map_eq_some_iff.mp hSummary
    obtain ⟨-, hOutcome⟩ := Prod.mk.inj hOutcome
    split at hOutcome
    next => cases hOutcome
    next =>
      split at hOutcome
      next => cases hOutcome
      next =>
        cases hOutcome
        rfl
      next =>
        cases hOutcome
        rfl
  next => cases hSummary

theorem summarizeBranch_handed {outcome : Except DaemonResponse (Option BranchSummaryRun)}
    (hAsked : request.summarize = true) (hSummary : summarizeBranch fuel env request store = some (handed, outcome)) :
    ∃ result,
      collectEntriesForBranchSummary (engineRows store) fuel store.leafId request.targetId = some result ∧
        handed = result.entries := by
  unfold summarizeBranch at hSummary
  rw [if_pos hAsked] at hSummary
  obtain ⟨collected, hCollected, hOutcome⟩ := Option.map_eq_some_iff.mp hSummary
  exact ⟨collected, hCollected, (Prod.mk.inj hOutcome).1.symm⟩

theorem navigateTree_settled {payload : Json} {core : SessionCore} {navigated : Navigated}
    (hNavigated : navigateTree serde fuel env payload core = some navigated) (hStore : core.store = some store)
    (hEntry : store.entry (NavigateRequest.ofPayload payload).targetId ≠ none)
    (hApart : some (NavigateRequest.ofPayload payload).targetId ≠ store.leafId)
    (hAsked : (NavigateRequest.ofPayload payload).summarize = true) :
    navigated.settled.store = some (runTurn serde env.turn (store, core.disk)).2.1 ∧ ∃ result,
      collectEntriesForBranchSummary (engineRows store) fuel store.leafId (NavigateRequest.ofPayload payload).targetId =
        some result ∧ navigated.handed = result.entries := by
  unfold navigateTree at hNavigated
  obtain ⟨target, hTarget⟩ := Option.ne_none_iff_exists'.mp hEntry
  simp only [hStore, hTarget, if_neg hApart, Option.map_eq_some_iff] at hNavigated
  obtain ⟨⟨handed, outcome⟩, hSummary, rfl⟩ := hNavigated
  obtain ⟨result, hResult, rfl⟩ := summarizeBranch_handed hAsked hSummary
  cases outcome <;> exact ⟨rfl, result, hResult, rfl⟩

theorem land_missing {point : Option String × Option String} {summary : Option BranchSummaryRun} {settled : SessionCore}
    {held : Held} (hMissing : held.1.branchTo point.1 = none) :
    land serde env request point summary settled held = (.failure (notFound (point.1.getD "")), settled.hold held) := by
  cases summary with
  | none => simp only [land, moveLeaf, hMissing]
  | some run => simp only [land, moveLeaf, appendBranchSummary, hMissing]

/-- The ids that are drawn are new: those of the turn's rows, and those of the writes once it has settled. -/
structure DrawsNew (serde : StoreSerde) (env : NavigationEnv) (core : SessionCore) : Prop where
  turn : ∀ store, core.store = some store → ∀ call ∈ env.turn, ∀ file, NewRow store (call.entry file)
  writes : ∀ store, core.store = some store → ∀ write ∈ [env.summaryWrite, env.labelWrite], ∀ kind fields,
    (write.call kind fields).Fresh (runTurn serde env.turn (store, core.disk)).2.1

/-- A navigation that gives up leaves the leaf and the context, and one that summarizes hands over the abandoned rows,
exactly where the move is safe. -/
theorem navigation_sound_iff (serde : StoreSerde) (fuel : Nat) (env : NavigationEnv) (payload : Json) (core : SessionCore)
    (navigated : Navigated) (hNavigated : navigateTree serde fuel env payload core = some navigated)
    (hNew : DrawsNew serde env core) :
    navigated.Sound (.ofPayload payload) core ↔ SafeMove serde fuel env (.ofPayload payload) core := by
  unfold navigateTree at hNavigated
  generalize NavigateRequest.ofPayload payload = request at hNavigated ⊢
  dsimp only at hNavigated
  split at hNavigated
  next hNone =>
    cases hNavigated
    refine iff_of_true ⟨fun _ => rfl, fun _ => id, nofun⟩ fun store _ _ _ _ _ _ hStore => ?_
    rw [hNone] at hStore
    cases hStore
  next store hStore =>
    have hOnly : ∀ other, core.store = some other → other = store := fun other hOther =>
      Option.some.inj (hOther.symm.trans hStore)
    split at hNavigated
    next hMissing =>
      cases hNavigated
      refine iff_of_true ⟨fun _ => rfl, fun _ => id, nofun⟩ fun other _ _ _ _ _ _ hOther hEntry => ?_
      rw [hOnly other hOther, hMissing] at hEntry
      cases hEntry
    next target hEntry =>
      split at hNavigated
      next hThere =>
        cases hNavigated
        refine iff_of_true ⟨nofun, nofun, fun _ _ hApart => absurd ?_ hApart⟩ fun other _ _ _ _ _ _ hOther _ hApart => ?_
        · rw [SessionCore.leafId, hStore]
          exact hThere
        · exact absurd (hOnly other hOther ▸ hThere) hApart
      next hApart =>
        obtain ⟨⟨handed, outcome⟩, hSummary, hNavigated⟩ := Option.map_eq_some_iff.mp hNavigated
        generalize hRan : runTurn serde env.turn (store, core.disk) = ran at hNavigated
        obtain ⟨ids, held⟩ := ran
        cases outcome with
        | error answer =>
          cases hNavigated
          have hGaveUp := summarizeBranch_gaveUp hSummary
          refine iff_of_true ⟨fun _ => rfl, fun _ => id, fun hAnswered => ?_⟩ fun other _ _ _ _ _ _ hOther _ _ hOk => ?_
          · rw [hGaveUp] at hAnswered
            cases hAnswered
          · rw [hOnly other hOther, hSummary] at hOk
            cases hOk
        | ok summary =>
          have hHeld : (runTurn serde env.turn (store, core.disk)).2.1 = held.1 := by rw [hRan]
          have hFresh : ∀ write ∈ [env.summaryWrite, env.labelWrite], ∀ kind fields,
              (write.call kind fields).Fresh held.1 := fun write hWrite kind fields =>
            hHeld ▸ hNew.writes store hStore write hWrite kind fields
          have hLeaf : some request.targetId ≠ core.leafId := by
            rwa [SessionCore.leafId, hStore]
          have hTarget : store.Holds request.targetId := by
            refine .inr (.inl fun hNone => ?_)
            rw [SessionFile.entry, hNone] at hEntry
            cases hEntry
          have hHanded : request.summarize = true → (Abandoned (engineRows held.1) held.1.leafId request.targetId handed ↔
              ids = [] ∧ ForkAtRoot (engineRows store) store.leafId request.targetId) := by
            intro hAsked
            obtain ⟨result, hResult, rfl⟩ := summarizeBranch_handed hAsked hSummary
            exact handed_iff (hNew.turn store hStore) hRan hTarget hResult
          generalize hSettled : ({ core.hold held with rows := env.turnRows } : SessionCore) = settled at hNavigated
          dsimp only at hNavigated
          have hStored : settled.store = some held.1 := hSettled ▸ rfl
          have hRetained : core.retainedIds = settled.retainedIds := hSettled ▸ rfl
          cases hMoved : held.1.branchTo (navigationPoint target).1 with
          | none =>
            rw [land_missing hMoved] at hNavigated
            cases hNavigated
            refine iff_of_true ⟨fun _ => ?_, fun _ hAgrees file hFile => ?_, nofun⟩ fun other _ _ _ _ _ moved hOther hAt _ _
              hTurned hLanded => ?_
            · rw [SessionCore.leafId, SessionCore.leafId, hStored]
              rfl
            · exact hAgrees file (hStored.trans hFile)
            · obtain rfl := hOnly other hOther
              cases hAt.symm.trans hEntry
              cases hTurned.symm.trans hRan
              cases hLanded.symm.trans hMoved
          | some moved =>
            obtain ⟨hGaveUp, hKept⟩ := @land_iff serde env request (navigationPoint target).1 summary held moved settled
              (navigationPoint target).2 hStored hMoved (hFresh _ (by simp) _) (hFresh _ (by simp) _)
            have hSafe : SafeMove serde fuel env request core ↔
                (Completes serde env request (navigationPoint target).1 summary settled.retainedIds held ∨
                  FailsFirst serde env request (navigationPoint target).1 summary settled.retainedIds held moved ∧
                    (navigationPoint target).1 = held.1.leafId) ∧
                (Completes serde env request (navigationPoint target).1 summary settled.retainedIds held →
                  request.summarize = true → ids = [] ∧ ForkAtRoot (engineRows store) store.leafId request.targetId) := by
              unfold SafeMove
              rw [hRetained]
              constructor
              · exact fun hSafe => hSafe store target handed summary ids held moved hStore hEntry hApart hSummary hRan hMoved
              · intro hSafe other target' handed' summary' ids' held' moved' hOther hAt _ hSummary' hTurned hLanded
                obtain rfl := hOnly other hOther
                cases hAt.symm.trans hEntry
                cases hSummary'.symm.trans hSummary
                cases hTurned.symm.trans hRan
                cases hLanded.symm.trans hMoved
                exact hSafe
            rw [hSafe]
            cases hNavigated
            constructor
            · intro hSound
              refine ⟨hKept.mp fun hAnswer => ⟨hSound.leaf hAnswer, hSound.context hAnswer⟩, fun hCompletes hAsked => ?_⟩
              exact (hHanded hAsked).mp (hSound.handed (hGaveUp.mpr hCompletes) hAsked hLeaf held.1 hStored)
            · rintro ⟨hSteps, hBranch⟩
              have hStays := hKept.mpr hSteps
              refine ⟨fun hAnswer => (hStays hAnswer).1, fun hAnswer => (hStays hAnswer).2, ?_⟩
              intro hAnswer hAsked _ file hFile
              obtain rfl := Option.some.inj (hStored.symm.trans hFile)
              exact (hHanded hAsked).mpr (hBranch (hGaveUp.mp hAnswer) hAsked)

/-! ## A root with one answer -/

theorem newEntryId_const (used : KeyMap String Nat) (id : String) : newEntryId used (fun _ => id) = id := by
  unfold newEntryId
  cases hFind : ((List.range 100).map fun _ => id).find? fun id => !used.contains id with
  | none => rfl
  | some found =>
    obtain ⟨_, -, hSame⟩ := List.mem_map.mp (List.mem_of_find?_eq_some hFind)
    exact hSame.symm

def fixedWrite (id : String) (succeeds : Bool) : Write :=
  ⟨"2026-01-01T00:00:00.000Z", fun _ => id, id, succeeds, "disk full"⟩

theorem fixed_id (id : String) (succeeds : Bool) (kind : String) (fields : Json) (file : SessionFile) :
    (((fixedWrite id succeeds).call kind fields).entry file).id = id := by
  show (if file.window.isSome then id else newEntryId file.byId fun _ => id) = id
  rw [newEntryId_const, ite_self]

def note : Json :=
  .object [("customType", .string "note")]

def notes : SessionFile :=
  storeAfter [appendCall "a" "custom" note, appendCall "b" "custom" note]

def noteEnv (turn : List PersistCall) (labelSucceeds : Bool) : NavigationEnv where
  turn := turn
  turnRows := []
  runBranchSummary _ := .complete ⟨"summary", none, none, none⟩
  summaryWrite := fixedWrite "s" true
  labelWrite := fixedWrite "m" labelSucceeds
  rebuildError _ _ := none

def noteCore (path : String) : SessionCore :=
  ⟨some { notes with path := path }, none, [], []⟩

theorem noteCall_new (path : String) :
    ∀ call ∈ [appendCall "n" "custom" note], ∀ file, NewRow { notes with path := path } (call.entry file) := by
  intro call hCall file
  obtain rfl := List.mem_singleton.mp hCall
  have hId : ((appendCall "n" "custom" note).entry file).id = "n" := fixed_id "n" true "custom" note file
  have hAbsent : ¬ notes.Holds "n" := by decide +kernel
  refine ⟨⟨?_, ?_, ⟨_, rfl, by decide⟩⟩, ?_⟩
  · show "custom" ≠ "session"
    decide
  · rw [hId]
    decide
  · rw [hId]
    exact hAbsent

theorem noteEnv_new {turn : List PersistCall} {path : String} (labelSucceeds : Bool)
    (hTurn : ∀ call ∈ turn, call = appendCall "n" "custom" note)
    (hSummary : ¬ (runTurn idSerde turn ({ notes with path := path }, none)).2.1.Holds "s")
    (hLabel : ¬ (runTurn idSerde turn ({ notes with path := path }, none)).2.1.Holds "m") :
    DrawsNew idSerde (noteEnv turn labelSucceeds) (noteCore path) where
  turn store hStore call hCall := by
    obtain rfl := Option.some.inj hStore
    exact noteCall_new path call (List.mem_singleton.mpr (hTurn call hCall))
  writes store hStore write hWrite kind fields other := by
    obtain rfl := Option.some.inj hStore
    obtain rfl | rfl : write = fixedWrite "s" true ∨ write = fixedWrite "m" labelSucceeds := by
      simpa [noteEnv] using hWrite
    · rwa [fixed_id]
    · rwa [fixed_id]

def summarizePayload : Json :=
  .object [("targetId", .string "a"), ("summarize", .bool true)]

def labelPayload : Json :=
  .object [("targetId", .string "a"), ("label", .string "mark")]

theorem idle_branch_summarized : ∃ navigated,
    navigateTree idSerde 5 (noteEnv [] true) summarizePayload (noteCore "") = some navigated ∧
      (navigated.Sound (.ofPayload summarizePayload) (noteCore "") ↔
        SafeMove idSerde 5 (noteEnv [] true) (.ofPayload summarizePayload) (noteCore "")) := by
  have hSome : (navigateTree idSerde 5 (noteEnv [] true) summarizePayload (noteCore "")).isSome := by
    decide +kernel
  obtain ⟨navigated, hNavigated⟩ := Option.isSome_iff_exists.mp hSome
  exact ⟨navigated, hNavigated, navigation_sound_iff idSerde 5 (noteEnv [] true) summarizePayload (noteCore "") navigated
    hNavigated (noteEnv_new true (fun _ hCall => nomatch hCall) (by decide +kernel) (by decide +kernel))⟩

theorem turn_row_skipped :
    (¬ ∀ (serde : StoreSerde) (fuel : Nat) (env : NavigationEnv) (payload : Json) (core : SessionCore)
      (navigated : Navigated), navigateTree serde fuel env payload core = some navigated → DrawsNew serde env core →
      navigated.answer.gaveUp = true → navigated.after.leafId = navigated.settled.leafId) ∧
    ¬ ∀ (serde : StoreSerde) (fuel : Nat) (env : NavigationEnv) (payload : Json) (core : SessionCore)
      (navigated : Navigated), navigateTree serde fuel env payload core = some navigated → DrawsNew serde env core →
      navigated.Sound (.ofPayload payload) core := by
  constructor
  · intro hLeaf
    have hSome : (navigateTree idSerde 5 (noteEnv [] false) labelPayload (noteCore "/s")).map (fun navigated =>
        (navigated.answer.gaveUp, navigated.after.leafId, navigated.settled.leafId)) =
          some (true, some "a", some "b") := by
      decide +kernel
    obtain ⟨navigated, hNavigated, hValues⟩ := Option.map_eq_some_iff.mp hSome
    simp only [Prod.mk.injEq] at hValues
    have hSame := hLeaf idSerde 5 (noteEnv [] false) labelPayload (noteCore "/s") navigated hNavigated
      (noteEnv_new false (fun _ hCall => nomatch hCall) (by decide +kernel) (by decide +kernel)) hValues.1
    rw [hValues.2.1, hValues.2.2] at hSame
    exact absurd hSame (by decide)
  · intro hSound
    have hSome : (navigateTree idSerde 5 (noteEnv [appendCall "n" "custom" note] true) summarizePayload
        (noteCore "")).map (fun navigated => navigated.answer.gaveUp) = some false := by
      decide +kernel
    obtain ⟨navigated, hNavigated, hAnswer⟩ := Option.map_eq_some_iff.mp hSome
    have hNew : DrawsNew idSerde (noteEnv [appendCall "n" "custom" note] true) (noteCore "") :=
      noteEnv_new true (fun call hCall => List.mem_singleton.mp hCall) (by decide +kernel) (by decide +kernel)
    obtain ⟨hSettled, result, hResult, hHanded⟩ := navigateTree_settled hNavigated rfl (by decide +kernel)
      (by decide +kernel) (by decide)
    have hRows := (hSound idSerde 5 _ summarizePayload _ navigated hNavigated hNew).handed hAnswer (by decide)
      (by decide +kernel) _ hSettled
    rw [hHanded] at hRows
    have hIds : (runTurn idSerde [appendCall "n" "custom" note] ({ notes with path := "" }, none)).1 = ["n"] := by
      decide +kernel
    have hRan : runTurn idSerde [appendCall "n" "custom" note] ({ notes with path := "" }, none) =
        (["n"], (runTurn idSerde [appendCall "n" "custom" note] ({ notes with path := "" }, none)).2) :=
      Prod.ext hIds rfl
    cases ((handed_iff (noteCall_new "") hRan (by decide +kernel) hResult).mp hRows).1

end PrimeAgent.SessionStore
