import PrimeAgent.Manager.Ops

/-! # Strict appends

The append operations with their steps in order, on a manager that may have a windowed store attached: what
is changed before the durable write is put back when the write fails.
-/
namespace PrimeAgent

structure WindowedManager (ω : Type) where
  manager : SessionManager
  window : Option ω

structure Surroundings (ω : Type) where
  env : Env
  fileExists : Bool
  rewriteError : Option StoreError
  appendError : Option StoreError
  windowAppend : FileEntry → ω → ω

namespace WindowedManager

variable {ω : Type} (around : Surroundings ω)

def onManager (f : SessionManager → SessionManager) (s : WindowedManager ω) : WindowedManager ω :=
  { s with manager := f s.manager }

def nextBase (s : WindowedManager ω) : EntryBase where
  id := some (if s.window.isSome then (around.env.ids 0).whole
    else generateId s.manager.byId.contains (around.env.ids 0))
  parentId := s.manager.leafId
  timestamp := some around.env.now

/-- `persist_entry`: the state it leaves behind, and how the write ended. -/
def persistEntry (s : WindowedManager ω) (index : Nat) : WindowedManager ω × Option StoreError :=
  if ¬ s.manager.persist ∨ s.manager.sessionFile = none then (s, none)
  else if ¬ s.manager.hasAssistantEntry ∧ ¬ (s.manager.fileEntries[index]?).any World.isSessionStateOrInfo then
    (s.onManager fun m => { m with flushed := false }, none)
  else if s.window.isNone ∧ (¬ s.manager.flushed ∨ ¬ around.fileExists) then
    match around.rewriteError with
    | some error => (s, some error)
    | none => (s.onManager fun m => { m with flushed := true }, none)
  else (s, around.appendError)

def isAssistant : FileEntry → Bool
  | .message (.assistant _) _ => true
  | _ => false

def pushed (entry : FileEntry) (s : WindowedManager ω) : WindowedManager ω :=
  let marked := if isAssistant entry then s.onManager fun m => { m with hasAssistantEntry := true } else s
  marked.onManager fun m => { m with fileEntries := m.fileEntries ++ [entry] }

def indexed (entry : FileEntry) (index : Nat) (s : WindowedManager ω) : WindowedManager ω :=
  let windowed := { s with window := s.window.map (around.windowAppend entry) }
  match entry.id with
  | some id => windowed.onManager fun m => { m with byId := m.byId.insert id index, leafId := some id }
  | none => windowed

def appendEntry (s : WindowedManager ω) (entry : FileEntry) : WindowedManager ω × Option StoreError :=
  let wasAssistant := s.manager.hasAssistantEntry
  let wasFlushed := s.manager.flushed
  let index := (s.pushed entry).manager.fileEntries.length - 1
  match (s.pushed entry).persistEntry around index with
  | (persisted, some error) =>
    (persisted.onManager fun m => { m with
      fileEntries := m.fileEntries.dropLast, hasAssistantEntry := wasAssistant, flushed := wasFlushed }, some error)
  | (persisted, none) => (persisted.indexed around entry index, none)

/-- `append_entry` of a row over a fresh base, with the id it returns. -/
def append (s : WindowedManager ω) (build : EntryBase → FileEntry) : WindowedManager ω × Except StoreError String :=
  let base := s.nextBase around
  match s.appendEntry around (build base) with
  | (after, some error) => (after, .error error)
  | (after, none) => (after, .ok (base.id.getD ""))

/-- `set_leaf_id`, which panics under a window. -/
def setLeafId (leafId : Option String) (s : WindowedManager ω) : Option (WindowedManager ω) :=
  if s.window.isSome then none else some (s.onManager (·.setLeafId leafId))

/-- `get_entry_by_id(id).is_some()`, which panics under a window. -/
def knowsEntry (id : String) (s : WindowedManager ω) : Option Bool :=
  if s.window.isSome then none else some (s.manager.getEntryById id).isSome

def appendMessage (message : AgentMessage) (s : WindowedManager ω) := s.append around (.message message)

def appendThinkingLevelChange (thinkingLevel : String) (s : WindowedManager ω) :=
  s.append around (.thinkingLevelChange ⟨thinkingLevel⟩)

def appendServiceTierChange (serviceTier : Option ServiceTier) (s : WindowedManager ω) :=
  s.append around (.serviceTierChange ⟨serviceTier⟩)

def appendModelChange (provider modelId : String) (s : WindowedManager ω) :=
  s.append around (.modelChange ⟨provider, modelId⟩)

def appendCompaction (payload : CompactionEntry) (s : WindowedManager ω) := s.append around (.compaction payload)

def appendCustomEntry (customType : String) (data : Option Json) (s : WindowedManager ω) :=
  s.append around (.custom ⟨customType, data⟩)

def appendCustomMessage (customType : String) (content : UserContent) (display : Bool) (details : Option Json)
    (s : WindowedManager ω) :=
  s.append around (.customMessage ⟨customType, content, details, display⟩)

def appendSessionInfo (name : String) (s : WindowedManager ω) :=
  s.append around (.sessionInfo ⟨some (String.ofList (trim name.toList))⟩)

def appendSessionState (status : SessionStateStatus) (s : WindowedManager ω) :=
  s.append around (.sessionState ⟨⟨status⟩⟩)

def appendGitState (git : GitContext) (s : WindowedManager ω) := s.append around (.gitState ⟨git⟩)

def appendChildUsageAttribution (targetId : String) (childUsage aggregateUsage : Usage)
    (origin : Option ChildUsageOrigin) (s : WindowedManager ω) : WindowedManager ω × Except StoreError String :=
  match s.manager.assistantPosition targetId with
  | none => (s, .error (.invalidInput ("Assistant message entry " ++ targetId ++ " not found")))
  | some position =>
    match s.append around (.childUsageAttributed ⟨targetId, childUsage, aggregateUsage, origin⟩) with
    | (after, .ok id) => (after.onManager (·.foldUsage position aggregateUsage), .ok id)
    | (after, .error error) => (after, .error error)

def appendLabelChange (targetId : String) (label : Option String) (s : WindowedManager ω) :
    Option (WindowedManager ω × Except StoreError String) := do
  let known ← s.knowsEntry targetId
  if known then
    match s.append around (.label ⟨targetId, label⟩) with
    | (after, .ok id) => some (after.onManager (·.applyLabelEntry targetId label around.env.now), .ok id)
    | (after, .error error) => some (after, .error error)
  else none

def branchWithSummary (branchFromId : Option String) (summary : String) (details : Option Json)
    (fromHook : Option Bool) (usage : Option Usage) (s : WindowedManager ω) :
    Option (WindowedManager ω × Except StoreError String) := do
  let previousLeaf := s.manager.leafId
  let known ← branchFromId.elim (some true) fun id => s.knowsEntry id
  if known then
    let moved ← s.setLeafId branchFromId
    match moved.append around (.branchSummary ⟨branchFromId.getD "root", summary, details, fromHook, usage⟩) with
    | (after, .ok id) => some (after, .ok id)
    | (after, .error error) => do
      let back ← after.setLeafId previousLeaf
      some (back, .error error)
  else none

end WindowedManager

inductive StrictOp where
  | appendMessage (message : AgentMessage)
  | appendThinkingLevelChange (thinkingLevel : String)
  | appendServiceTierChange (serviceTier : Option ServiceTier)
  | appendModelChange (provider modelId : String)
  | appendCompaction (payload : CompactionEntry)
  | appendCustomEntry (customType : String) (data : Option Json)
  | appendCustomMessage (customType : String) (content : UserContent) (display : Bool) (details : Option Json)
  | appendSessionInfo (name : String)
  | appendSessionState (status : SessionStateStatus)
  | appendGitState (git : GitContext)
  | appendChildUsageAttribution (targetId : String) (childUsage aggregateUsage : Usage)
    (origin : Option ChildUsageOrigin)
  | appendLabelChange (targetId : String) (label : Option String)
  | branchWithSummary (branchFromId : Option String) (summary : String) (details : Option Json)
    (fromHook : Option Bool) (usage : Option Usage)

namespace StrictOp

variable {ω : Type} (around : Surroundings ω)

def run (s : WindowedManager ω) : StrictOp → Option (WindowedManager ω × Except StoreError String)
  | .appendMessage message => some (s.appendMessage around message)
  | .appendThinkingLevelChange level => some (s.appendThinkingLevelChange around level)
  | .appendServiceTierChange tier => some (s.appendServiceTierChange around tier)
  | .appendModelChange provider modelId => some (s.appendModelChange around provider modelId)
  | .appendCompaction payload => some (s.appendCompaction around payload)
  | .appendCustomEntry customType data => some (s.appendCustomEntry around customType data)
  | .appendCustomMessage customType content display details =>
    some (s.appendCustomMessage around customType content display details)
  | .appendSessionInfo name => some (s.appendSessionInfo around name)
  | .appendSessionState status => some (s.appendSessionState around status)
  | .appendGitState git => some (s.appendGitState around git)
  | .appendChildUsageAttribution targetId childUsage aggregateUsage origin =>
    some (s.appendChildUsageAttribution around targetId childUsage aggregateUsage origin)
  | .appendLabelChange targetId label => s.appendLabelChange around targetId label
  | .branchWithSummary branchFromId summary details fromHook usage =>
    s.branchWithSummary around branchFromId summary details fromHook usage

def row : StrictOp → EntryBase → FileEntry
  | .appendMessage message => .message message
  | .appendThinkingLevelChange level => .thinkingLevelChange ⟨level⟩
  | .appendServiceTierChange tier => .serviceTierChange ⟨tier⟩
  | .appendModelChange provider modelId => .modelChange ⟨provider, modelId⟩
  | .appendCompaction payload => .compaction payload
  | .appendCustomEntry customType data => .custom ⟨customType, data⟩
  | .appendCustomMessage customType content display details =>
    .customMessage ⟨customType, content, details, display⟩
  | .appendSessionInfo name => .sessionInfo ⟨some (String.ofList (trim name.toList))⟩
  | .appendSessionState status => .sessionState ⟨⟨status⟩⟩
  | .appendGitState git => .gitState ⟨git⟩
  | .appendChildUsageAttribution targetId childUsage aggregateUsage origin =>
    .childUsageAttributed ⟨targetId, childUsage, aggregateUsage, origin⟩
  | .appendLabelChange targetId label => .label ⟨targetId, label⟩
  | .branchWithSummary branchFromId summary details fromHook usage =>
    .branchSummary ⟨branchFromId.getD "root", summary, details, fromHook, usage⟩

def writes (s : WindowedManager ω) : StrictOp → Bool
  | .appendChildUsageAttribution targetId _ _ _ => (s.manager.assistantPosition targetId).isSome
  | _ => true

def writeError (s : WindowedManager ω) (op : StrictOp) : Option StoreError :=
  if op.writes s then
    (((s.pushed (op.row (s.nextBase around))).persistEntry around s.manager.fileEntries.length)).2
  else none

end StrictOp

namespace WindowedManager

variable {ω : Type} {around : Surroundings ω} {s : WindowedManager ω} {error : StoreError}

def writeFailure (around : Surroundings ω) (s : WindowedManager ω) (assistant stateOrInfo : Bool) : Option StoreError :=
  if ¬ s.manager.persist ∨ s.manager.sessionFile = none then none
  else if ¬ (s.manager.hasAssistantEntry || assistant) ∧ ¬ stateOrInfo then none
  else if s.window.isNone ∧ (¬ s.manager.flushed ∨ ¬ around.fileExists) then around.rewriteError
  else around.appendError

theorem pushed_manager (entry : FileEntry) (s : WindowedManager ω) :
    s.pushed entry = { s with manager := { s.manager with
      hasAssistantEntry := s.manager.hasAssistantEntry || isAssistant entry
      fileEntries := s.manager.fileEntries ++ [entry] } } := by
  unfold pushed
  cases isAssistant entry <;> simp [onManager]

theorem persistEntry_failure (entry : FileEntry) :
    ((s.pushed entry).persistEntry around s.manager.fileEntries.length).2 =
      s.writeFailure around (isAssistant entry) (World.isSessionStateOrInfo entry) := by
  have hEntry : (s.manager.fileEntries ++ [entry])[s.manager.fileEntries.length]? = some entry := by simp
  rw [pushed_manager, persistEntry, writeFailure]
  simp only [hEntry, Option.any_some]
  split
  · rfl
  · split
    · rfl
    · split
      · cases around.rewriteError <;> rfl
      · rfl

theorem persistEntry_error {index : Nat} (hError : (s.persistEntry around index).2 = some error) :
    (s.persistEntry around index).1 = s := by
  unfold persistEntry at hError ⊢
  split at hError
  · cases hError
  · split at hError
    · cases hError
    · split at hError
      · rename_i hRest hDefer hRewrite
        rw [if_neg hRest, if_neg hDefer, if_pos hRewrite]
        cases hFails : around.rewriteError with
        | some found => rfl
        | none => rw [hFails] at hError; cases hError
      · rename_i hRest hDefer hAppend
        rw [if_neg hRest, if_neg hDefer, if_neg hAppend]

theorem appendEntry_error {entry : FileEntry}
    (hError : s.writeFailure around (isAssistant entry) (World.isSessionStateOrInfo entry) = some error) :
    s.appendEntry around entry = (s, some error) := by
  have hIndex : (s.pushed entry).manager.fileEntries.length - 1 = s.manager.fileEntries.length := by
    rw [pushed_manager]
    simp
  rw [← persistEntry_failure] at hError
  have hSame := persistEntry_error hError
  unfold appendEntry
  dsimp only
  rw [hIndex]
  cases hPersisted : (s.pushed entry).persistEntry around s.manager.fileEntries.length with
  | mk persisted outcome =>
    rw [hPersisted] at hError hSame
    subst hError hSame
    rw [pushed_manager]
    simp [onManager]

theorem append_error {build : EntryBase → FileEntry} {error : StoreError}
    (hError : s.writeFailure around (isAssistant (build (s.nextBase around)))
      (World.isSessionStateOrInfo (build (s.nextBase around))) = some error) :
    s.append around build = (s, .error error) := by
  rw [append, appendEntry_error hError]

end WindowedManager

/-- A strict append whose row is not written returns the error and leaves the manager and its window as they were. -/
theorem strict_append_restores {ω : Type} {around : Surroundings ω} {s s' : WindowedManager ω} {op : StrictOp}
    {result : Except StoreError String} {error : StoreError} (hRun : op.run around s = some (s', result))
    (hError : op.writeError around s = some error) : result = .error error ∧ s' = s := by
  have hFailure : s.writeFailure around (WindowedManager.isAssistant (op.row (s.nextBase around)))
      (World.isSessionStateOrInfo (op.row (s.nextBase around))) = some error := by
    rw [StrictOp.writeError] at hError
    split at hError
    · rwa [WindowedManager.persistEntry_failure] at hError
    · cases hError
  have hAppend := WindowedManager.append_error hFailure
  cases op with
  | appendChildUsageAttribution targetId childUsage aggregateUsage origin =>
    rw [StrictOp.run, WindowedManager.appendChildUsageAttribution] at hRun
    cases hTarget : s.manager.assistantPosition targetId with
    | none =>
      rw [StrictOp.writeError, StrictOp.writes, hTarget] at hError
      cases hError
    | some position =>
      rw [hTarget] at hRun
      simp only [StrictOp.row] at hAppend
      simp only [hAppend] at hRun
      cases hRun
      exact ⟨rfl, rfl⟩
  | appendLabelChange targetId label =>
    simp only [StrictOp.run, WindowedManager.appendLabelChange, Option.bind_eq_bind, Option.bind_eq_some_iff] at hRun
    obtain ⟨known, -, hRun⟩ := hRun
    split at hRun
    · simp only [StrictOp.row] at hAppend
      simp only [hAppend] at hRun
      cases hRun
      exact ⟨rfl, rfl⟩
    · cases hRun
  | branchWithSummary branchFromId summary details fromHook usage =>
    simp only [StrictOp.run, WindowedManager.branchWithSummary, Option.bind_eq_bind, Option.bind_eq_some_iff] at hRun
    obtain ⟨known, -, hRun⟩ := hRun
    split at hRun
    · obtain ⟨moved, hMoved, hRun⟩ := Option.bind_eq_some_iff.mp hRun
      rw [WindowedManager.setLeafId] at hMoved
      split at hMoved
      · cases hMoved
      · rename_i hWindow
        cases hMoved
        -- the move changes nothing the write looks at
        have hBranched := @WindowedManager.append_error _ around (s.onManager (·.setLeafId branchFromId))
          (.branchSummary ⟨branchFromId.getD "root", summary, details, fromHook, usage⟩) error hFailure
        rw [hBranched] at hRun
        obtain ⟨back, hBack, hRun⟩ := Option.bind_eq_some_iff.mp hRun
        cases hRun
        rw [WindowedManager.setLeafId, WindowedManager.onManager, if_neg hWindow] at hBack
        cases hBack
        exact ⟨rfl, rfl⟩
    · cases hRun
  | _ =>
    cases hRun.symm.trans (congrArg some hAppend)
    exact ⟨rfl, rfl⟩

section Refinement

variable {serde : Serde} {w : World}

def World.surroundings (env : Env) (w : World) : Surroundings Unit where
  env := env
  fileExists := w.manager.sessionFile.any fun path => w.disk.contains path
  rewriteError := if env.canWrite then none else some .disk
  appendError := if env.canWrite then none else some .disk
  windowAppend := fun _ window => window

theorem isAssistant_eq (entry : FileEntry) : WindowedManager.isAssistant entry = entry.assistant?.isSome := by
  cases entry with
  | message message base => cases message <;> rfl
  | _ => rfl

theorem indexed_manager {ω : Type} (around : Surroundings ω) (s : WindowedManager ω) (entry : FileEntry) (index : Nat) :
    (s.indexed around entry index).manager = s.manager.setIndex (s.manager.index.addId entry.id index) := by
  unfold WindowedManager.indexed EntryIndex.addId
  cases entry.id <;> rfl

theorem persistEntry_agrees (env : Env) {entry : FileEntry} {index : Nat}
    (hEntry : w.manager.fileEntries[index]? = some entry) :
    (∀ error, ((⟨w.manager, none⟩ : WindowedManager Unit).persistEntry (w.surroundings env) index).2 = some error →
        w.persistEntry serde env entry = .error error) ∧
      (((⟨w.manager, none⟩ : WindowedManager Unit).persistEntry (w.surroundings env) index).2 = none →
        ∃ written, w.persistEntry serde env entry = .ok written ∧ written.manager =
          ((⟨w.manager, none⟩ : WindowedManager Unit).persistEntry (w.surroundings env) index).1.manager) := by
  unfold WindowedManager.persistEntry World.persistEntry World.surroundings
  simp only [hEntry, Option.any_some]
  cases hFile : w.manager.sessionFile with
  | none =>
    simp only [or_true, if_true]
    exact ⟨by simp, fun _ => ⟨w, rfl, rfl⟩⟩
  | some path =>
    simp only [reduceCtorEq, or_false, Option.any_some, Option.isNone_none, true_and]
    by_cases hPersist : ¬ w.manager.persist
    · simp only [if_pos hPersist]
      exact ⟨by simp, fun _ => ⟨w, rfl, rfl⟩⟩
    simp only [if_neg hPersist]
    by_cases hDefer : ¬ w.manager.hasAssistantEntry ∧ ¬ World.isSessionStateOrInfo entry
    · simp only [if_pos hDefer]
      exact ⟨by simp, fun _ => ⟨_, rfl, rfl⟩⟩
    simp only [if_neg hDefer]
    by_cases hAnew : ¬ w.manager.flushed ∨ ¬ w.disk.contains path
    · simp only [if_pos hAnew, World.tryRewriteFile, hFile, if_neg hPersist]
      cases env.canWrite with
      | true => exact ⟨by simp, fun _ => ⟨_, rfl, rfl⟩⟩
      | false => exact ⟨fun error hError => by cases hError; rfl, by simp⟩
    · simp only [if_neg hAnew]
      rw [not_or, not_not, not_not] at hAnew
      obtain ⟨bytes, hBytes⟩ := Option.isSome_iff_exists.mp hAnew.2
      simp only [World.appendLine, hBytes]
      cases env.canWrite with
      | true => exact ⟨by simp, fun _ => ⟨_, rfl, rfl⟩⟩
      | false => exact ⟨fun error hError => by cases hError; rfl, by simp⟩

theorem appendEntry_refines (env : Env) (entry : FileEntry) :
    ((⟨w.manager, none⟩ : WindowedManager Unit).appendEntry (w.surroundings env) entry).1.manager =
        (w.pushRow serde env false entry).1.manager ∧
      ((⟨w.manager, none⟩ : WindowedManager Unit).appendEntry (w.surroundings env) entry).2 =
        (w.pushRow serde env false entry).2 := by
  have hPushed : (⟨(w.onManager (·.push entry)).manager, none⟩ : WindowedManager Unit) =
      (⟨w.manager, none⟩ : WindowedManager Unit).pushed entry := by
    rw [WindowedManager.pushed_manager, isAssistant_eq]
    rfl
  have hEntry : (w.onManager (·.push entry)).manager.fileEntries[w.manager.fileEntries.length]? = some entry := by
    simp [World.onManager, SessionManager.push]
  obtain ⟨hError, hOk⟩ := @persistEntry_agrees serde _ env _ _ hEntry
  rw [hPushed] at hError hOk
  have hIndex : ((⟨w.manager, none⟩ : WindowedManager Unit).pushed entry).manager.fileEntries.length - 1 =
      w.manager.fileEntries.length := by
    rw [WindowedManager.pushed_manager]
    simp
  cases hEnd : (((⟨w.manager, none⟩ : WindowedManager Unit).pushed entry).persistEntry (w.surroundings env)
      w.manager.fileEntries.length).2 with
  | some error =>
    rw [WindowedManager.persistEntry_failure] at hEnd
    rw [WindowedManager.appendEntry_error hEnd, World.pushRow]
    rw [← WindowedManager.persistEntry_failure] at hEnd
    rw [hError error hEnd]
    exact ⟨rfl, rfl⟩
  | none =>
    obtain ⟨written, hWritten, hManager⟩ := hOk hEnd
    rw [World.pushRow, hWritten, WindowedManager.appendEntry, hIndex]
    cases hPersisted : ((⟨w.manager, none⟩ : WindowedManager Unit).pushed entry).persistEntry (w.surroundings env)
      w.manager.fileEntries.length with
    | mk persisted outcome =>
      rw [hPersisted] at hEnd
      cases hEnd
      have hLength : written.manager.fileEntries.length - 1 = w.manager.fileEntries.length := by
        obtain ⟨flushed, hFlushed⟩ := World.persistEntry_manager hWritten
        rw [hFlushed]
        simp [World.onManager, SessionManager.push]
      refine ⟨?_, rfl⟩
      rw [indexed_manager]
      change _ = written.manager.indexLast entry
      have hSame : written.manager = persisted.manager := hManager.trans (congrArg (fun found => found.1.manager) hPersisted)
      rw [SessionManager.indexLast, hLength, hSame]

end Refinement

def fullDisk : Surroundings Nat :=
  ⟨⟨fun _ => ⟨fun _ => "a", "b"⟩, fun _ => "s", "", none, 0, true, false⟩, true, some .disk, some .disk, fun _ n => n + 1⟩

def windowedSession : WindowedManager Nat :=
  { manager := ⟨"s", some "/s", "/", "/", true, true, true, [], KeyMap.empty, KeyMap.empty, KeyMap.empty, none⟩
    window := some 3 }

theorem full_disk_restores : ∃ result s',
    (StrictOp.appendSessionState .active).run fullDisk windowedSession = some (s', result) ∧
      result = .error .disk ∧ s' = windowedSession := by
  have hRun : (StrictOp.appendSessionState .active).run fullDisk windowedSession =
      some (windowedSession.appendSessionState fullDisk .active) := rfl
  have hError : (StrictOp.appendSessionState .active).writeError fullDisk windowedSession = some .disk := rfl
  exact ⟨_, _, hRun, strict_append_restores hRun hError⟩

end PrimeAgent
