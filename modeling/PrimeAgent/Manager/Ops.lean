import PrimeAgent.Manager.Lifecycle

/-! # Operations as steps

Every operation of the manager as one step on the world, and what a step can do to it.
-/
namespace PrimeAgent

inductive Op where
  | appendMessage (message : AgentMessage)
  | appendMessageRetained (message : AgentMessage)
  | appendThinkingLevelChange (thinkingLevel : String)
  | appendServiceTierChange (serviceTier : Option ServiceTier)
  | appendModelChange (provider modelId : String)
  | appendCompaction (payload : CompactionEntry)
  | appendCustomEntry (customType : String) (data : Option Json)
  | appendCustomEntryRetained (customType : String) (data : Option Json)
  | appendCustomMessage (customType : String) (content : UserContent) (display : Bool) (details : Option Json)
  | appendCustomMessageRetained (customType : String) (content : UserContent) (display : Bool)
    (details : Option Json)
  | appendCustomMessageEntry (customType : String) (content : UserContent) (display : Bool)
    (details : Option Json)
  | appendSessionInfo (name : String)
  | appendSessionState (status : SessionStateStatus)
  | appendGitState (git : GitContext)
  | appendChildUsageAttribution (targetId : String) (childUsage aggregateUsage : Usage)
    (origin : Option ChildUsageOrigin)
  | appendLabelChange (targetId : String) (label : Option String)
  | branchWithSummary (branchFromId : Option String) (summary : String) (details : Option Json)
    (fromHook : Option Bool) (usage : Option Usage)
  | branch (branchFromId : String)
  | resetLeaf
  | flushNow
  | newSession (options : NewSessionOptions)
  | adoptEntries (entries : List FileEntry)
  | materializeSessionFile (sessionDir : Option Path)
  | setSessionFile (sessionFile : Path) (preloadedEntries : Option (List FileEntry))

namespace Op

def run (serde : Serde) (env : Env) (w : World) : Op → Option World
  | .appendMessage message => some (w.appendMessage serde env message).1
  | .appendMessageRetained message => some (w.appendMessageRetained serde env message).1
  | .appendThinkingLevelChange level => some (w.appendThinkingLevelChange serde env level).1
  | .appendServiceTierChange tier => some (w.appendServiceTierChange serde env tier).1
  | .appendModelChange provider modelId => some (w.appendModelChange serde env provider modelId).1
  | .appendCompaction payload => some (w.appendCompaction serde env payload).1
  | .appendCustomEntry customType data => some (w.appendCustomEntry serde env customType data).1
  | .appendCustomEntryRetained customType data => some (w.appendCustomEntryRetained serde env customType data).1
  | .appendCustomMessage customType content display details =>
    some (w.appendCustomMessage serde env customType content display details).1
  | .appendCustomMessageRetained customType content display details =>
    some (w.appendCustomMessageRetained serde env customType content display details).1
  | .appendCustomMessageEntry customType content display details =>
    some (w.appendCustomMessageEntry serde env customType content display details).1
  | .appendSessionInfo name => some (w.appendSessionInfo serde env name).1
  | .appendSessionState status => some (w.appendSessionState serde env status).1
  | .appendGitState git => some (w.appendGitState serde env git).1
  | .appendChildUsageAttribution targetId childUsage aggregateUsage origin =>
    some (w.appendChildUsageAttribution serde env targetId childUsage aggregateUsage origin).1
  | .appendLabelChange targetId label => (w.appendLabelChange serde env targetId label).map (·.1)
  | .branchWithSummary branchFromId summary details fromHook usage =>
    (w.branchWithSummary serde env branchFromId summary details fromHook usage).map (·.1)
  | .branch branchFromId => w.branch branchFromId
  | .resetLeaf => some w.resetLeaf
  | .flushNow => some ((w.flushNow serde env).toOption.getD w)
  | .newSession options => w.newSession env options
  | .adoptEntries entries => some (w.adoptEntries entries)
  | .materializeSessionFile sessionDir => some (w.materializeSessionFile serde env sessionDir)
  | .setSessionFile sessionFile preloadedEntries => some (w.setSessionFile serde env sessionFile preloadedEntries)

end Op

namespace World

variable {serde : Serde} {env : Env} {w w' : World} {entry : FileEntry} {error : StoreError}

theorem tryRewriteFile_manager (h : tryRewriteFile serde env w = .ok w') : w'.manager = w.manager := by
  unfold tryRewriteFile at h
  split at h
  · obtain rfl := Except.ok.inj h; rfl
  · split at h
    · obtain rfl := Except.ok.inj h; rfl
    · split at h
      · obtain rfl := Except.ok.inj h; rfl
      · cases h

theorem rewriteFile_manager (w : World) : (rewriteFile serde env w).manager = w.manager := by
  unfold rewriteFile
  split
  · rename_i h; exact tryRewriteFile_manager h
  · rfl

theorem appendLine_manager {path : Path} (h : appendLine serde env w path entry = .ok w') : w'.manager = w.manager := by
  unfold appendLine at h
  split at h
  · split at h
    · obtain rfl := Except.ok.inj h; rfl
    · cases h
  · cases h

theorem flushedRewrite_manager (h : (tryRewriteFile serde env w).map (·.setFlushed true) = .ok w') :
    w'.manager = { w.manager with flushed := true } := by
  cases hRewrite : tryRewriteFile serde env w with
  | error error => rw [hRewrite] at h; cases h
  | ok written =>
    rw [hRewrite] at h
    obtain rfl := Except.ok.inj h
    rw [← tryRewriteFile_manager hRewrite]
    rfl

theorem persistEntry_manager (h : persistEntry serde env w entry = .ok w') :
    ∃ flushed, w'.manager = { w.manager with flushed := flushed } := by
  unfold persistEntry at h
  split at h
  · obtain rfl := Except.ok.inj h
    exact ⟨w.manager.flushed, rfl⟩
  · split at h
    · obtain rfl := Except.ok.inj h
      exact ⟨w.manager.flushed, rfl⟩
    · split at h
      · obtain rfl := Except.ok.inj h
        exact ⟨false, rfl⟩
      · split at h
        · exact ⟨true, flushedRewrite_manager h⟩
        · exact ⟨w.manager.flushed, by rw [appendLine_manager h]⟩

theorem flushNow_manager (w : World) :
    ∃ flushed, ((flushNow serde env w).toOption.getD w).manager = { w.manager with flushed := flushed } := by
  have hSame : ∃ flushed, w.manager = { w.manager with flushed := flushed } := ⟨w.manager.flushed, rfl⟩
  unfold flushNow
  split
  · exact hSame
  · split
    · exact hSame
    · split
      · exact hSame
      · cases hRewrite : (tryRewriteFile serde env w).map (·.setFlushed true) with
        | error error => exact hSame
        | ok written => exact ⟨true, flushedRewrite_manager hRewrite⟩

theorem pushRow_of_ok {w written : World} (retain : Bool)
    (h : persistEntry serde env (w.onManager (·.push entry)) entry = .ok written) :
    pushRow serde env retain w entry = (written.onManager (·.indexLast entry), none) := by
  simp only [pushRow, h]

theorem pushRow_of_error {w : World} (retain : Bool)
    (h : persistEntry serde env (w.onManager (·.push entry)) entry = .error error) :
    pushRow serde env retain w entry
      = (if retain then (w.onManager (·.push entry)).onManager (·.indexLast entry) else w, some error) := by
  simp only [pushRow, h]

theorem indexLast_flushed (m : SessionManager) (entry : FileEntry) (flushed : Bool) :
    ({ m with flushed := flushed } : SessionManager).indexLast entry
      = { m.indexLast entry with flushed := flushed } := by
  cases hId : entry.id <;> simp only [SessionManager.indexLast, hId] <;> rfl

theorem pushRow_manager (retain : Bool) (w : World) (entry : FileEntry) :
    (∃ flushed, (pushRow serde env retain w entry).1.manager
        = { (w.manager.push entry).indexLast entry with flushed := flushed }) ∨
      retain = false ∧ (pushRow serde env retain w entry).2.isSome ∧ (pushRow serde env retain w entry).1 = w := by
  cases hPersist : persistEntry serde env (w.onManager (·.push entry)) entry with
  | ok written =>
    obtain ⟨flushed, hManager⟩ := persistEntry_manager hPersist
    refine Or.inl ⟨flushed, ?_⟩
    rw [pushRow_of_ok retain hPersist, ← indexLast_flushed]
    exact congrArg (·.indexLast entry) hManager
  | error error =>
    rw [pushRow_of_error retain hPersist]
    cases retain with
    | true => exact Or.inl ⟨((w.manager.push entry).indexLast entry).flushed, rfl⟩
    | false => exact Or.inr ⟨rfl, rfl, rfl⟩

theorem pushRow_strict_error (h : pushRow serde env false w entry = (w', some error)) : w' = w := by
  cases hPersist : persistEntry serde env (w.onManager (·.push entry)) entry with
  | ok written =>
    rw [pushRow_of_ok false hPersist] at h
    cases (Prod.mk.inj h).2
  | error error' =>
    rw [pushRow_of_error false hPersist] at h
    exact (Prod.mk.inj h).1.symm

end World

/-- What an append operation writes: where the leaf is put first, the row it builds on the next base, and
what it does to the manager once the row is written. -/
structure RowWrite where
  retain : Bool
  leafId : Option String
  build : EntryBase → FileEntry
  settle : SessionManager → SessionManager

namespace RowWrite

def row (env : Env) (m : SessionManager) (write : RowWrite) : FileEntry :=
  write.build ((m.setLeafId write.leafId).nextBase env)

def written (env : Env) (m : SessionManager) (write : RowWrite) : SessionManager :=
  write.settle (((m.setLeafId write.leafId).push (write.row env m)).indexLast (write.row env m))

def perform (serde : Serde) (env : Env) (w : World) (write : RowWrite) : World :=
  match World.pushRow serde env write.retain (w.onManager (·.setLeafId write.leafId)) (write.row env w.manager) with
  | (w', none) => w'.onManager write.settle
  | (w', some _) => if write.retain then w' else w

/-- How a row settles: a label is indexed, an attribution folded, any other row leaves nothing to do. -/
inductive Settles (env : Env) (m : SessionManager) (write : RowWrite) : Prop
  | plain : write.settle = id →
      (∀ base, (write.build base).isPlain) → Settles env m write
  | label (payload : LabelEntry) : write.retain = false → write.build = .label payload →
      write.settle = (·.applyLabelEntry payload.targetId payload.label env.now) → Settles env m write
  | usage (payload : ChildUsageAttributionEntry) (position : Nat) : write.retain = false →
      write.build = .childUsageAttributed payload → m.assistantPosition payload.targetId = some position →
      write.settle = (·.foldUsage position payload.aggregateUsage) → Settles env m write

structure Valid (env : Env) (m : SessionManager) (write : RowWrite) : Prop where
  base : ∀ base, (write.build base).base? = some base
  leaf : write.leafId = m.leafId ∨ ∀ id, write.leafId = some id → (m.getEntryById id).isSome
  settles : Settles env m write

end RowWrite

namespace Op

def rowWrite? (env : Env) (m : SessionManager) : Op → Option RowWrite
  | .appendMessage message => some ⟨false, m.leafId, .message message, id⟩
  | .appendMessageRetained message => some ⟨true, m.leafId, .message message, id⟩
  | .appendThinkingLevelChange level => some ⟨false, m.leafId, .thinkingLevelChange ⟨level⟩, id⟩
  | .appendServiceTierChange tier => some ⟨false, m.leafId, .serviceTierChange ⟨tier⟩, id⟩
  | .appendModelChange provider modelId => some ⟨false, m.leafId, .modelChange ⟨provider, modelId⟩, id⟩
  | .appendCompaction payload => some ⟨false, m.leafId, .compaction payload, id⟩
  | .appendCustomEntry customType data => some ⟨false, m.leafId, .custom ⟨customType, data⟩, id⟩
  | .appendCustomEntryRetained customType data => some ⟨true, m.leafId, .custom ⟨customType, data⟩, id⟩
  | .appendCustomMessage customType content display details =>
    some ⟨false, m.leafId, .customMessage ⟨customType, content, details, display⟩, id⟩
  | .appendCustomMessageRetained customType content display details =>
    some ⟨true, m.leafId, .customMessage ⟨customType, content, details, display⟩, id⟩
  | .appendCustomMessageEntry customType content display details =>
    some ⟨false, m.leafId, .customMessage ⟨customType, content, details, display⟩, id⟩
  | .appendSessionInfo name =>
    some ⟨false, m.leafId, .sessionInfo ⟨some (String.ofList (trim name.toList))⟩, id⟩
  | .appendSessionState status => some ⟨false, m.leafId, .sessionState ⟨⟨status⟩⟩, id⟩
  | .appendGitState git => some ⟨false, m.leafId, .gitState ⟨git⟩, id⟩
  | .appendChildUsageAttribution targetId childUsage aggregateUsage origin =>
    (m.assistantPosition targetId).map fun position =>
      ⟨false, m.leafId, .childUsageAttributed ⟨targetId, childUsage, aggregateUsage, origin⟩,
        (·.foldUsage position aggregateUsage)⟩
  | .appendLabelChange targetId label =>
    if (m.getEntryById targetId).isNone then none
    else some ⟨false, m.leafId, .label ⟨targetId, label⟩, (·.applyLabelEntry targetId label env.now)⟩
  | .branchWithSummary branchFromId summary details fromHook usage =>
    if branchFromId.any fun id => (m.getEntryById id).isNone then none
    else some ⟨false, branchFromId,
      .branchSummary ⟨branchFromId.getD "root", summary, details, fromHook, usage⟩, id⟩
  | _ => none

def isAppend : Op → Bool
  | .branch _ | .resetLeaf | .flushNow | .newSession _ | .adoptEntries _ | .materializeSessionFile _
  | .setSessionFile _ _ => false
  | _ => true

section Rows

variable {serde : Serde} {env : Env} {w w' : World} {build : EntryBase → FileEntry} {error : StoreError}
  {write : RowWrite}

theorem append_of_written (h : World.pushRow serde env false w (build (w.manager.nextBase env)) = (w', none)) :
    w.append serde env build = (w', .ok ((w.manager.nextBase env).id.getD "")) := by
  simp only [World.append, h]

theorem append_of_failed (h : World.pushRow serde env false w (build (w.manager.nextBase env)) = (w', some error)) :
    w.append serde env build = (w, .error error) := by
  obtain rfl := World.pushRow_strict_error h
  simp only [World.append, h]

theorem perform_of_written
    (h : World.pushRow serde env write.retain (w.onManager (·.setLeafId write.leafId)) (write.row env w.manager)
      = (w', none)) :
    write.perform serde env w = w'.onManager write.settle := by
  simp only [RowWrite.perform, h]

theorem perform_of_failed
    (h : World.pushRow serde env write.retain (w.onManager (·.setLeafId write.leafId)) (write.row env w.manager)
      = (w', some error)) :
    write.perform serde env w = if write.retain then w' else w := by
  simp only [RowWrite.perform, h]

theorem settle_flushed {m : SessionManager} (h : write.Settles env m) (m' : SessionManager) (flushed : Bool) :
    write.settle { m' with flushed := flushed } = { write.settle m' with flushed := flushed } := by
  cases h with
  | plain hSettle _ => rw [hSettle]; rfl
  | label payload _ _ hSettle =>
    rw [hSettle]
    cases hLabel : payload.label <;>
      simp only [SessionManager.applyLabelEntry, EntryIndex.applyLabel, hLabel] <;> rfl
  | usage payload position _ _ _ hSettle => rw [hSettle]; rfl

theorem perform_manager {write : RowWrite} (hValid : write.Valid env w.manager) :
    (∃ flushed, (write.perform serde env w).manager = { write.written env w.manager with flushed := flushed }) ∨
      write.perform serde env w = w := by
  rcases hPush : World.pushRow serde env write.retain (w.onManager (·.setLeafId write.leafId))
    (write.row env w.manager) with ⟨w', _ | error⟩
  · rw [perform_of_written hPush]
    rcases @World.pushRow_manager serde env write.retain (w.onManager (·.setLeafId write.leafId))
      (write.row env w.manager) with ⟨flushed, hManager⟩ | ⟨_, hError, _⟩
    · rw [hPush] at hManager
      refine Or.inl ⟨flushed, ?_⟩
      rw [World.onManager, hManager, settle_flushed hValid.settles]
      rfl
    · rw [hPush] at hError
      cases hError
  · rw [perform_of_failed hPush]
    cases hRetain : write.retain with
    | false => exact Or.inr rfl
    | true =>
      rcases @World.pushRow_manager serde env write.retain
        (w.onManager (·.setLeafId write.leafId)) (write.row env w.manager) with ⟨flushed, hManager⟩ | ⟨hStrict, _, _⟩
      · rw [hPush] at hManager
        refine Or.inl ⟨flushed, ?_⟩
        have hSettle : write.settle = id := by
          cases hValid.settles with
          | plain hSettle _ => exact hSettle
          | label _ hStrict _ _ | usage _ _ hStrict _ _ _ => rw [hRetain] at hStrict; cases hStrict
        rw [RowWrite.written, hSettle]
        exact hManager
      · rw [hRetain] at hStrict
        cases hStrict

theorem perform_atLeaf (retain : Bool) (build : EntryBase → FileEntry) (settle : SessionManager → SessionManager) :
    RowWrite.perform serde env w ⟨retain, w.manager.leafId, build, settle⟩ =
      match World.pushRow serde env retain w (build (w.manager.nextBase env)) with
      | (w', none) => w'.onManager settle
      | (w', some _) => if retain then w' else w :=
  rfl

theorem append_eq_perform (build : EntryBase → FileEntry) :
    (w.append serde env build).1 = RowWrite.perform serde env w ⟨false, w.manager.leafId, build, id⟩ := by
  rcases hPush : World.pushRow serde env false w (build (w.manager.nextBase env)) with ⟨w', _ | error⟩
  · rw [append_of_written hPush, perform_atLeaf, hPush]
    rfl
  · rw [append_of_failed hPush, perform_atLeaf, hPush]
    rfl

theorem appendRetained_eq_perform (build : EntryBase → FileEntry) :
    (w.appendRetained serde env build).1 = RowWrite.perform serde env w ⟨true, w.manager.leafId, build, id⟩ := by
  rcases hPush : World.pushRow serde env true w (build (w.manager.nextBase env)) with ⟨w', _ | error⟩
  · rw [perform_atLeaf, hPush]
    simp only [World.appendRetained, hPush]
    rfl
  · rw [perform_atLeaf, hPush]
    simp only [World.appendRetained, hPush]
    rfl

theorem run_of_rowWrite {op : Op} (h : op.rowWrite? env w.manager = some write) :
    op.run serde env w = some (write.perform serde env w) := by
  cases op with
  | appendMessageRetained | appendCustomEntryRetained | appendCustomMessageRetained =>
    obtain rfl := Option.some.inj h
    exact congrArg some (appendRetained_eq_perform _)
  | appendChildUsageAttribution targetId childUsage aggregateUsage origin =>
    obtain ⟨position, hTarget, rfl⟩ := Option.map_eq_some_iff.mp h
    refine congrArg some ?_
    rcases hPush : World.pushRow serde env false w
      (.childUsageAttributed ⟨targetId, childUsage, aggregateUsage, origin⟩ (w.manager.nextBase env)) with
      ⟨w', _ | error⟩
    · rw [perform_atLeaf, hPush]
      simp only [World.appendChildUsageAttribution, hTarget, append_of_written hPush]
    · rw [perform_atLeaf, hPush]
      simp only [World.appendChildUsageAttribution, hTarget, append_of_failed hPush]
      rfl
  | appendLabelChange targetId label =>
    change (if _ then none else some _) = _ at h
    split at h
    · cases h
    · rename_i hTarget
      obtain rfl := Option.some.inj h
      change (World.appendLabelChange serde env w targetId label).map _ = _
      rw [World.appendLabelChange, if_neg hTarget, Option.map_some]
      refine congrArg some ?_
      rcases hPush : World.pushRow serde env false w (.label ⟨targetId, label⟩ (w.manager.nextBase env)) with
        ⟨w', _ | error⟩
      · rw [perform_atLeaf, hPush]
        simp only [append_of_written hPush]
      · rw [perform_atLeaf, hPush]
        simp only [append_of_failed hPush]
        rfl
  | branchWithSummary branchFromId summary details fromHook usage =>
    change (if _ then none else some _) = _ at h
    split at h
    · cases h
    · rename_i hTarget
      obtain rfl := Option.some.inj h
      change (World.branchWithSummary serde env w branchFromId summary details fromHook usage).map _ = _
      rw [World.branchWithSummary, if_neg hTarget, Option.map_some]
      refine congrArg some ?_
      rcases hPush : World.pushRow serde env false (w.onManager (·.setLeafId branchFromId))
        (.branchSummary ⟨branchFromId.getD "root", summary, details, fromHook, usage⟩
          ((w.manager.setLeafId branchFromId).nextBase env)) with ⟨w', _ | error⟩
      · rw [perform_of_written hPush]
        simp only [append_of_written hPush]
        rfl
      · rw [perform_of_failed hPush]
        simp only [append_of_failed hPush]
        rfl
  | branch | resetLeaf | flushNow | newSession | adoptEntries | materializeSessionFile | setSessionFile => cases h
  | _ =>
    obtain rfl := Option.some.inj h
    exact congrArg some (append_eq_perform _)

theorem run_of_no_rowWrite {op : Op} (hAppend : op.isAppend = true) (h : op.rowWrite? env w.manager = none)
    (hRun : op.run serde env w = some w') : w' = w := by
  cases op with
  | appendChildUsageAttribution targetId childUsage aggregateUsage origin =>
    have hTarget := Option.map_eq_none_iff.mp h
    change some (World.appendChildUsageAttribution serde env w targetId childUsage aggregateUsage origin).1 = _ at hRun
    rw [World.appendChildUsageAttribution, hTarget] at hRun
    exact (Option.some.inj hRun).symm
  | appendLabelChange targetId label =>
    change (if _ then none else some _) = _ at h
    split at h
    · rename_i hTarget
      change (World.appendLabelChange serde env w targetId label).map _ = _ at hRun
      rw [World.appendLabelChange, if_pos hTarget] at hRun
      cases hRun
    · cases h
  | branchWithSummary branchFromId summary details fromHook usage =>
    change (if _ then none else some _) = _ at h
    split at h
    · rename_i hTarget
      change (World.branchWithSummary serde env w branchFromId summary details fromHook usage).map _ = _ at hRun
      rw [World.branchWithSummary, if_pos hTarget] at hRun
      cases hRun
    · cases h
  | branch | resetLeaf | flushNow | newSession | adoptEntries | materializeSessionFile | setSessionFile =>
    cases hAppend
  | _ => cases h

theorem rowWrite?_valid {op : Op} {m : SessionManager} {write : RowWrite} (h : op.rowWrite? env m = some write) :
    write.Valid env m := by
  cases op with
  | appendChildUsageAttribution targetId childUsage aggregateUsage origin =>
    obtain ⟨position, hTarget, rfl⟩ := Option.map_eq_some_iff.mp h
    exact ⟨fun _ => rfl, Or.inl rfl, .usage ⟨targetId, childUsage, aggregateUsage, origin⟩ position rfl rfl hTarget rfl⟩
  | appendLabelChange targetId label =>
    change (if _ then none else some _) = _ at h
    split at h
    · cases h
    · obtain rfl := Option.some.inj h
      exact ⟨fun _ => rfl, Or.inl rfl, .label ⟨targetId, label⟩ rfl rfl rfl⟩
  | branchWithSummary branchFromId summary details fromHook usage =>
    change (if _ then none else some _) = _ at h
    split at h
    · cases h
    · rename_i hTarget
      obtain rfl := Option.some.inj h
      refine ⟨fun _ => rfl, Or.inr ?_, .plain rfl fun _ => rfl⟩
      rintro id rfl
      simpa [Option.isSome_iff_ne_none] using hTarget
  | branch | resetLeaf | flushNow | newSession | adoptEntries | materializeSessionFile | setSessionFile => cases h
  | _ =>
    obtain rfl := Option.some.inj h
    exact ⟨fun _ => rfl, Or.inl rfl, .plain rfl fun _ => rfl⟩

end Rows

end Op

/-- The worlds a manager can be in: one of its constructors, and then any allowed operations. -/
inductive Reachable (serde : Serde) (allowed : Env → World → Op → Prop) : World → Prop
  | persisted (env : Env) (disk : Disk) (cwd sessionDir : Path) :
    Reachable serde allowed (World.persisted serde env disk cwd sessionDir)
  | inMemory (env : Env) (disk : Disk) (cwd : Path) : Reachable serde allowed (World.inMemory serde env disk cwd)
  | inMemoryInSessionDir (env : Env) (disk : Disk) (cwd sessionDir : Path) :
    Reachable serde allowed (World.inMemoryInSessionDir serde env disk cwd sessionDir)
  | openFile (env : Env) (disk : Disk) (cwd sessionDir sessionFile : Path) :
    allowed env ⟨World.blankManager cwd sessionDir true, disk⟩ (.setSessionFile sessionFile none) →
    Reachable serde allowed (World.openFile serde env disk cwd sessionDir sessionFile)
  | step {w w' : World} (env : Env) (op : Op) : Reachable serde allowed w → op.run serde env w = some w' →
    allowed env w op → Reachable serde allowed w'

end PrimeAgent
