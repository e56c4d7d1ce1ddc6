import PrimeAgent.Settings.Manager
import Mathlib.Data.List.Induction

/-! # Scopes that failed to load, and setters that fail

A session follows one manager while its files may be edited between its calls. It notes, at each load,
which scopes had a document that could not be read or parsed.
-/
namespace PrimeAgent.Settings

def failsToLoad (storage : Storage) (fault : Option String) (scope : SettingsScope) : Bool :=
  match storage.document scope with
  | none => false
  | some (.malformed _) => true
  | some (.json _) => fault.isSome

theorem load_scope_error (storage : Storage) (scope : SettingsScope) (fault : Option String) :
    (load_scope storage scope fault).error.isSome = failsToLoad storage fault scope := by
  unfold load_scope failsToLoad Storage.read
  cases storage.document scope with
  | none => rfl
  | some content =>
    cases content with
    | malformed error => cases fault <;> rfl
    | json value =>
      cases fault with
      | some error => rfl
      | none => cases value <;> rfl

structure Session where
  manager : SettingsManager
  storage : Storage
  failed : SettingsScope → Bool

inductive Event where
  | call (op : Op)
  | edited (scope : SettingsScope) (content : Option Content)

namespace Session

def start (storage : Storage) (faults : ReadFaults) : Session :=
  { manager := .from_storage storage faults
    storage := storage
    failed := fun scope => failsToLoad storage (faults.of scope) scope }

def noteLoad (session : Session) : Op → SettingsScope → Bool
  | .reload faults => fun scope => failsToLoad session.storage (faults.of scope) scope
  | _ => session.failed

def step (session : Session) : Event → Session
  | .call op =>
    { manager := (op.run session.manager session.storage).manager
      storage := (op.run session.manager session.storage).storage
      failed := session.noteLoad op }
  | .edited scope content => { session with storage := session.storage.setDocument content scope }

def run (session : Session) (events : List Event) : Session :=
  events.foldl step session

/-- No scope that failed to load is written, and a call that returns an error changes neither the
settings nor a document. -/
structure Promised (session : Session) (outcome : Outcome) : Prop where
  unwritten : ∀ scope, session.failed scope = true →
    outcome.wrote ≠ some scope ∧ outcome.storage.document scope = session.storage.document scope
  unchanged : ∀ error, outcome.result = .error error →
    outcome.manager.merged = session.manager.merged ∧ outcome.manager.global = session.manager.global ∧
    outcome.storage = session.storage

def KeepsPromise (session : Session) : Event → Prop
  | .edited _ _ => True
  | .call op => session.Promised (op.run session.manager session.storage)

/-- A setter whose argument passes its check writes no global scope that failed to load, and where its
write fails the fields had their values already. -/
def SafeSet (session : Session) (call : Call) (fault : Option String) : Prop :=
  ∀ writes, call.setter session.manager.global = .ok writes →
    match fault with
    | none => session.failed .global = false
    | some _ => session.manager.global.writeAll writes = session.manager.global

def SafeSave (session : Session) : Event → Prop
  | .call (.set call fault) => session.SafeSet call fault
  | _ => True

def Tracks (session : Session) : Prop :=
  ∀ scope, (session.manager.load_error scope).isSome = session.failed scope

theorem start_tracks (storage : Storage) (faults : ReadFaults) : (start storage faults).Tracks := by
  intro scope
  cases scope
  · exact load_scope_error storage .global faults.global
  · exact load_scope_error storage .project faults.project

end Session

section Set

variable {setter : Setter} {manager : SettingsManager} {writes : List FieldWrite}

theorem set_of_refused {refusal : String} (hSetter : setter manager.global = .error refusal) (storage : Storage)
    (fault : Option String) :
    manager.set setter storage fault = ⟨manager, storage, .error refusal, none⟩ := by
  rw [SettingsManager.set, hSetter]

theorem set_of_fault (hSetter : setter manager.global = .ok writes) (storage : Storage) (error : String) :
    manager.set setter storage (some error) =
      ⟨{ manager with global := manager.global.writeAll writes }, storage, .error error, none⟩ := by
  rw [SettingsManager.set, hSetter]
  rfl

theorem set_of_saved (hSetter : setter manager.global = .ok writes) (storage : Storage) :
    manager.set setter storage none =
      ⟨{ manager with
          global := manager.global.writeAll writes
          merged := deep_merge (manager.global.writeAll writes) manager.project },
        storage.setDocument (some (.json (manager.global.writeAll writes).to_value)) .global, .ok (),
        some .global⟩ := by
  rw [SettingsManager.set, hSetter]
  rfl

theorem set_load_error (setter : Setter) (manager : SettingsManager) (storage : Storage) (fault : Option String) :
    (manager.set setter storage fault).manager.load_error = manager.load_error := by
  cases hSetter : setter manager.global with
  | error refusal => rw [set_of_refused hSetter]
  | ok writes =>
    cases fault with
    | some error =>
      rw [set_of_fault hSetter]
      rfl
    | none =>
      rw [set_of_saved hSetter]
      rfl

end Set

theorem persist_load_error (manager : SettingsManager) (storage : Storage) (fault : Option String)
    (scope : SettingsScope) (key : String) (value : Json) :
    (manager.persist_scope_field storage fault scope key value).manager.load_error = manager.load_error := by
  unfold SettingsManager.persist_scope_field with_lock
  split
  · rfl
  · cases fault <;> rfl

theorem setScopeField_load_error (scope : SettingsScope) (change : FieldWrite) (manager : SettingsManager)
    (storage : Storage) (fault : Option String) :
    (manager.setScopeField scope change storage fault).manager.load_error = manager.load_error := by
  calc (manager.setScopeField scope change storage fault).manager.load_error
      = ((manager.writeScope change scope).persist_scope_field storage fault scope change.key
          change.value).manager.load_error := rfl
    _ = (manager.writeScope change scope).load_error := persist_load_error _ _ _ _ _ _
    _ = manager.load_error := by cases scope <;> rfl

theorem setResourceArray_load_error (scope : SettingsScope) (key : String) (values : List String)
    (manager : SettingsManager) (storage : Storage) (fault : Option String) :
    (manager.setResourceArray scope key values storage fault).manager.load_error = manager.load_error := by
  unfold SettingsManager.setResourceArray
  split
  · exact setScopeField_load_error _ _ _ _ _
  · rfl

variable {session : Session}

theorem step_tracks (hTracks : session.Tracks) (event : Event) :
    (session.step event).Tracks := by
  have hKept : ∀ op : Op, session.noteLoad op = session.failed →
      (op.run session.manager session.storage).manager.load_error = session.manager.load_error →
      (session.step (.call op)).Tracks := by
    intro op hNote hError scope
    have hScope := hTracks scope
    rw [← hError, ← hNote] at hScope
    exact hScope
  cases event with
  | edited scope content => exact hTracks
  | call op =>
    cases op with
    | reload faults => exact Session.start_tracks session.storage faults
    | apply_overrides overrides | drain_errors | record_model_use provider model => exact hKept _ rfl rfl
    | set call fault => exact hKept _ rfl (set_load_error _ _ _ _)
    | set_packages packages fault | set_project_packages packages fault =>
      exact hKept _ rfl (setScopeField_load_error _ _ _ _ _)
    | set_global_resource_array key values fault | set_project_resource_array key values fault =>
      exact hKept _ rfl (setResourceArray_load_error _ _ _ _ _ _)

theorem run_tracks (hTracks : session.Tracks) (events : List Event) :
    (session.run events).Tracks := by
  induction events generalizing session with
  | nil => exact hTracks
  | cons event events ih => exact ih (step_tracks hTracks event)

/-- What the field setters of a scope owe: no error, the other scope's document as it was, and the
scope's own document too where it failed to load. -/
structure Guarded (manager : SettingsManager) (storage : Storage) (outcome : Outcome) : Prop where
  ok : outcome.result = .ok ()
  unwritten : ∀ scope, (manager.load_error scope).isSome = true →
    outcome.wrote ≠ some scope ∧ outcome.storage.document scope = storage.document scope

theorem persist_guarded (manager : SettingsManager) (storage : Storage) (fault : Option String)
    (scope : SettingsScope) (key : String) (value : Json) :
    Guarded manager storage (manager.persist_scope_field storage fault scope key value) := by
  unfold SettingsManager.persist_scope_field with_lock
  cases hError : manager.load_error scope with
  | some message => exact ⟨rfl, fun _ _ => ⟨nofun, rfl⟩⟩
  | none =>
    cases fault with
    | some error => exact ⟨rfl, fun _ _ => ⟨nofun, rfl⟩⟩
    | none =>
      refine ⟨rfl, fun other hOther => ?_⟩
      have hNe : other ≠ scope := by
        rintro rfl
        rw [hError] at hOther
        cases hOther
      exact ⟨fun hWrote => hNe (Option.some.inj hWrote).symm, Storage.document_setDocument_of_ne hNe _ _⟩

theorem setScopeField_guarded (scope : SettingsScope) (change : FieldWrite) (manager : SettingsManager)
    (storage : Storage) (fault : Option String) :
    Guarded manager storage (manager.setScopeField scope change storage fault) := by
  have hPersist := persist_guarded (manager.writeScope change scope) storage fault scope change.key change.value
  have hError : (manager.writeScope change scope).load_error = manager.load_error := by
    cases scope <;> rfl
  exact ⟨hPersist.ok, fun other hOther => hPersist.unwritten other (hError ▸ hOther)⟩

theorem setResourceArray_guarded (scope : SettingsScope) (key : String) (values : List String)
    (manager : SettingsManager) (storage : Storage) (fault : Option String) :
    Guarded manager storage (manager.setResourceArray scope key values storage fault) := by
  unfold SettingsManager.setResourceArray
  split
  · exact setScopeField_guarded _ _ _ _ _
  · exact ⟨rfl, fun _ _ => ⟨nofun, rfl⟩⟩

namespace Session

variable {session : Session}

theorem keeps_of_guarded (hTracks : session.Tracks) {op : Op}
    (hGuarded : Guarded session.manager session.storage (op.run session.manager session.storage)) :
    session.KeepsPromise (.call op) := by
  constructor
  · intro scope hFailed
    exact hGuarded.unwritten scope ((hTracks scope).trans hFailed)
  · intro error hError
    rw [hGuarded.ok] at hError
    cases hError

theorem set_keeps_iff (session : Session) (call : Call) (fault : Option String) :
    session.Promised (session.manager.set call.setter session.storage fault) ↔ session.SafeSet call fault := by
  cases hSetter : call.setter session.manager.global with
  | error error =>
    rw [set_of_refused hSetter]
    refine iff_of_true ⟨fun _ _ => ⟨nofun, rfl⟩, fun _ _ => ⟨rfl, rfl, rfl⟩⟩ fun writes hWrites => ?_
    rw [hSetter] at hWrites
    cases hWrites
  | ok writes =>
    cases fault with
    | some error =>
      rw [set_of_fault hSetter]
      constructor
      · intro hKeeps changed hChanged
        rw [hSetter] at hChanged
        cases hChanged
        exact (hKeeps.unchanged error rfl).2.1
      · intro hSafe
        exact ⟨fun _ _ => ⟨nofun, rfl⟩, fun _ _ => ⟨rfl, hSafe writes hSetter, rfl⟩⟩
    | none =>
      rw [set_of_saved hSetter]
      constructor
      · intro hKeeps changed _
        by_contra hFailed
        exact (hKeeps.unwritten .global (by simpa using hFailed)).1 rfl
      · intro hSafe
        have hLoaded : session.failed .global = false := hSafe writes hSetter
        refine ⟨fun scope hFailed => ?_, nofun⟩
        have hNe : scope ≠ .global := by
          rintro rfl
          rw [hLoaded] at hFailed
          cases hFailed
        exact ⟨fun hWrote => hNe (Option.some.inj hWrote).symm, Storage.document_setDocument_of_ne hNe _ _⟩

theorem step_keeps_iff (hTracks : session.Tracks) (event : Event) :
    session.KeepsPromise event ↔ session.SafeSave event := by
  cases event with
  | edited scope content => exact Iff.rfl
  | call op =>
    have hUntouched : op.run session.manager session.storage =
        ⟨(op.run session.manager session.storage).manager, session.storage, .ok (), none⟩ →
        session.KeepsPromise (.call op) := by
      intro hRun
      apply keeps_of_guarded hTracks
      rw [hRun]
      exact ⟨rfl, fun _ _ => ⟨nofun, rfl⟩⟩
    cases op with
    | set call fault => exact set_keeps_iff session call fault
    | reload faults | apply_overrides overrides | drain_errors | record_model_use provider model =>
      exact iff_of_true (hUntouched rfl) trivial
    | set_packages packages fault | set_project_packages packages fault =>
      exact iff_of_true (keeps_of_guarded hTracks (setScopeField_guarded _ _ _ _ _)) trivial
    | set_global_resource_array key values fault | set_project_resource_array key values fault =>
      exact iff_of_true (keeps_of_guarded hTracks (setResourceArray_guarded _ _ _ _ _ _)) trivial

end Session

/-- Over any run of a manager, every call keeps the promise exactly where every setter that saves is a
safe save. -/
theorem promises_kept_iff (storage : Storage) (faults : ReadFaults) (events : List Event) :
    (∀ before event, before ++ [event] <+: events →
      ((Session.start storage faults).run before).KeepsPromise event) ↔
    ∀ before event, before ++ [event] <+: events → ((Session.start storage faults).run before).SafeSave event := by
  have hStep : ∀ before event, ((Session.start storage faults).run before).KeepsPromise event ↔
      ((Session.start storage faults).run before).SafeSave event := fun before event =>
    Session.step_keeps_iff (run_tracks (Session.start_tracks storage faults) before) event
  constructor
  · intro hKeeps before event hPrefix
    exact (hStep before event).mp (hKeeps before event hPrefix)
  · intro hSafe before event hPrefix
    exact (hStep before event).mpr (hSafe before event hPrefix)

theorem malformed_scope_written :
    ¬ ∀ (storage : Storage) (faults : ReadFaults) (events before : List Event) (event : Event),
      before ++ [event] <+: events → ((Session.start storage faults).run before).KeepsPromise event := by
  intro hKeeps
  have hTheme := hKeeps ⟨some (.malformed "expected value"), none⟩ ⟨none, none⟩
    [.call (.set (.theme "prime") none)] [] (.call (.set (.theme "prime") none)) (List.prefix_refl _)
  exact (hTheme.unwritten .global rfl).1 rfl

end PrimeAgent.Settings

/-! ## Saved changes of several managers

Managers over one storage load and set fields in any order. The document that is expected is the first
one with every field that was saved put in, in the order of the saves.
-/
namespace PrimeAgent.Settings

/-- A save of the global scope: the document it starts from and the fields it sets there. -/
structure GlobalSave where
  base : Json
  writes : List (List String × Json)

def docValue (storage : Storage) : Json :=
  match storage.globalDocument with
  | some (.json value) => value
  | _ => .null

def FieldWrite.entry (change : FieldWrite) : List String × Json :=
  (change.path, change.value)

def fieldSave (manager : SettingsManager) (storage : Storage) (key : String) (value : Json) : Option GlobalSave :=
  match manager.global_load_error with
  | some _ => none
  | none => some ⟨.object (SettingsManager.currentMembers storage.globalDocument), [([key], value)]⟩

def Op.save (manager : SettingsManager) (storage : Storage) : Op → Option GlobalSave
  | .set call none =>
    match call.setter manager.global with
    | .ok writes => some ⟨manager.global.to_value, writes.map FieldWrite.entry⟩
    | .error _ => none
  | .set_packages packages fault =>
    if fault = none then fieldSave manager storage "packages" (.array packages) else none
  | .set_global_resource_array key values none =>
    if key ∈ SettingsManager.resourceFields then fieldSave manager storage key (strings values) else none
  | _ => none

theorem agrees_writeAll (settings : Settings) (writes : List FieldWrite) :
    Json.Agrees (settings.writeAll writes).to_value
      (Json.putAll (writes.map FieldWrite.entry) settings.to_value) := by
  induction writes generalizing settings with
  | nil => exact Json.Agrees.refl _
  | cons change writes ih =>
    have hWrite : Json.Agrees (settings.write change).to_value
        (Json.put change.path change.value settings.to_value) := leaf_write settings change
    exact (ih (settings.write change)).trans (Json.agrees_putAll (hWrite.off _))

def SavedAs (storage after : Storage) : Option GlobalSave → Prop
  | none => after.globalDocument = storage.globalDocument
  | some save => Json.Agrees (docValue after) (Json.putAll save.writes save.base)

theorem setScopeField_savedAs (key : String) (value : Json) (known : key ∈ fields.names)
    (manager : SettingsManager) (storage : Storage) (fault : Option String) :
    SavedAs storage (manager.setScopeField .global (field key value known) storage fault).storage
      (if fault = none then fieldSave manager storage key value else none) := by
  unfold SettingsManager.setScopeField SettingsManager.persist_scope_field with_lock fieldSave
  have hError : (manager.writeScope (field key value known) .global).load_error .global =
      manager.global_load_error := rfl
  rw [hError]
  cases manager.global_load_error with
  | some message => cases fault <;> rfl
  | none =>
    cases fault with
    | some error => rfl
    | none => exact Json.Agrees.refl _

theorem setScopeField_project (change : FieldWrite) (manager : SettingsManager) (storage : Storage)
    (fault : Option String) :
    (manager.setScopeField .project change storage fault).storage.globalDocument = storage.globalDocument := by
  unfold SettingsManager.setScopeField SettingsManager.persist_scope_field with_lock
  cases (manager.writeScope change .project).load_error .project with
  | some message => rfl
  | none => cases fault <;> rfl

theorem setResourceArray_savedAs (key : String) (values : List String) (manager : SettingsManager)
    (storage : Storage) :
    SavedAs storage (manager.setResourceArray .global key values storage none).storage
      (if key ∈ SettingsManager.resourceFields then fieldSave manager storage key (strings values) else none) := by
  unfold SettingsManager.setResourceArray
  split
  · rename_i hKey
    exact setScopeField_savedAs key (strings values) (SettingsManager.resourceFields_known key hKey) manager storage
      none
  · rfl

theorem setResourceArray_untouched {scope : SettingsScope} {fault : Option String}
    (hUntouched : scope = .project ∨ fault ≠ none) (key : String) (values : List String)
    (manager : SettingsManager) (storage : Storage) :
    (manager.setResourceArray scope key values storage fault).storage.globalDocument = storage.globalDocument := by
  unfold SettingsManager.setResourceArray
  split
  · rename_i hKey
    rcases hUntouched with rfl | hFault
    · exact setScopeField_project _ manager storage fault
    · obtain ⟨error, rfl⟩ := Option.ne_none_iff_exists'.mp hFault
      cases scope with
      | project => exact setScopeField_project _ manager storage _
      | global =>
        exact setScopeField_savedAs key (strings values) (SettingsManager.resourceFields_known key hKey) manager
          storage (some error)
  · rfl

theorem run_savedAs (manager : SettingsManager) (storage : Storage) (op : Op) :
    SavedAs storage (op.run manager storage).storage (op.save manager storage) := by
  cases op with
  | reload faults | apply_overrides overrides | drain_errors | record_model_use provider model => rfl
  | set call fault =>
    have hRun : ((Op.set call fault).run manager storage) = manager.set call.setter storage fault := rfl
    rw [hRun]
    cases hSetter : call.setter manager.global with
    | error refusal =>
      rw [set_of_refused hSetter]
      cases fault with
      | some error => rfl
      | none =>
        rw [Op.save, hSetter]
        rfl
    | ok writes =>
      cases fault with
      | some error =>
        rw [set_of_fault hSetter]
        rfl
      | none =>
        rw [set_of_saved hSetter, Op.save, hSetter]
        exact agrees_writeAll manager.global writes
  | set_packages packages fault => exact setScopeField_savedAs _ _ _ manager storage fault
  | set_project_packages packages fault => exact setScopeField_project _ manager storage fault
  | set_global_resource_array key values fault =>
    cases fault with
    | some error => exact setResourceArray_untouched (Or.inr (Option.some_ne_none error)) key values manager storage
    | none => exact setResourceArray_savedAs key values manager storage
  | set_project_resource_array key values fault =>
    exact setResourceArray_untouched (Or.inl rfl) key values manager storage

structure World where
  storage : Storage
  managers : List SettingsManager

inductive Step where
  | load (faults : ReadFaults)
  | call (index : Nat) (op : Op)

namespace World

def step (world : World) : Step → World
  | .load faults => { world with managers := world.managers ++ [.from_storage world.storage faults] }
  | .call index op =>
    match world.managers[index]? with
    | none => world
    | some manager =>
      { storage := (op.run manager world.storage).storage
        managers := world.managers.set index (op.run manager world.storage).manager }

def save (world : World) : Step → Option GlobalSave
  | .load _ => none
  | .call index op => world.managers[index]?.bind fun manager => op.save manager world.storage

theorem step_savedAs (world : World) (step : Step) :
    SavedAs world.storage (world.step step).storage (world.save step) := by
  cases step with
  | load faults => rfl
  | call index op =>
    cases hManager : world.managers[index]? with
    | none =>
      simp only [World.step, World.save, hManager]
      rfl
    | some manager =>
      simp only [World.step, World.save, hManager]
      exact run_savedAs manager world.storage op

def Fresh (world : World) (step : Step) : Prop :=
  ∀ save, world.save step = some save →
    Json.AgreesOff (save.writes.map Prod.fst) save.base (docValue world.storage)

end World

structure History where
  world : World
  expected : Json

namespace History

def start (storage : Storage) : History :=
  ⟨⟨storage, []⟩, docValue storage⟩

def step (history : History) (step : Step) : History :=
  { world := history.world.step step
    expected := match history.world.save step with
      | none => history.expected
      | some save => Json.putAll save.writes history.expected }

def run (history : History) (steps : List Step) : History :=
  steps.foldl step history

def Survives (history : History) : Prop :=
  Json.Agrees (docValue history.world.storage) history.expected

theorem step_survives_iff {history : History} (hSurvives : history.Survives) (step : Step) :
    (history.step step).Survives ↔ history.world.Fresh step := by
  have hSaved := history.world.step_savedAs step
  unfold Survives History.step World.Fresh
  cases hSave : history.world.save step with
  | none =>
    rw [hSave] at hSaved
    have hDoc : docValue (history.world.step step).storage = docValue history.world.storage :=
      congrArg (fun content => docValue ⟨content, none⟩) hSaved
    rw [hDoc]
    exact iff_of_true hSurvives nofun
  | some save =>
    rw [hSave] at hSaved
    constructor
    · intro hAgrees other hOther
      cases hOther
      have hPut := Json.agrees_putAll_iff.mp (hSaved.symm.trans hAgrees)
      exact hPut.trans (hSurvives.symm.off _)
    · intro hFresh
      have hOff := (hFresh save rfl).trans (hSurvives.off _)
      exact hSaved.trans (Json.agrees_putAll hOff)

end History

theorem changes_survive_iff (storage : Storage) (steps : List Step) :
    (∀ before, before <+: steps → ((History.start storage).run before).Survives) ↔
    ∀ before step, before ++ [step] <+: steps → ((History.start storage).run before).world.Fresh step := by
  constructor
  · intro hSurvives before step hPrefix
    have hBefore := hSurvives before ((List.prefix_append _ _).trans hPrefix)
    have hAfter := hSurvives _ hPrefix
    rw [History.run, List.foldl_append] at hAfter
    exact (History.step_survives_iff hBefore step).mp hAfter
  · intro hFresh before
    induction before using List.reverseRecOn with
    | nil => exact fun _ => Json.Agrees.refl _
    | append_singleton before step ih =>
      intro hPrefix
      have hBefore := ih ((List.prefix_append _ _).trans hPrefix)
      rw [History.run, List.foldl_append]
      exact (History.step_survives_iff hBefore step).mpr (hFresh before step hPrefix)

/-- Two managers load the same document, one sets the theme and the other the transport: the second save
takes the theme back. -/
theorem theme_lost :
    ¬ ((History.start ⟨none, none⟩).run [.load ⟨none, none⟩, .load ⟨none, none⟩,
      .call 0 (.set (.theme "prime") none), .call 1 (.set (.transport .sse) none)]).Survives := by
  intro hSurvives
  exact absurd (hSurvives ["theme"]) (by decide)

end PrimeAgent.Settings
