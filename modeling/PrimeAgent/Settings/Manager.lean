import PrimeAgent.Settings.Setters

/-! # The settings manager

A manager reads both scopes when it is made and when it reloads. Its setters change the settings in
memory and write them back: most write the whole global scope as it stands in memory, the package and
resource setters merge one field into the document that is there. A document is what its text reads
as; a call is given the failure it meets, if any.
-/
namespace PrimeAgent.Settings

inductive SettingsScope where
  | global
  | project
deriving DecidableEq

inductive Content where
  | json (value : Json)
  | malformed (error : String)
deriving DecidableEq

structure Storage where
  globalDocument : Option Content
  projectDocument : Option Content
deriving DecidableEq

namespace Storage

def document (storage : Storage) : SettingsScope → Option Content
  | .global => storage.globalDocument
  | .project => storage.projectDocument

def setDocument (storage : Storage) (content : Option Content) : SettingsScope → Storage
  | .global => { storage with globalDocument := content }
  | .project => { storage with projectDocument := content }

theorem document_setDocument_of_ne {scope other : SettingsScope} (hNe : other ≠ scope) (storage : Storage)
    (content : Option Content) : (storage.setDocument content scope).document other = storage.document other := by
  cases scope <;> cases other <;> first | rfl | exact absurd rfl hNe

def read (storage : Storage) (scope : SettingsScope) (fault : Option String) : Except String (Option Content) :=
  match storage.document scope, fault with
  | none, _ => .ok none
  | some _, some error => .error error
  | some content, none => .ok (some content)

end Storage

structure SettingsError where
  scope : SettingsScope
  message : String
deriving DecidableEq

structure Loaded where
  settings : Settings
  raw : Option Json
  error : Option String

def load_scope (storage : Storage) (scope : SettingsScope) (fault : Option String) : Loaded :=
  match storage.read scope fault with
  | .error message => ⟨.default, none, some message⟩
  | .ok none => ⟨.default, none, none⟩
  | .ok (some (.malformed message)) => ⟨.default, none, some message⟩
  | .ok (some (.json (.object document))) =>
    ⟨from_value_lenient (.object (migrate document)), some (.object (migrate document)), none⟩
  | .ok (some (.json value)) => ⟨from_value_lenient value, some value, none⟩

def Loaded.errors (loaded : Loaded) (scope : SettingsScope) : List SettingsError :=
  loaded.error.toList.map (⟨scope, ·⟩)

structure ReadFaults where
  global : Option String
  project : Option String

def ReadFaults.of (faults : ReadFaults) : SettingsScope → Option String
  | .global => faults.global
  | .project => faults.project

structure SettingsManager where
  global : Settings
  project : Settings
  merged : Settings
  runtime_overrides : Settings
  errors : List SettingsError
  global_raw : Option Json
  global_load_error : Option String
  project_load_error : Option String
deriving DecidableEq

/-- A call of the manager: what it leaves, what it returns, and the scope it wrote, if it wrote one. -/
structure Outcome where
  manager : SettingsManager
  storage : Storage
  result : Except String Unit
  wrote : Option SettingsScope

/-- `with_lock`: the update sees the document that is there, and a failure leaves it. -/
def with_lock (storage : Storage) (scope : SettingsScope) (fault : Option String)
    (update : Option Content → Json) : Except String Storage :=
  match fault with
  | some error => .error error
  | none => .ok (storage.setDocument (some (.json (update (storage.document scope)))) scope)

namespace SettingsManager

def load_error (manager : SettingsManager) : SettingsScope → Option String
  | .global => manager.global_load_error
  | .project => manager.project_load_error

def from_storage (storage : Storage) (faults : ReadFaults) : SettingsManager :=
  let global := load_scope storage .global faults.global
  let project := load_scope storage .project faults.project
  { global := global.settings
    project := project.settings
    merged := deep_merge global.settings project.settings
    runtime_overrides := .default
    errors := global.errors .global ++ project.errors .project
    global_raw := global.raw
    global_load_error := global.error
    project_load_error := project.error }

def reload (manager : SettingsManager) (storage : Storage) (faults : ReadFaults) : Outcome :=
  let loaded := from_storage storage faults
  { manager := { loaded with
      runtime_overrides := manager.runtime_overrides
      errors := manager.errors ++ loaded.errors }
    storage := storage
    result := .ok ()
    wrote := none }

def save_global (manager : SettingsManager) (storage : Storage) (fault : Option String) : Outcome :=
  match with_lock storage .global fault (fun _ => manager.global.to_value) with
  | .error error => ⟨manager, storage, .error error, none⟩
  | .ok written =>
    ⟨{ manager with merged := deep_merge manager.global manager.project }, written, .ok (), some .global⟩

def set (setter : Setter) (manager : SettingsManager) (storage : Storage) (fault : Option String) : Outcome :=
  match setter manager.global with
  | .error error => ⟨manager, storage, .error error, none⟩
  | .ok writes => save_global { manager with global := manager.global.writeAll writes } storage fault

def label : SettingsScope → String
  | .global => "Global"
  | .project => "Project"

def currentMembers : Option Content → JsonMap
  | some (.json (.object document)) => migrate document
  | _ => []

/-- Writes one field into a scope's file. A failure is recorded, and a scope that failed to load is
not written. -/
def persist_scope_field (manager : SettingsManager) (storage : Storage) (fault : Option String)
    (scope : SettingsScope) (key : String) (value : Json) : Outcome :=
  match manager.load_error scope with
  | some message =>
    let message := label scope ++ " settings not saved: settings file failed to parse: " ++ message
    ⟨{ manager with errors := manager.errors ++ [⟨scope, message⟩] }, storage, .ok (), none⟩
  | none =>
    match with_lock storage scope fault (fun current => .object ((currentMembers current).set key value)) with
    | .error error => ⟨{ manager with errors := manager.errors ++ [⟨scope, error⟩] }, storage, .ok (), none⟩
    | .ok written => ⟨manager, written, .ok (), some scope⟩

def writeScope (manager : SettingsManager) (change : FieldWrite) : SettingsScope → SettingsManager
  | .global => { manager with global := manager.global.write change }
  | .project => { manager with project := manager.project.write change }

def setScopeField (scope : SettingsScope) (change : FieldWrite) (manager : SettingsManager) (storage : Storage)
    (fault : Option String) : Outcome :=
  let saved := persist_scope_field (manager.writeScope change scope) storage fault scope change.key change.value
  { saved with
    manager := { saved.manager with merged := deep_merge saved.manager.global saved.manager.project } }

def set_packages (packages : List Json) : SettingsManager → Storage → Option String → Outcome :=
  setScopeField .global (field "packages" (.array packages))

def set_project_packages (packages : List Json) : SettingsManager → Storage → Option String → Outcome :=
  setScopeField .project (field "packages" (.array packages))

def resourceFields : List String :=
  ["extensions", "skills", "prompts", "themes"]

theorem resourceFields_known : ∀ key ∈ resourceFields, key ∈ fields.names := by
  decide

def setResourceArray (scope : SettingsScope) (key : String) (values : List String) (manager : SettingsManager)
    (storage : Storage) (fault : Option String) : Outcome :=
  if hKey : key ∈ resourceFields then
    setScopeField scope (field key (strings values) (resourceFields_known key hKey)) manager storage fault
  else ⟨manager, storage, .ok (), none⟩

def set_global_resource_array : String → List String → SettingsManager → Storage → Option String → Outcome :=
  setResourceArray .global

def set_project_resource_array : String → List String → SettingsManager → Storage → Option String → Outcome :=
  setResourceArray .project

def apply_overrides (manager : SettingsManager) (overrides : Settings) : SettingsManager :=
  { manager with
    merged := deep_merge manager.merged overrides
    runtime_overrides := deep_merge manager.runtime_overrides overrides }

end SettingsManager

inductive Op where
  | reload (faults : ReadFaults)
  | apply_overrides (overrides : Settings)
  | drain_errors
  | record_model_use (provider model : String)
  | set (call : Call) (fault : Option String)
  | set_packages (packages : List Json) (fault : Option String)
  | set_project_packages (packages : List Json) (fault : Option String)
  | set_global_resource_array (key : String) (values : List String) (fault : Option String)
  | set_project_resource_array (key : String) (values : List String) (fault : Option String)

def Op.run (manager : SettingsManager) (storage : Storage) : Op → Outcome
  | .reload faults => manager.reload storage faults
  | .apply_overrides overrides => ⟨manager.apply_overrides overrides, storage, .ok (), none⟩
  | .drain_errors => ⟨{ manager with errors := [] }, storage, .ok (), none⟩
  | .record_model_use provider model =>
    ⟨{ manager with global := manager.global.write (Settings.record_model_use provider model manager.global) }, storage,
      .ok (), none⟩
  | .set call fault => manager.set call.setter storage fault
  | .set_packages packages fault => manager.set_packages packages storage fault
  | .set_project_packages packages fault => manager.set_project_packages packages storage fault
  | .set_global_resource_array key values fault =>
    manager.set_global_resource_array key values storage fault
  | .set_project_resource_array key values fault =>
    manager.set_project_resource_array key values storage fault

end PrimeAgent.Settings
