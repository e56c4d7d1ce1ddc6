import PrimeAgent.Lib.JsonPaths

/-! # Settings

The fields of `Settings` with the type of each, and what the derived reader and writer make of them:
every field is optional, a field that is not set is written as `null`, and the keys that name no field
are kept in `extra`.
-/
namespace PrimeAgent.Settings

mutual

/-- The type of a field. A record is a settings structure whose own fields are all optional. -/
inductive Shape where
  | bool
  | string
  | u64
  | value
  | strings
  | values
  | map
  | choice (names : List String) (aliases : List (String × String))
  | limit
  | record (fields : Fields)

inductive Fields where
  | none
  | field (name : String) (shape : Shape) (rest : Fields)

end

def ofBool : Json → Option Json
  | .bool value => some (.bool value)
  | _ => none

def ofString : Json → Option Json
  | .string value => some (.string value)
  | _ => none

def ofU64 : Json → Option Json
  | .number (.posInt n) => some (.number (.posInt n))
  | _ => none

def ofStrings : Json → Option Json
  | .array items => if items.all (fun item => (ofString item).isSome) then some (.array items) else none
  | _ => none

def ofValues : Json → Option Json
  | .array items => some (.array items)
  | _ => none

def ofMap : Json → Option Json
  | .object members => some (.object members)
  | _ => none

def ofChoice (names : List String) (aliases : List (String × String)) : Json → Option Json
  | .string name | .object [(name, .null)] =>
    if name ∈ names then some (.string name) else (aliases.lookup name).map .string
  | _ => none

def ofLimit : Json → Option Json
  | .number n => ((Json.number n).asF64).map fun x => .number (.float x)
  | .string value => some (.string value)
  | _ => none

mutual

def Shape.read : Shape → Json → Option Json
  | .bool, json => ofBool json
  | .string, json => ofString json
  | .u64, json => ofU64 json
  | .value, json => some json
  | .strings, json => ofStrings json
  | .values, json => ofValues json
  | .map, json => ofMap json
  | .choice names aliases, json => ofChoice names aliases json
  | .limit, json => ofLimit json
  | .record fields, .object members => (fields.read members).map .object
  | .record fields, .array items => (fields.readItems items).map .object
  | .record _, _ => none

/-- Each field by its name; `null` and a missing key are a field that is not set. -/
def Fields.read : Fields → JsonMap → Option JsonMap
  | .none, _ => some []
  | .field name shape rest, members =>
    (match members.lookup name with
      | none | some .null => some Json.null
      | some json => shape.read json).bind fun value =>
    (rest.read members).map ((name, value) :: ·)

def Fields.readItems : Fields → List Json → Option JsonMap
  | .none, [] => some []
  | .field name shape rest, json :: items =>
    (match json with
      | .null => some Json.null
      | json => shape.read json).bind fun value =>
    (rest.readItems items).map ((name, value) :: ·)
  | _, _ => none

end

namespace Fields

def names : Fields → List String
  | .none => []
  | .field name _ rest => name :: rest.names

def lookup (key : String) : Fields → Option Shape
  | .none => Option.none
  | .field name shape rest => if name = key then some shape else rest.lookup key

def unset : Fields → JsonMap
  | .none => []
  | .field name _ rest => (name, .null) :: rest.unset

def ofList : List (String × Shape) → Fields
  | [] => .none
  | (name, shape) :: rest => .field name shape (ofList rest)

end Fields

def CompactionSettings : Fields :=
  .ofList [("enabled", .bool), ("reserveTokens", .u64), ("keepRecentTokens", .u64), ("agentCallable", .bool)]

def BranchSummarySettings : Fields :=
  .ofList [("reserveTokens", .u64), ("skipPrompt", .bool)]

def AutoRefineSettings : Fields :=
  .ofList [("enabled", .bool), ("turnInterval", .u64), ("compact", .bool), ("cooldownMs", .u64)]

def ProviderWaitSettings : Fields :=
  .ofList [("enabled", .bool), ("baseDelayMs", .u64), ("maxDelayMs", .u64), ("maxAttempts", .u64),
    ("maxWaitMs", .u64), ("pauseUntilReset", .bool), ("maxPauseMs", .u64), ("maxParks", .u64)]

def ProviderRetrySettings : Fields :=
  .ofList [("timeoutMs", .u64), ("maxRetryDelayMs", .u64), ("waitForUsage", .record ProviderWaitSettings)]

def RetryFailoverSettings : Fields :=
  .ofList [("enabled", .bool), ("maxRetries", .u64), ("baseDelayMs", .u64), ("maxDelayMs", .u64)]

def RetrySettings : Fields :=
  .ofList [("enabled", .bool), ("maxRetries", .u64), ("baseDelayMs", .u64),
    ("failover", .record RetryFailoverSettings), ("provider", .record ProviderRetrySettings)]

def TerminalSettings : Fields :=
  .ofList [("showImages", .bool), ("clearOnShrink", .bool), ("showTerminalProgress", .bool),
    ("fullscreenMouse", .bool)]

def ImageSettings : Fields :=
  .ofList [("autoResize", .bool), ("blockImages", .bool)]

def ThinkingBudgetsSettings : Fields :=
  .ofList [("minimal", .u64), ("low", .u64), ("medium", .u64), ("high", .u64)]

def AutonomousSettings : Fields :=
  .ofList [("maxContinuations", .limit), ("maxTurns", .limit), ("maxTokens", .limit), ("timeoutMs", .limit)]

def MarkdownSettings : Fields :=
  .ofList [("codeBlockIndent", .string), ("mermaid", .choice ["off", "final", "streaming"] [])]

def BundledSkillsSettings : Fields :=
  .ofList [("websearch", .bool)]

def WarningSettings : Fields :=
  .ofList [("anthropicExtraUsage", .bool)]

def AgentTracesSettings : Fields :=
  .ofList [("enabled", .bool)]

def PostHogSettings : Fields :=
  .ofList [("endpoint", .string), ("apiKey", .string)]

def TelemetrySettings : Fields :=
  .ofList [("enabled", .bool), ("noticeShown", .bool), ("posthog", .record PostHogSettings),
    ("localMirror", .bool)]

def UpdateChannel : Shape :=
  .choice ["stable", "nightly"] []

def ThinkingLevelSetting : Shape :=
  .choice ["off", "minimal", "low", "medium", "high", "xhigh", "max"] []

def QueueModeSetting : Shape :=
  .choice ["all", "one-at-a-time"] [("oneAtATime", "one-at-a-time")]

def TransportSetting : Shape :=
  .choice ["auto", "sse", "web-socket", "websocket-cached"] []

/-- The fields of `Settings`, in the order it declares them. -/
def fields : Fields :=
  .ofList [("onboardingShown", .bool), ("onboardingCompleted", .bool), ("defaultProvider", .string),
    ("defaultModel", .string), ("subagentDefaultModel", .string), ("updateChannel", UpdateChannel),
    ("recentModels", .strings), ("auxiliaryModel", .string), ("defaultThinkingLevel", ThinkingLevelSetting),
    ("defaultServiceTier", .string), ("rlmMaxDepth", .u64), ("idleEvictionMinutes", .value),
    ("sessionArchiveMaxAgeDays", .value), ("sessionArchiveMaxSessions", .value),
    ("transport", TransportSetting), ("steeringMode", QueueModeSetting), ("followUpMode", QueueModeSetting),
    ("theme", .string), ("compaction", .record CompactionSettings), ("autoRefine", .record AutoRefineSettings),
    ("agentTraces", .record AgentTracesSettings), ("telemetry", .record TelemetrySettings),
    ("branchSummary", .record BranchSummarySettings), ("retry", .record RetrySettings),
    ("providerBackupModel", .string), ("imageModel", .string), ("autonomous", .record AutonomousSettings),
    ("shellPath", .string), ("quietStartup", .bool), ("shellCommandPrefix", .string), ("npmCommand", .strings),
    ("mcpServers", .map), ("mcpCatalogSources", .strings), ("packages", .values), ("extensions", .strings),
    ("skills", .strings), ("prompts", .strings), ("themes", .strings), ("enableSkillCommands", .bool),
    ("bundledSkills", .record BundledSkillsSettings), ("enableBuiltinSkills", .bool),
    ("terminal", .record TerminalSettings), ("images", .record ImageSettings), ("enabledModels", .strings),
    ("allowedModels", .strings), ("treeFilterMode", .string), ("chatDetail", .string),
    ("thinkingBudgets", .record ThinkingBudgetsSettings), ("editorPaddingX", .u64),
    ("autocompleteMaxVisible", .u64), ("showHardwareCursor", .bool), ("markdown", .record MarkdownSettings),
    ("warnings", .record WarningSettings), ("sessionDir", .string), ("requestTiming", .bool)]

end PrimeAgent.Settings

namespace PrimeAgent

open Settings in
/-- `known` holds every field of `Settings` as it is written, and `extra` the keys that name none. -/
structure Settings where
  known : JsonMap
  extra : JsonMap
  extra_unknown : ∀ key ∈ fields.names, extra.lookup key = none

namespace Settings

@[ext]
theorem ext {settings other : Settings} (hKnown : settings.known = other.known)
    (hExtra : settings.extra = other.extra) : settings = other := by
  cases settings
  cases other
  simp_all

instance : DecidableEq Settings := fun settings other =>
  decidable_of_iff (settings.known = other.known ∧ settings.extra = other.extra)
    ⟨fun hEq => ext hEq.1 hEq.2, fun hEq => hEq ▸ ⟨rfl, rfl⟩⟩

def default : Settings :=
  ⟨fields.unset, [], fun _ _ => rfl⟩

instance : Inhabited Settings := ⟨default⟩

def to_value (settings : Settings) : Json :=
  .object (settings.known ++ settings.extra)

def unknown (members : JsonMap) : JsonMap :=
  members.filter (fun member => member.1 ∉ fields.names)

theorem lookup_unknown {key : String} (hKey : key ∈ fields.names) (members : JsonMap) :
    (unknown members).lookup key = none := by
  rw [List.lookup_eq_none_iff]
  intro member hMember
  have hName : member.1 ∉ fields.names := by
    simpa using (List.mem_filter.mp hMember).2
  have hNe : key ≠ member.1 := fun hEq => hName (hEq ▸ hKey)
  simpa using hNe

def from_value : Json → Option Settings
  | .object members => (fields.read members).map fun known =>
    ⟨known, unknown members, fun _ hKey => lookup_unknown hKey members⟩
  | _ => none

end Settings

end PrimeAgent

/-! ## Reading and merging settings documents

Migration of the legacy keys, the lenient reader that drops a field of another type instead of failing
the document, and the merge of two scopes.
-/
namespace PrimeAgent.Settings

def insertAbsent (key : String) (value : Json) (document : JsonMap) : JsonMap :=
  match document.lookup key with
  | some _ => document
  | none => document.set key value

namespace migrate

/-- `queueMode` becomes `steeringMode`. -/
def queueMode (document : JsonMap) : JsonMap :=
  match document.lookup "queueMode" with
  | some queue_mode => insertAbsent "steeringMode" queue_mode (document.remove "queueMode")
  | none => document

/-- `websockets` becomes `transport`. -/
def websockets (document : JsonMap) : JsonMap :=
  match document.lookup "transport", document.lookup "websockets" with
  | none, some (.bool true) => (document.remove "websockets").set "transport" (.string "websocket")
  | none, some (.bool false) => (document.remove "websockets").set "transport" (.string "sse")
  | none, some _ => document.remove "websockets"
  | _, _ => document

/-- The `skills` object becomes `enableSkillCommands` and a list of directories. -/
def skills (document : JsonMap) : JsonMap :=
  match document.lookup "skills" with
  | some (.object skills) =>
    let document := document.remove "skills"
    let document := match skills.lookup "enableSkillCommands" with
      | some flag => insertAbsent "enableSkillCommands" flag document
      | none => document
    match skills.lookup "customDirectories" with
    | some (.array (dir :: dirs)) => document.set "skills" (.array (dir :: dirs))
    | _ => document
  | some skills => (document.remove "skills").set "skills" skills
  | none => document

/-- `retry.maxDelayMs` becomes `retry.provider.maxRetryDelayMs`. -/
def retry (document : JsonMap) : JsonMap :=
  match document.lookup "retry" with
  | some (.object retry) =>
    let moved := JsonMap.remove "maxDelayMs" retry
    match retry.lookup "maxDelayMs" with
    | some (.number delay) =>
      let moved := insertAbsent "provider" (.object []) moved
      match moved.lookup "provider" with
      | some (.object provider) =>
        document.set "retry" (.object
          (moved.set "provider" (.object (insertAbsent "maxRetryDelayMs" (.number delay) provider))))
      | _ => document.set "retry" (.object moved)
    | _ => document.set "retry" (.object moved)
  | _ => document

def telemetry (document : JsonMap) : JsonMap :=
  match document.lookup "telemetry" with
  | some (.bool enabled) => document.set "telemetry" (.object [("enabled", .bool enabled)])
  | some (.object _) | none => document
  | some _ => document.remove "telemetry"

def markdown (document : JsonMap) : JsonMap :=
  match document.lookup "markdown" with
  | some (.object _) | none => document
  | some _ => document.remove "markdown"

end migrate

def migrate (document : JsonMap) : JsonMap :=
  migrate.markdown (migrate.telemetry (migrate.retry (migrate.skills
    (migrate.websockets (migrate.queueMode document)))))

mutual

/-- A `null` leaves the base alone, objects are merged key by key and any other value replaces it. -/
def merge_values (base : Json) : Json → Json
  | .object overrides =>
    match base with
    | .object members => .object (merge_members members overrides)
    | _ => .object overrides
  | .null => base
  | .bool value => .bool value
  | .number n => .number n
  | .string value => .string value
  | .array items => .array items

def merge_members (base : JsonMap) : JsonMap → JsonMap
  | [] => base
  | (_, .null) :: rest => merge_members base rest
  | (key, value) :: rest =>
    match base.lookup key with
    | some existing =>
      if existing.isObject && value.isObject then
        merge_members (base.set key (merge_values existing value)) rest
      else merge_members (base.set key value) rest
    | none => merge_members (base.set key value) rest

end

def deep_merge (base overrides : Settings) : Settings :=
  (Settings.from_value (merge_values base.to_value overrides.to_value)).getD .default

def KNOWN_FIELDS : List String :=
  ["onboardingShown", "onboardingCompleted", "defaultProvider", "defaultModel", "subagentDefaultModel",
    "updateChannel", "recentModels", "auxiliaryModel", "defaultThinkingLevel", "defaultServiceTier",
    "rlmMaxDepth", "idleEvictionMinutes", "transport", "steeringMode", "followUpMode", "theme", "compaction",
    "autoRefine", "agentTraces", "telemetry", "branchSummary", "retry", "providerBackupModel", "imageModel",
    "autonomous", "shellPath", "quietStartup", "shellCommandPrefix", "npmCommand", "mcpServers", "packages",
    "extensions", "skills", "prompts", "themes", "enableSkillCommands", "bundledSkills",
    "enableBuiltinSkills", "terminal", "images", "enabledModels", "allowedModels", "treeFilterMode",
    "chatDetail", "thinkingBudgets", "editorPaddingX", "autocompleteMaxVisible", "showHardwareCursor",
    "markdown", "warnings", "sessionDir", "requestTiming"]

def lenientField (map : JsonMap) (member : String × Json) : JsonMap :=
  match Settings.from_value (.object [member]) with
  | none => map
  | some part =>
    if member.1 ∈ KNOWN_FIELDS ∧ (part.extra.lookup member.1).isSome then map
    else part.to_value.members.foldl
      (fun map member => if member.2 = .null then map else map.set member.1 member.2) map

def from_value_lenient (value : Json) : Settings :=
  match Settings.from_value value with
  | some settings => settings
  | none =>
    match value with
    | .object members => (Settings.from_value (.object (members.foldl lenientField []))).getD .default
    | _ => .default

example : from_value_lenient (.object [("defaultProvider", .number (.posInt 42)), ("steeringMode", .string "all"),
    ("unknownKey", .bool true)]) =
    (Settings.from_value (.object [("steeringMode", .string "all"), ("unknownKey", .bool true)])).getD .default := by
  decide +kernel

end PrimeAgent.Settings
