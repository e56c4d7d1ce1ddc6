import PrimeAgent.Settings.Load

/-! # The setters of the global scope

A setter checks its argument and names the fields it sets; `self.global` takes their values before
anything is written. A setter that fails its check sets nothing.
-/
namespace PrimeAgent

namespace Settings

/-- A field of `Settings`, or one inside a settings record, and the value it is set to. -/
structure FieldWrite where
  key : String
  known : key ∈ fields.names
  inner : List String
  value : Json

def FieldWrite.path (write : FieldWrite) : List String :=
  write.key :: write.inner

/-- `Default::default` of a settings record. -/
def unsetValue (key : String) : Json :=
  match fields.lookup key with
  | some (.record inner) => .object inner.unset
  | _ => .null

/-- `get_or_insert_with(Default::default)` of a record; any other field is taken as it is. -/
def orDefault (key : String) : Option Json → Json
  | none | some .null => unsetValue key
  | some value => value

def write (settings : Settings) (write : FieldWrite) : Settings :=
  { settings with
    known := settings.known.set write.key
      (Json.put write.inner write.value (orDefault write.key (settings.known.lookup write.key))) }

def writeAll (settings : Settings) (writes : List FieldWrite) : Settings :=
  writes.foldl write settings

abbrev Setter := Settings → Except String (List FieldWrite)

def field (key : String) (value : Json) (known : key ∈ fields.names := by decide) : FieldWrite :=
  ⟨key, known, [], value⟩

def innerField (key inner : String) (value : Json) (known : key ∈ fields.names := by decide) : FieldWrite :=
  ⟨key, known, [inner], value⟩

def sets (write : FieldWrite) : Setter :=
  fun _ => .ok [write]

def setsFlag (key inner : String) (enabled : Bool) (known : key ∈ fields.names := by decide) : Setter :=
  sets (innerField key inner (.bool enabled) known)

def u64 (n : Nat) : Json :=
  .number (.posInt n)

def strings (values : List String) : Json :=
  .array (values.map .string)

inductive UpdateChannelSetting where
  | stable
  | nightly

def UpdateChannelSetting.name : UpdateChannelSetting → String
  | .stable => "stable"
  | .nightly => "nightly"

inductive ThinkingLevel where
  | off
  | minimal
  | low
  | medium
  | high
  | xhigh
  | max

def ThinkingLevel.name : ThinkingLevel → String
  | .off => "off"
  | .minimal => "minimal"
  | .low => "low"
  | .medium => "medium"
  | .high => "high"
  | .xhigh => "xhigh"
  | .max => "max"

inductive QueueMode where
  | all
  | oneAtATime

def QueueMode.name : QueueMode → String
  | .all => "all"
  | .oneAtATime => "one-at-a-time"

inductive Transport where
  | auto
  | sse
  | webSocket
  | webSocketCached

def Transport.name : Transport → String
  | .auto => "auto"
  | .sse => "sse"
  | .webSocket => "web-socket"
  | .webSocketCached => "websocket-cached"

inductive ServiceTier where
  | auto
  | default
  | flex
  | scale
  | priority

def ServiceTier.name : ServiceTier → String
  | .auto => "auto"
  | .default => "default"
  | .flex => "flex"
  | .scale => "scale"
  | .priority => "priority"

def RECENT_MODELS_LIMIT : Nat := 20

def recentModels (settings : Settings) : List String :=
  match settings.known.lookup "recentModels" with
  | some (.array items) => items.filterMap Json.asStr
  | _ => []

def record_model_use (provider model : String) (settings : Settings) : FieldWrite :=
  let key := provider ++ "/" ++ model
  field "recentModels"
    (strings ((key :: (recentModels settings).filter (fun existing => existing ≠ key)).take RECENT_MODELS_LIMIT))

def set_default_provider (provider : String) : Setter :=
  sets (field "defaultProvider" (.string provider))

def set_default_model (model : String) : Setter :=
  sets (field "defaultModel" (.string model))

def set_default_model_and_provider (provider model : String) : Setter :=
  fun settings => .ok [field "defaultProvider" (.string provider), field "defaultModel" (.string model),
    record_model_use provider model settings]

def set_steering_mode (mode : QueueMode) : Setter :=
  sets (field "steeringMode" (.string mode.name))

def set_follow_up_mode (mode : QueueMode) : Setter :=
  sets (field "followUpMode" (.string mode.name))

def set_theme (theme : String) : Setter :=
  sets (field "theme" (.string theme))

def set_update_channel (channel : UpdateChannelSetting) : Setter :=
  sets (field "updateChannel" (.string channel.name))

def set_default_thinking_level (level : ThinkingLevel) : Setter :=
  sets (field "defaultThinkingLevel" (.string level.name))

def set_retry_enabled : Bool → Setter :=
  setsFlag "retry" "enabled"

def set_compaction_enabled : Bool → Setter :=
  setsFlag "compaction" "enabled"

def set_transport (transport : Transport) : Setter :=
  sets (field "transport" (.string transport.name))

def set_rlm_max_depth (depth : Nat) : Setter :=
  sets (field "rlmMaxDepth" (u64 depth))

def set_telemetry_enabled : Bool → Setter :=
  setsFlag "telemetry" "enabled"

def set_telemetry_notice_shown : Bool → Setter :=
  setsFlag "telemetry" "noticeShown"

def set_onboarding_shown (shown : Bool) : Setter :=
  sets (field "onboardingShown" (.bool shown))

def set_onboarding_completed (completed : Bool) : Setter :=
  sets (field "onboardingCompleted" (.bool completed))

def set_agent_traces_enabled : Bool → Setter :=
  setsFlag "agentTraces" "enabled"

def set_default_service_tier (tier : ServiceTier) : Setter :=
  sets (field "defaultServiceTier" (.string tier.name))

def set_show_images : Bool → Setter :=
  setsFlag "terminal" "showImages"

def set_clear_on_shrink : Bool → Setter :=
  setsFlag "terminal" "clearOnShrink"

def set_show_terminal_progress : Bool → Setter :=
  setsFlag "terminal" "showTerminalProgress"

def set_fullscreen_mouse : Bool → Setter :=
  setsFlag "terminal" "fullscreenMouse"

def set_image_auto_resize : Bool → Setter :=
  setsFlag "images" "autoResize"

def set_block_images : Bool → Setter :=
  setsFlag "images" "blockImages"

def set_enable_skill_commands (enabled : Bool) : Setter :=
  sets (field "enableSkillCommands" (.bool enabled))

def set_enable_builtin_skills (enabled : Bool) : Setter :=
  sets (field "enableBuiltinSkills" (.bool enabled))

def set_show_hardware_cursor (enabled : Bool) : Setter :=
  sets (field "showHardwareCursor" (.bool enabled))

def set_editor_padding_x (padding : Nat) : Setter :=
  sets (field "editorPaddingX" (u64 (min padding 3)))

def set_autocomplete_max_visible (maxVisible : Nat) : Setter :=
  sets (field "autocompleteMaxVisible" (u64 (max 3 (min maxVisible 20))))

def set_quiet_startup (quiet : Bool) : Setter :=
  sets (field "quietStartup" (.bool quiet))

/-- `parsed` is what the value reads as, where it reads as a positive finite number. -/
def set_idle_eviction_minutes (value : String) (parsed : Option F64) : Setter := fun _ =>
  if value = "off" then .ok [field "idleEvictionMinutes" (.string "off")]
  else
    match parsed with
    | some number => .ok [field "idleEvictionMinutes" (.number (.float number))]
    | none => .error "Idle eviction minutes must be a positive number or off"

def set_mermaid_rendering_mode (mode : String) : Setter := fun _ =>
  if mode ∈ ["off", "final", "streaming"] then .ok [innerField "markdown" "mermaid" (.string mode)]
  else .error ("Unknown mermaid rendering mode: " ++ mode)

def set_warnings_anthropic_extra_usage : Bool → Setter :=
  setsFlag "warnings" "anthropicExtraUsage"

def set_tree_filter_mode (mode : String) : Setter :=
  sets (field "treeFilterMode" (.string mode))

def set_chat_detail (detail : String) : Setter :=
  sets (field "chatDetail" (.string detail))

def set_enabled_models (models : Option (List String)) : Setter :=
  sets (field "enabledModels" (models.elim .null strings))

inductive Call where
  | defaultProvider (provider : String)
  | defaultModel (model : String)
  | defaultModelAndProvider (provider model : String)
  | steeringMode (mode : QueueMode)
  | followUpMode (mode : QueueMode)
  | theme (name : String)
  | updateChannel (channel : UpdateChannelSetting)
  | defaultThinkingLevel (level : ThinkingLevel)
  | retryEnabled (enabled : Bool)
  | compactionEnabled (enabled : Bool)
  | transport (mode : Transport)
  | rlmMaxDepth (depth : Nat)
  | telemetryEnabled (enabled : Bool)
  | telemetryNoticeShown (shown : Bool)
  | onboardingShown (shown : Bool)
  | onboardingCompleted (completed : Bool)
  | agentTracesEnabled (enabled : Bool)
  | defaultServiceTier (tier : ServiceTier)
  | showImages (shown : Bool)
  | clearOnShrink (enabled : Bool)
  | showTerminalProgress (enabled : Bool)
  | fullscreenMouse (enabled : Bool)
  | imageAutoResize (enabled : Bool)
  | blockImages (blocked : Bool)
  | enableSkillCommands (enabled : Bool)
  | enableBuiltinSkills (enabled : Bool)
  | showHardwareCursor (enabled : Bool)
  | editorPaddingX (padding : Nat)
  | autocompleteMaxVisible (maxVisible : Nat)
  | quietStartup (quiet : Bool)
  | idleEvictionMinutes (value : String) (parsed : Option F64)
  | mermaidRenderingMode (mode : String)
  | warningsAnthropicExtraUsage (enabled : Bool)
  | treeFilterMode (mode : String)
  | chatDetail (detail : String)
  | enabledModels (models : Option (List String))

def Call.setter : Call → Setter
  | .defaultProvider provider => set_default_provider provider
  | .defaultModel model => set_default_model model
  | .defaultModelAndProvider provider model => set_default_model_and_provider provider model
  | .steeringMode mode => set_steering_mode mode
  | .followUpMode mode => set_follow_up_mode mode
  | .theme name => set_theme name
  | .updateChannel channel => set_update_channel channel
  | .defaultThinkingLevel level => set_default_thinking_level level
  | .retryEnabled enabled => set_retry_enabled enabled
  | .compactionEnabled enabled => set_compaction_enabled enabled
  | .transport mode => set_transport mode
  | .rlmMaxDepth depth => set_rlm_max_depth depth
  | .telemetryEnabled enabled => set_telemetry_enabled enabled
  | .telemetryNoticeShown shown => set_telemetry_notice_shown shown
  | .onboardingShown shown => set_onboarding_shown shown
  | .onboardingCompleted completed => set_onboarding_completed completed
  | .agentTracesEnabled enabled => set_agent_traces_enabled enabled
  | .defaultServiceTier tier => set_default_service_tier tier
  | .showImages shown => set_show_images shown
  | .clearOnShrink enabled => set_clear_on_shrink enabled
  | .showTerminalProgress enabled => set_show_terminal_progress enabled
  | .fullscreenMouse enabled => set_fullscreen_mouse enabled
  | .imageAutoResize enabled => set_image_auto_resize enabled
  | .blockImages blocked => set_block_images blocked
  | .enableSkillCommands enabled => set_enable_skill_commands enabled
  | .enableBuiltinSkills enabled => set_enable_builtin_skills enabled
  | .showHardwareCursor enabled => set_show_hardware_cursor enabled
  | .editorPaddingX padding => set_editor_padding_x padding
  | .autocompleteMaxVisible maxVisible => set_autocomplete_max_visible maxVisible
  | .quietStartup quiet => set_quiet_startup quiet
  | .idleEvictionMinutes value parsed => set_idle_eviction_minutes value parsed
  | .mermaidRenderingMode mode => set_mermaid_rendering_mode mode
  | .warningsAnthropicExtraUsage enabled => set_warnings_anthropic_extra_usage enabled
  | .treeFilterMode mode => set_tree_filter_mode mode
  | .chatDetail detail => set_chat_detail detail
  | .enabledModels models => set_enabled_models models

theorem lookup_unset (key : String) :
    (inner : Fields) → inner.unset.lookup key = none ∨ inner.unset.lookup key = some .null
  | .none => Or.inl rfl
  | .field name _ rest => by
    rw [Fields.unset, List.lookup_cons]
    split
    · exact Or.inr rfl
    · exact lookup_unset key rest

theorem leaf_unset (path : List String) (inner : Fields) : Json.leaf path (.object inner.unset) = none := by
  cases path with
  | nil => rfl
  | cons key path =>
    rcases lookup_unset key inner with hAbsent | hNull
    · simp [Json.leaf, Json.get, hAbsent]
    · simp [Json.leaf, Json.get, hNull]

theorem leaf_unsetValue (key : String) (path : List String) : Json.leaf path (unsetValue key) = none := by
  unfold unsetValue
  split
  · exact leaf_unset path _
  · exact Json.leaf_null path

theorem leaf_orDefault (key : String) (path : List String) (found : Option Json) :
    Json.leaf path (orDefault key found) = found.bind (Json.leaf path) := by
  match found with
  | none => exact leaf_unsetValue key path
  | some .null => exact (leaf_unsetValue key path).trans (Json.leaf_null path).symm
  | some (.bool _) | some (.number _) | some (.string _) | some (.array _) | some (.object _) => rfl

theorem get_to_value (settings : Settings) (key : String) :
    settings.to_value.get key = (settings.known.lookup key).or (settings.extra.lookup key) :=
  List.lookup_append

theorem leaf_write (settings : Settings) (change : FieldWrite) (path : List String) :
    Json.leaf path (settings.write change).to_value =
      Json.leaf path (Json.put change.path change.value settings.to_value) := by
  cases path with
  | nil => rfl
  | cons key path =>
    by_cases hKey : key = change.key
    · subst hKey
      have hExtra := settings.extra_unknown change.key change.known
      simp only [Json.leaf, FieldWrite.path, Json.get_put_self, get_to_value, hExtra, Option.or_none]
      rw [show (settings.write change).known.lookup change.key = _ from JsonMap.lookup_set_self _ _ _,
        show (settings.write change).extra.lookup change.key = none from hExtra]
      exact Json.agrees_put (fun inner => (leaf_orDefault change.key inner _).trans
        (Json.leaf_getD inner _).symm) change.inner change.value path
    · simp only [Json.leaf, FieldWrite.path, Json.get_put_of_ne hKey, get_to_value]
      rw [show (settings.write change).known.lookup key = _ from JsonMap.lookup_set_of_ne hKey _ _]
      rfl

end Settings

end PrimeAgent
