import PrimeAgent.Settings.Typed
import PrimeAgent.Settings.Setters

/-! # What migration leaves

Migration is followed key by key, and then through the lenient reader.
-/
namespace PrimeAgent.Settings

open Json (leaf)

/-! ## The rewrites -/

theorem lookup_remove (key other : String) (members : JsonMap) :
    (members.remove key).lookup other = if other = key then none else members.lookup other := by
  split
  next hSame =>
    refine lookup_eq_none_of_keys fun hKey => ?_
    obtain ⟨member, hMember, hName⟩ := List.mem_map.mp hKey
    simpa [hName, hSame] using (List.mem_filter.mp hMember).2
  next hNe => exact JsonMap.lookup_remove_of_ne hNe members

variable {key : String} {members : JsonMap} {retry : JsonMap} {provider : Json}

theorem remove_of_absent (hAbsent : members.lookup key = none) :
    members.remove key = members := by
  refine List.filter_eq_self.mpr fun member hMember => ?_
  have hTest : (key != member.1) = true := List.lookup_eq_none_iff.mp hAbsent member hMember
  exact decide_eq_true fun hName => bne_iff_ne.mp hTest hName.symm

theorem lookup_insertAbsent (key other : String) (value : Json) (document : JsonMap) :
    (insertAbsent key value document).lookup other =
      if other = key then (document.lookup key).or (some value) else document.lookup other := by
  unfold insertAbsent
  cases hKey : document.lookup key with
  | some found =>
    by_cases hSame : other = key
    · rw [if_pos hSame, hSame]
      exact hKey
    · rw [if_neg hSame]
  | none => exact lookup_set key other value document

theorem lookup_queueMode (document : JsonMap) (key : String) :
    (migrate.queueMode document).lookup key =
      if key = "queueMode" then none
      else if key = "steeringMode" then (document.lookup "steeringMode").or (document.lookup "queueMode")
      else document.lookup key := by
  unfold migrate.queueMode
  cases hQueue : document.lookup "queueMode" with
  | none =>
    split_ifs with hKey hSteering
    · rw [hKey, hQueue]
    · rw [hSteering, Option.or_none]
    · rfl
  | some queue_mode =>
    simp only [lookup_insertAbsent, lookup_remove]
    clear hQueue
    split_ifs <;> simp_all

/-- What `websockets` stands for as a `transport`. -/
def transportOf : Json → Option Json
  | .bool true => some (.string "websocket")
  | .bool false => some (.string "sse")
  | _ => none

theorem lookup_websockets (document : JsonMap) (key : String) :
    (migrate.websockets document).lookup key =
      if key = "websockets" then
        if (document.lookup "transport").isSome then document.lookup "websockets" else none
      else if key = "transport" then (document.lookup "transport").or ((document.lookup "websockets").bind transportOf)
      else document.lookup key := by
  unfold migrate.websockets
  cases hNew : document.lookup "transport" with
  | some found =>
    show document.lookup key = if key = "websockets" then document.lookup "websockets"
      else if key = "transport" then some found else document.lookup key
    split_ifs with hKey hTransport
    · rw [hKey]
    · rw [hTransport]
      exact hNew
    · rfl
  | none =>
    cases hOld : document.lookup "websockets" with
    | none =>
      show document.lookup key = if key = "websockets" then none
        else if key = "transport" then none else document.lookup key
      split_ifs with hKey hTransport
      · rw [hKey]
        exact hOld
      · rw [hTransport]
        exact hNew
      · rfl
    | some old =>
      have hGone : (document.remove "websockets").lookup key =
          if key = "websockets" then none else document.lookup key := lookup_remove "websockets" key document
      have hMoved : ∀ transport, ((document.remove "websockets").set "transport" transport).lookup key =
          if key = "websockets" then none else if key = "transport" then some transport else document.lookup key := by
        intro transport
        rw [lookup_set, hGone]
        split_ifs with hTransport hKey
        · exact absurd (hTransport.symm.trans hKey) (by decide)
        · rfl
        · rfl
        · rfl
      have hStays : (if key = "websockets" then none else if key = "transport" then none else document.lookup key) =
          if key = "websockets" then none else document.lookup key := by
        split_ifs with _ hTransport
        · rfl
        · rw [hTransport]
          exact hNew.symm
        · rfl
      cases old with
      | bool value =>
        cases value with
        | true | false => exact hMoved _
      | null | number _ | string _ | array _ | object _ => exact hGone.trans hStays.symm

/-- The directories that a `skills` object names. -/
def directoriesOf (skills : JsonMap) : Option Json :=
  match skills.lookup "customDirectories" with
  | some (.array (dir :: dirs)) => some (.array (dir :: dirs))
  | _ => none

def skillsOf : Json → Option Json
  | .object skills => directoriesOf skills
  | other => some other

def flagOf : Json → Option Json
  | .object skills => skills.lookup "enableSkillCommands"
  | _ => none

/-- The document when the flag of its `skills` object has been moved. -/
def flagged (skills document : JsonMap) : JsonMap :=
  match skills.lookup "enableSkillCommands" with
  | some flag => insertAbsent "enableSkillCommands" flag (document.remove "skills")
  | none => document.remove "skills"

theorem lookup_skills (document : JsonMap) (key : String) :
    (migrate.skills document).lookup key =
      if key = "skills" then (document.lookup "skills").bind skillsOf
      else if key = "enableSkillCommands" then
        (document.lookup "enableSkillCommands").or ((document.lookup "skills").bind flagOf)
      else document.lookup key := by
  unfold migrate.skills
  cases hSkills : document.lookup "skills" with
  | none =>
    split_ifs with hKey hFlag
    · rw [hKey]
      exact hSkills
    · rw [hFlag]
      exact Option.or_none.symm
    · rfl
  | some found =>
    have hOther : ((document.remove "skills").set "skills" found).lookup key =
        if key = "skills" then some found
        else if key = "enableSkillCommands" then (document.lookup "enableSkillCommands").or none
        else document.lookup key := by
      rw [lookup_set, lookup_remove]
      split_ifs with hKey hFlag
      · rfl
      · rw [hFlag, Option.or_none]
      · rfl
    cases found with
    | object skills =>
      have hFlagged : (flagged skills document).lookup key = if key = "skills" then none
          else if key = "enableSkillCommands" then
            (document.lookup "enableSkillCommands").or (skills.lookup "enableSkillCommands")
          else document.lookup key := by
        unfold flagged
        cases skills.lookup "enableSkillCommands" with
        | none =>
          rw [lookup_remove]
          split_ifs with hKey hFlag
          · rfl
          · rw [hFlag, Option.or_none]
          · rfl
        | some flag =>
          rw [lookup_insertAbsent, lookup_remove, lookup_remove]
          split_ifs <;> simp_all
      show (match skills.lookup "customDirectories" with
        | some (.array (dir :: dirs)) => _
        | _ => _ : JsonMap).lookup key = if key = "skills" then directoriesOf skills else _
      unfold directoriesOf
      split
      next dir dirs _ =>
        rw [lookup_set]
        split_ifs with hKey hFlag
        · rfl
        · rw [if_neg hKey, if_pos hFlag] at hFlagged
          exact hFlagged
        · rw [if_neg hKey, if_neg hFlag] at hFlagged
          exact hFlagged
      next => exact hFlagged
    | null | bool _ | number _ | string _ | array _ => exact hOther

/-- The `retry` object that migration leaves. -/
def movedDelay (retry : JsonMap) : JsonMap :=
  let moved := retry.remove "maxDelayMs"
  match retry.lookup "maxDelayMs" with
  | some (.number delay) =>
    let moved := insertAbsent "provider" (.object []) moved
    match moved.lookup "provider" with
    | some (.object provider) =>
      moved.set "provider" (.object (insertAbsent "maxRetryDelayMs" (.number delay) provider))
    | _ => moved
  | _ => moved

def retryOf : Json → Json
  | .object retry => .object (movedDelay retry)
  | other => other

theorem lookup_apart (document : JsonMap) (name key : String) :
    document.lookup key = if key = name then document.lookup name else document.lookup key := by
  split_ifs with hKey
  · rw [hKey]
  · rfl

theorem lookup_retry (document : JsonMap) (key : String) :
    (migrate.retry document).lookup key =
      if key = "retry" then (document.lookup "retry").map retryOf else document.lookup key := by
  have hKept := lookup_apart document "retry" key
  cases hRetry : document.lookup "retry" with
  | none =>
    rw [hRetry] at hKept
    simp only [migrate.retry, hRetry]
    exact hKept
  | some found =>
    rw [hRetry] at hKept
    cases found with
    | object retry =>
      have hSet : migrate.retry document = document.set "retry" (.object (movedDelay retry)) := by
        unfold migrate.retry movedDelay
        simp only [hRetry]
        cases retry.lookup "maxDelayMs" with
        | none => rfl
        | some delay =>
          cases delay with
          | number n =>
            dsimp only
            cases (insertAbsent "provider" (.object []) (JsonMap.remove "maxDelayMs" retry)).lookup "provider" with
            | none => rfl
            | some provider => cases provider <;> rfl
          | _ => rfl
      rw [hSet, lookup_set]
      rfl
    | null | bool _ | number _ | string _ | array _ =>
      simp only [migrate.retry, hRetry]
      exact hKept

def telemetryOf : Json → Option Json
  | .bool enabled => some (.object [("enabled", .bool enabled)])
  | .object telemetry => some (.object telemetry)
  | _ => none

def markdownOf : Json → Option Json
  | .object markdown => some (.object markdown)
  | _ => none

theorem lookup_telemetry (document : JsonMap) (key : String) :
    (migrate.telemetry document).lookup key =
      if key = "telemetry" then (document.lookup "telemetry").bind telemetryOf else document.lookup key := by
  have hKept := lookup_apart document "telemetry" key
  unfold migrate.telemetry
  cases hFound : document.lookup "telemetry" with
  | none => exact hKept.trans (by rw [hFound]; rfl)
  | some found =>
    rw [hFound] at hKept
    cases found with
    | object _ => exact hKept
    | bool enabled => exact lookup_set "telemetry" key _ document
    | null | number _ | string _ | array _ => exact lookup_remove "telemetry" key document

theorem lookup_markdown (document : JsonMap) (key : String) :
    (migrate.markdown document).lookup key =
      if key = "markdown" then (document.lookup "markdown").bind markdownOf else document.lookup key := by
  have hKept := lookup_apart document "markdown" key
  unfold migrate.markdown
  cases hFound : document.lookup "markdown" with
  | none => exact hKept.trans (by rw [hFound]; rfl)
  | some found =>
    rw [hFound] at hKept
    cases found with
    | object _ => exact hKept
    | bool _ | null | number _ | string _ | array _ => exact lookup_remove "markdown" key document

def rewrittenKeys : List String :=
  ["queueMode", "steeringMode", "websockets", "transport", "skills", "enableSkillCommands", "retry", "telemetry",
    "markdown"]

theorem lookup_migrate (document : JsonMap) (key : String) :
    (migrate document).lookup key =
      if key = "queueMode" then none
      else if key = "steeringMode" then (document.lookup "steeringMode").or (document.lookup "queueMode")
      else if key = "websockets" then
        if (document.lookup "transport").isSome then document.lookup "websockets" else none
      else if key = "transport" then (document.lookup "transport").or ((document.lookup "websockets").bind transportOf)
      else if key = "skills" then (document.lookup "skills").bind skillsOf
      else if key = "enableSkillCommands" then
        (document.lookup "enableSkillCommands").or ((document.lookup "skills").bind flagOf)
      else if key = "retry" then (document.lookup "retry").map retryOf
      else if key = "telemetry" then (document.lookup "telemetry").bind telemetryOf
      else if key = "markdown" then (document.lookup "markdown").bind markdownOf
      else document.lookup key := by
  have hSteps : (migrate document).lookup key = _ :=
    (lookup_markdown _ key).trans (by rw [lookup_telemetry, lookup_telemetry])
  rw [hSteps]
  by_cases hLegacy : key ∈ rewrittenKeys
  · simp only [rewrittenKeys, List.mem_cons, List.not_mem_nil, or_false] at hLegacy
    obtain rfl | rfl | rfl | rfl | rfl | rfl | rfl | rfl | rfl := hLegacy
    all_goals simp only [lookup_retry, lookup_skills, lookup_websockets, lookup_queueMode, String.reduceEq,
      if_true, if_false]
  · simp only [rewrittenKeys, List.mem_cons, List.not_mem_nil, or_false, not_or] at hLegacy
    obtain ⟨hQueue, hSteering, hWebsockets, hTransport, hSkills, hFlag, hRetry, hTelemetry, hMarkdown⟩ := hLegacy
    simp only [lookup_retry, lookup_skills, lookup_websockets, lookup_queueMode, hQueue, hSteering, hWebsockets,
      hTransport,
      hSkills, hFlag, hRetry, hTelemetry, hMarkdown, if_false]

/-! ## Distinct keys -/

theorem Distinct.insertAbsent (hDistinct : Distinct members) (key : String) (value : Json) :
    Distinct (insertAbsent key value members) := by
  unfold Settings.insertAbsent
  split
  next => exact hDistinct
  next => exact hDistinct.set key value

theorem Distinct.skills (hDistinct : Distinct members) : Distinct (migrate.skills members) := by
  unfold migrate.skills
  split
  next skills _ =>
    have hFlagged : Distinct (flagged skills members) := by
      unfold flagged
      cases skills.lookup "enableSkillCommands" with
      | some flag => exact (hDistinct.remove "skills").insertAbsent _ _
      | none => exact hDistinct.remove "skills"
    simp only
    split
    next => exact hFlagged.set _ _
    next => exact hFlagged
  next => exact (hDistinct.remove "skills").set _ _
  next => exact hDistinct

theorem Distinct.migrate (hDistinct : Distinct members) : Distinct (migrate members) := by
  have hQueue : Distinct (migrate.queueMode members) := by
    unfold migrate.queueMode
    split
    next => exact (hDistinct.remove _).insertAbsent _ _
    next => exact hDistinct
  have hTransport : Distinct (migrate.websockets (migrate.queueMode members)) := by
    unfold migrate.websockets
    split
    next => exact (hQueue.remove _).set _ _
    next => exact (hQueue.remove _).set _ _
    next => exact hQueue.remove _
    next => exact hQueue
  have hRetry : ∀ document, Distinct document → Distinct (migrate.retry document) := by
    intro document hDocument
    unfold migrate.retry
    split
    next =>
      simp only
      split
      next =>
        split
        next => exact hDocument.set _ _
        next => exact hDocument.set _ _
      next => exact hDocument.set _ _
    next => exact hDocument
  have hTelemetry : ∀ document, Distinct document → Distinct (migrate.telemetry document) := by
    intro document hDocument
    unfold migrate.telemetry
    split
    next => exact hDocument.set _ _
    next => exact hDocument
    next => exact hDocument
    next => exact hDocument.remove _
  have hMarkdown : ∀ document, Distinct document → Distinct (migrate.markdown document) := by
    intro document hDocument
    unfold migrate.markdown
    split
    next => exact hDocument
    next => exact hDocument
    next => exact hDocument.remove _
  exact hMarkdown _ (hTelemetry _ (hRetry _ hTransport.skills))

/-! ## What migration changes -/

theorem lookup_movedDelay (retry : JsonMap) : (movedDelay retry).lookup "maxDelayMs" = none := by
  unfold movedDelay
  simp only
  split
  next =>
    split
    next => simp only [lookup_set, lookup_insertAbsent, lookup_remove, String.reduceEq, if_true, if_false]
    next => simp only [lookup_insertAbsent, lookup_remove, String.reduceEq, if_true, if_false]
  next => simp only [lookup_remove, if_true]

theorem movedDelay_of_absent (hAbsent : retry.lookup "maxDelayMs" = none) :
    movedDelay retry = retry := by
  unfold movedDelay
  simp only [hAbsent]
  exact remove_of_absent hAbsent

theorem movedDelay_other (hDelay : key ≠ "maxDelayMs") (hProvider : key ≠ "provider") :
    (movedDelay retry).lookup key = retry.lookup key := by
  unfold movedDelay
  simp only
  split
  next =>
    split
    next => simp only [lookup_set, lookup_insertAbsent, lookup_remove, hDelay, hProvider, if_false]
    next => simp only [lookup_insertAbsent, lookup_remove, hDelay, hProvider, if_false]
  next => simp only [lookup_remove, hDelay, if_false]

def delayed (delay : JsonNumber) : Json → Json
  | .object provider => .object (insertAbsent "maxRetryDelayMs" (.number delay) provider)
  | other => other

theorem movedDelay_provider (retry : JsonMap) :
    (movedDelay retry).lookup "provider" = match retry.lookup "maxDelayMs" with
      | some (.number delay) => some (delayed delay ((retry.lookup "provider").getD (.object [])))
      | _ => retry.lookup "provider" := by
  have hKept : (insertAbsent "provider" (.object []) (retry.remove "maxDelayMs")).lookup "provider" =
      some ((retry.lookup "provider").getD (.object [])) := by
    simp only [lookup_insertAbsent, lookup_remove, String.reduceEq, if_true, if_false]
    cases retry.lookup "provider" with
    | none => rfl
    | some _ => rfl
  unfold movedDelay
  simp only
  split
  next delay _ =>
    simp only [hKept]
    split
    next provider hProvider =>
      rw [JsonMap.lookup_set_self, Option.some.inj hProvider]
      rfl
    next hNone =>
      rw [hKept]
      cases hFound : (retry.lookup "provider").getD (.object []) with
      | object provider => exact absurd (congrArg some hFound) (hNone provider)
      | _ => rfl
  next => simp only [lookup_remove, String.reduceEq, if_false]

structure Rewrites (document rewritten : JsonMap) : Prop where
  others : ∀ key ∉ rewrittenKeys, rewritten.lookup key = document.lookup key
  steeringMode : document.lookup "steeringMode" ≠ none ∨ document.lookup "queueMode" = none →
    rewritten.lookup "steeringMode" = document.lookup "steeringMode"
  transport : document.lookup "transport" ≠ none ∨ document.lookup "websockets" = none →
    rewritten.lookup "transport" = document.lookup "transport" ∧
      rewritten.lookup "websockets" = document.lookup "websockets"
  enableSkillCommands : document.lookup "enableSkillCommands" ≠ none →
    rewritten.lookup "enableSkillCommands" = document.lookup "enableSkillCommands"
  skills : (∀ skills, document.lookup "skills" ≠ some (.object skills)) →
    rewritten.lookup "skills" = document.lookup "skills" ∧
      rewritten.lookup "enableSkillCommands" = document.lookup "enableSkillCommands"
  retry : (∀ retry, document.lookup "retry" ≠ some (.object retry)) → rewritten.lookup "retry" = document.lookup "retry"
  retryMembers : ∀ retry, document.lookup "retry" = some (.object retry) →
    ∃ moved, rewritten.lookup "retry" = some (.object moved) ∧
      (retry.lookup "maxDelayMs" = none → moved = retry) ∧
      (∀ key, key ≠ "maxDelayMs" → key ≠ "provider" → moved.lookup key = retry.lookup key) ∧
      ∀ provider, retry.lookup "provider" = some provider → ∀ key, key ≠ "maxRetryDelayMs" ∨ provider.get key ≠ none →
        (moved.lookup "provider").bind (Json.get key) = provider.get key
  telemetry : ∀ telemetry, document.lookup "telemetry" = some (.object telemetry) →
    rewritten.lookup "telemetry" = some (.object telemetry)
  markdown : ∀ markdown, document.lookup "markdown" = some (.object markdown) →
    rewritten.lookup "markdown" = some (.object markdown)

theorem get_delayed {delay : JsonNumber} (hKept : key ≠ "maxRetryDelayMs" ∨ provider.get key ≠ none) :
    (delayed delay provider).get key = provider.get key := by
  cases provider with
  | object members =>
    show (insertAbsent "maxRetryDelayMs" (.number delay) members).lookup key = members.lookup key
    rw [lookup_insertAbsent]
    split_ifs with hKey
    · have hFound : members.lookup key ≠ none := hKept.resolve_left (not_not.mpr hKey)
      obtain ⟨found, hFound⟩ := Option.ne_none_iff_exists'.mp hFound
      rw [← hKey, hFound, Option.some_or]
    · rfl
  | _ => rfl

theorem migrate_rewrites (document : JsonMap) : Rewrites document (migrate document) := by
  constructor
  · intro key hKey
    simp only [rewrittenKeys, List.mem_cons, List.not_mem_nil, or_false, not_or] at hKey
    obtain ⟨hQueue, hSteering, hWebsockets, hTransport, hSkills, hFlag, hRetry, hTelemetry, hMarkdown⟩ := hKey
    rw [lookup_migrate]
    simp only [hQueue, hSteering, hWebsockets, hTransport, hSkills, hFlag, hRetry, hTelemetry, hMarkdown, if_false]
  · intro hKept
    rw [lookup_migrate]
    simp only [String.reduceEq, if_false, if_true]
    cases hNew : document.lookup "steeringMode" with
    | some _ => rfl
    | none => rw [hKept.resolve_left (not_not.mpr hNew), Option.none_or]
  · intro hKept
    rw [lookup_migrate, lookup_migrate]
    simp only [String.reduceEq, if_false, if_true]
    cases hNew : document.lookup "transport" with
    | some _ => exact ⟨rfl, rfl⟩
    | none =>
      rw [hKept.resolve_left (not_not.mpr hNew)]
      exact ⟨rfl, rfl⟩
  · intro hKept
    obtain ⟨flag, hFlag⟩ := Option.ne_none_iff_exists'.mp hKept
    rw [lookup_migrate, hFlag]
    simp only [String.reduceEq, if_false, if_true, Option.some_or]
  · intro hKept
    rw [lookup_migrate, lookup_migrate]
    simp only [String.reduceEq, if_false, if_true]
    cases hSkills : document.lookup "skills" with
    | none => exact ⟨rfl, Option.or_none⟩
    | some skills =>
      cases skills with
      | object members => exact absurd hSkills (hKept members)
      | _ => exact ⟨rfl, Option.or_none⟩
  · intro hKept
    rw [lookup_migrate]
    simp only [String.reduceEq, if_false, if_true]
    cases hRetry : document.lookup "retry" with
    | none => rfl
    | some retry =>
      cases retry with
      | object members => exact absurd hRetry (hKept members)
      | _ => rfl
  · intro retry hRetry
    refine ⟨movedDelay retry, ?_, movedDelay_of_absent, fun key => movedDelay_other, ?_⟩
    · rw [lookup_migrate, hRetry]
      rfl
    · intro provider hProvider key hKept
      rw [movedDelay_provider]
      split
      next delay _ =>
        rw [hProvider]
        exact get_delayed hKept
      next =>
        rw [hProvider]
        rfl
  · intro telemetry hTelemetry
    rw [lookup_migrate, hTelemetry]
    rfl
  · intro markdown hMarkdown
    rw [lookup_migrate, hMarkdown]
    rfl

theorem migrate_migrate (document : JsonMap) (key : String) :
    (migrate (migrate document)).lookup key = (migrate document).lookup key := by
  by_cases hLegacy : key ∈ rewrittenKeys
  · simp only [rewrittenKeys, List.mem_cons, List.not_mem_nil, or_false] at hLegacy
    obtain rfl | rfl | rfl | rfl | rfl | rfl | rfl | rfl | rfl := hLegacy
    all_goals
      rw [lookup_migrate (migrate document)]
      simp only [String.reduceEq, if_true, if_false]
      simp only [lookup_migrate document, String.reduceEq, if_true, if_false]
    · exact Option.or_none
    · cases document.lookup "transport" with
      | some _ => rfl
      | none => simp
    · cases document.lookup "transport" with
      | some _ => rfl
      | none => simp
    · cases document.lookup "skills" with
      | none => rfl
      | some skills =>
        cases skills with
        | object members =>
          simp only [Option.bind_some, skillsOf]
          unfold directoriesOf
          split <;> rfl
        | _ => rfl
    · cases document.lookup "skills" with
      | none => exact Option.or_none
      | some skills =>
        cases skills with
        | object members =>
          simp only [Option.bind_some, skillsOf]
          unfold directoriesOf
          split
          next => exact Option.or_none
          next => exact Option.or_none
        | _ => exact Option.or_none
    · cases document.lookup "retry" with
      | none => rfl
      | some retry =>
        cases retry with
        | object members =>
          simp only [Option.map_some, retryOf, movedDelay_of_absent (lookup_movedDelay members)]
        | _ => rfl
    · cases document.lookup "telemetry" with
      | none => rfl
      | some telemetry => cases telemetry <;> rfl
    · cases document.lookup "markdown" with
      | none => rfl
      | some markdown => cases markdown <;> rfl
  · exact (migrate_rewrites (migrate document)).others key hLegacy

/-! ## What the migrated document loads as -/

def delayFree (retry : JsonMap) : Bool :=
  match retry.lookup "provider" with
  | some (.object provider) => (provider.lookup "maxRetryDelayMs").isNone
  | some (.array _) => false
  | _ => true

structure KeepsMeaning (document : JsonMap) (loaded : Json) : Prop where
  queueMode : ∀ queue_mode, document.lookup "queueMode" = some queue_mode → document.lookup "steeringMode" = none →
    leaf ["steeringMode"] loaded = QueueModeSetting.read queue_mode
  websockets : ∀ websockets, document.lookup "websockets" = some (.bool websockets) →
    document.lookup "transport" = none →
    leaf ["transport"] loaded = some (.string (if websockets then Transport.webSocket.name else Transport.sse.name))
  enableSkillCommands : ∀ skills enabled, document.lookup "skills" = some (.object skills) →
    skills.lookup "enableSkillCommands" = some (.bool enabled) → document.lookup "enableSkillCommands" = none →
    leaf ["enableSkillCommands"] loaded = some (.bool enabled)
  customDirectories : ∀ skills, document.lookup "skills" = some (.object skills) →
    leaf ["skills"] loaded = (skills.lookup "customDirectories").bind fun directories =>
      if directories = .array [] then none else ofStrings directories
  maxDelayMs : ∀ retry delay, document.lookup "retry" = some (.object retry) →
    retry.lookup "maxDelayMs" = some (.number (.posInt delay)) → delayFree retry = true →
    leaf ["retry", "provider", "maxRetryDelayMs"] loaded = some (.number (.posInt delay))
  telemetry : ∀ enabled, document.lookup "telemetry" = some (.bool enabled) →
    leaf ["telemetry", "enabled"] loaded = some (.bool enabled)

structure MigrationSound (document : JsonMap) : Prop where
  idempotent : ∀ key, (migrate (migrate document)).lookup key = (migrate document).lookup key
  rewrites : Rewrites document (migrate document)
  meaning : KeepsMeaning document (from_value_lenient (.object (migrate document))).to_value

def RetryLoads (retry : JsonMap) : Prop :=
  (∀ provider, retry.lookup "provider" = some provider → provider.isObject = true) ∧ (RetrySettings.read retry).isSome

structure Loadable (document : JsonMap) : Prop where
  websockets : document.lookup "transport" = none → document.lookup "websockets" ≠ some (.bool true)
  retry : ∀ retry delay, document.lookup "retry" = some (.object retry) →
    retry.lookup "maxDelayMs" = some (.number (.posInt delay)) → delayFree retry = true → RetryLoads retry

variable {document retry : JsonMap}

theorem leaf_loaded (hDistinct : Distinct document) {key : String} {shape : Shape}
    (hField : fields.lookup key = some shape)
    (path : List String) :
    leaf (key :: path) (from_value_lenient (.object (migrate document))).to_value =
      leaf path ((shape.readSlot ((migrate document).lookup key)).getD .null) := by
  show ((from_value_lenient _).to_value.get key).bind _ = _
  rw [get_to_value, from_value_lenient_known hDistinct.migrate hField]
  rfl

theorem ofChoice_string {names : List String} {aliases : List (String × String)} {json value : Json}
    (hRead : ofChoice names aliases json = some value) : ∃ name, value = .string name := by
  unfold ofChoice at hRead
  split at hRead
  case h_3 => cases hRead
  all_goals
    split at hRead
    next => exact ⟨_, (Option.some.inj hRead).symm⟩
    next =>
      obtain ⟨target, -, hTarget⟩ := Option.map_eq_some_iff.mp hRead
      exact ⟨target, hTarget.symm⟩

theorem leaf_choice (names : List String) (aliases : List (String × String)) (json : Json) :
    leaf [] (((Shape.choice names aliases).readSlot (some json)).getD .null) =
      (Shape.choice names aliases).read json := by
  by_cases hNull : json = .null
  · rw [hNull]
    rfl
  · rw [Shape.readSlot_of_ne hNull]
    cases hRead : (Shape.choice names aliases).read json with
    | none => rfl
    | some value =>
      obtain ⟨name, rfl⟩ := ofChoice_string hRead
      rfl

theorem leaf_directories (found : Option Json) :
    leaf [] ((Shape.strings.readSlot (found.bind fun directories =>
        match directories with
        | .array (dir :: dirs) => some (.array (dir :: dirs))
        | _ => none)).getD .null) =
      found.bind fun directories => if directories = .array [] then none else ofStrings directories := by
  cases found with
  | none => rfl
  | some directories =>
    cases directories with
    | array items =>
      cases items with
      | nil => rfl
      | cons dir dirs =>
        have hSome : Json.array (dir :: dirs) ≠ .array [] := by simp
        show leaf [] ((ofStrings (.array (dir :: dirs))).getD .null) =
          if Json.array (dir :: dirs) = .array [] then none else ofStrings (.array (dir :: dirs))
        rw [if_neg hSome]
        unfold ofStrings
        dsimp only
        split
        next => rfl
        next => rfl
    | _ => rfl

theorem directoriesOf_eq (skills : JsonMap) :
    directoriesOf skills = (skills.lookup "customDirectories").bind fun directories =>
      match directories with
      | .array (dir :: dirs) => some (.array (dir :: dirs))
      | _ => none := by
  unfold directoriesOf
  cases skills.lookup "customDirectories" with
  | none => rfl
  | some directories =>
    cases directories with
    | array items => cases items <;> rfl
    | _ => rfl

/-! ## The delay of a retry -/

theorem retrySettings_sound : RetrySettings.sound = true := by
  decide +kernel

theorem providerRetrySettings_sound : ProviderRetrySettings.sound = true := by
  decide +kernel

theorem provider_isSome_iff {provider : JsonMap} (hFree : provider.lookup "maxRetryDelayMs" = none) (delay : Nat) :
    (ProviderRetrySettings.read (insertAbsent "maxRetryDelayMs" (.number (.posInt delay)) provider)).isSome ↔
      (ProviderRetrySettings.read provider).isSome := by
  rw [Fields.read_isSome_iff _ providerRetrySettings_sound, Fields.read_isSome_iff _ providerRetrySettings_sound]
  refine forall_congr' fun key => forall_congr' fun shape => imp_congr_right fun hField => ?_
  rw [lookup_insertAbsent]
  split_ifs with hKey
  · subst hKey
    obtain rfl : Shape.u64 = shape := Option.some.inj hField
    rw [hFree]
    exact ⟨fun _ => rfl, fun _ => rfl⟩
  · rfl

theorem delayed_isSome_iff (hObject : provider.isObject = true) (hFree : provider.get "maxRetryDelayMs" = none)
    (delay : Nat) :
    ((Shape.record ProviderRetrySettings).readSlot (some (delayed (.posInt delay) provider))).isSome ↔
      ((Shape.record ProviderRetrySettings).readSlot (some provider)).isSome := by
  cases provider with
  | object members =>
    show ((ProviderRetrySettings.read (insertAbsent _ _ members)).map Json.object).isSome ↔
      ((ProviderRetrySettings.read members).map Json.object).isSome
    rw [Option.isSome_map, Option.isSome_map]
    exact provider_isSome_iff hFree delay
  | _ => cases hObject

theorem leaf_movedDelay_iff {delay : Nat} (hDelay : retry.lookup "maxDelayMs" = some (.number (.posInt delay)))
    (hFree : delayFree retry = true) :
    leaf ["provider", "maxRetryDelayMs"] (((Shape.record RetrySettings).readSlot
        (some (.object (movedDelay retry)))).getD .null) = some (.number (.posInt delay)) ↔ RetryLoads retry := by
  show leaf _ (((RetrySettings.read (movedDelay retry)).map Json.object).getD .null) = _ ↔ _
  have hProvider := movedDelay_provider retry
  simp only [hDelay] at hProvider
  by_cases hObject : ∀ provider, retry.lookup "provider" = some provider → provider.isObject = true
  · have hKept : ((retry.lookup "provider").getD (.object [])).isObject = true := by
      cases hFound : retry.lookup "provider" with
      | none => rfl
      | some provider => exact hObject provider hFound
    have hEmpty : ((retry.lookup "provider").getD (.object [])).get "maxRetryDelayMs" = none := by
      unfold delayFree at hFree
      cases hFound : retry.lookup "provider" with
      | none => rfl
      | some provider =>
        cases provider with
        | object members =>
          rw [hFound] at hFree
          exact Option.isNone_iff_eq_none.mp hFree
        | _ => cases hObject _ hFound
    have hReads : (RetrySettings.read (movedDelay retry)).isSome ↔ (RetrySettings.read retry).isSome := by
      rw [Fields.read_isSome_iff _ retrySettings_sound, Fields.read_isSome_iff _ retrySettings_sound]
      refine forall_congr' fun key => forall_congr' fun shape => imp_congr_right fun hField => ?_
      by_cases hKey : key = "provider"
      · subst hKey
        obtain rfl : Shape.record ProviderRetrySettings = shape := Option.some.inj hField
        rw [hProvider, delayed_isSome_iff hKept hEmpty]
        cases retry.lookup "provider" with
        | none => exact ⟨fun _ => rfl, fun _ => rfl⟩
        | some provider => rfl
      · have hOther : key ≠ "maxDelayMs" := by
          rintro rfl
          cases hField
        rw [movedDelay_other hOther hKey]
    cases hRead : RetrySettings.read (movedDelay retry) with
    | none =>
      rw [hRead] at hReads
      refine ⟨nofun, fun hLoads => ?_⟩
      cases hReads.mpr hLoads.2
    | some written =>
      rw [hRead] at hReads
      refine ⟨fun _ => ⟨hObject, hReads.mp rfl⟩, fun _ => ?_⟩
      have hWritten := Fields.read_lookup RetrySettings hRead
        (show RetrySettings.lookup "provider" = some (.record ProviderRetrySettings) from rfl)
      rw [hProvider] at hWritten
      cases hFound : (retry.lookup "provider").getD (.object []) with
      | object members =>
        rw [hFound] at hWritten hEmpty
        have hSlot : written.lookup "provider" = (ProviderRetrySettings.read
            (insertAbsent "maxRetryDelayMs" (.number (.posInt delay)) members)).map Json.object := hWritten
        have hSome : (written.lookup "provider").isSome := by
          have hEach := (Fields.read_isSome_iff _ retrySettings_sound).mp (by rw [hRead]; rfl) "provider"
            (.record ProviderRetrySettings) rfl
          rw [hProvider, hFound] at hEach
          rw [hWritten]
          exact hEach
        cases hInner : ProviderRetrySettings.read (insertAbsent "maxRetryDelayMs" (.number (.posInt delay))
          members) with
        | none =>
          rw [hSlot, hInner] at hSome
          cases hSome
        | some inner =>
          have hValue := Fields.read_lookup ProviderRetrySettings hInner
            (show ProviderRetrySettings.lookup "maxRetryDelayMs" = some .u64 from rfl)
          have hEmpty : members.lookup "maxRetryDelayMs" = none := hEmpty
          rw [lookup_insertAbsent, if_pos rfl, hEmpty] at hValue
          show ((written.lookup "provider").bind fun found => (found.get "maxRetryDelayMs").bind (leaf [])) = _
          rw [hSlot, hInner]
          show ((inner.lookup "maxRetryDelayMs").bind (leaf [])) = _
          rw [hValue]
          rfl
      | _ =>
        rw [hFound] at hKept
        cases hKept
  · refine ⟨fun hLeaf => ?_, fun hLoads => absurd hLoads.1 hObject⟩
    obtain ⟨provider, hObject⟩ := not_forall.mp hObject
    obtain ⟨hFound, hNot⟩ := Classical.not_imp.mp hObject
    rw [hFound] at hProvider
    cases hRead : RetrySettings.read (movedDelay retry) with
    | none =>
      rw [hRead] at hLeaf
      cases hLeaf
    | some written =>
      rw [hRead] at hLeaf
      have hWritten := Fields.read_lookup RetrySettings hRead
        (show RetrySettings.lookup "provider" = some (.record ProviderRetrySettings) from rfl)
      rw [hProvider] at hWritten
      have hLeaf : ((written.lookup "provider").bind fun found => (found.get "maxRetryDelayMs").bind (leaf [])) =
        some (.number (.posInt delay)) := hLeaf
      rw [hWritten] at hLeaf
      cases provider with
      | object _ => exact absurd rfl hNot
      | array _ => simp [delayFree, hFound] at hFree
      | null | bool _ | number _ | string _ => cases hLeaf

theorem meaning_iff (hDistinct : Distinct document) :
    KeepsMeaning document (from_value_lenient (.object (migrate document))).to_value ↔ Loadable document := by
  have hTransport : leaf ["transport"] (from_value_lenient (.object (migrate document))).to_value =
      leaf [] ((TransportSetting.readSlot ((migrate document).lookup "transport")).getD .null) :=
    leaf_loaded hDistinct rfl []
  have hRetry : ∀ retry delay, document.lookup "retry" = some (.object retry) →
      retry.lookup "maxDelayMs" = some (.number (.posInt delay)) → delayFree retry = true →
      (leaf ["retry", "provider", "maxRetryDelayMs"] (from_value_lenient (.object (migrate document))).to_value =
        some (.number (.posInt delay)) ↔ RetryLoads retry) := by
    intro retry delay hFound hDelay hFree
    rw [@leaf_loaded document hDistinct "retry" (.record RetrySettings) rfl, lookup_migrate, hFound]
    exact leaf_movedDelay_iff hDelay hFree
  constructor
  · intro hMeaning
    refine ⟨fun hNew hOld => ?_, fun retry delay hFound hDelay hFree => ?_⟩
    · have hTyped := hMeaning.websockets true hOld hNew
      have hMoved : (migrate document).lookup "transport" = some (.string "websocket") := by
        rw [lookup_migrate, hNew, hOld]
        rfl
      rw [hTransport, hMoved] at hTyped
      revert hTyped
      decide
    · exact (hRetry retry delay hFound hDelay hFree).mp (hMeaning.maxDelayMs retry delay hFound hDelay hFree)
  · intro hLoadable
    constructor
    · intro queue_mode hOld hNew
      have hSteering : leaf ["steeringMode"] (from_value_lenient (.object (migrate document))).to_value =
          leaf [] ((QueueModeSetting.readSlot ((migrate document).lookup "steeringMode")).getD .null) :=
        leaf_loaded hDistinct rfl []
      rw [hSteering, lookup_migrate, hNew, hOld]
      exact leaf_choice _ _ queue_mode
    · intro websockets hOld hNew
      cases websockets with
      | true => exact absurd hOld (hLoadable.websockets hNew)
      | false =>
        have hMoved : (migrate document).lookup "transport" = some (.string "sse") := by
          rw [lookup_migrate, hNew, hOld]
          rfl
        rw [hTransport, hMoved]
        decide
    · intro skills enabled hSkills hOld hNew
      have hFlag : leaf ["enableSkillCommands"] (from_value_lenient (.object (migrate document))).to_value =
          leaf [] ((Shape.bool.readSlot ((migrate document).lookup "enableSkillCommands")).getD .null) :=
        leaf_loaded hDistinct rfl []
      have hMoved : (migrate document).lookup "enableSkillCommands" = some (.bool enabled) := by
        rw [lookup_migrate, hNew, hSkills]
        exact hOld
      rw [hFlag, hMoved]
      rfl
    · intro skills hSkills
      have hPaths : leaf ["skills"] (from_value_lenient (.object (migrate document))).to_value =
          leaf [] ((Shape.strings.readSlot ((migrate document).lookup "skills")).getD .null) :=
        leaf_loaded hDistinct rfl []
      have hMoved : (migrate document).lookup "skills" = directoriesOf skills := by
        rw [lookup_migrate, hSkills]
        rfl
      rw [hPaths, hMoved, directoriesOf_eq]
      exact leaf_directories _
    · intro retry delay hFound hDelay hFree
      exact (hRetry retry delay hFound hDelay hFree).mpr (hLoadable.retry retry delay hFound hDelay hFree)
    · intro enabled hOld
      have hTelemetry : leaf ["telemetry", "enabled"] (from_value_lenient (.object (migrate document))).to_value =
          leaf ["enabled"] (((Shape.record TelemetrySettings).readSlot
            ((migrate document).lookup "telemetry")).getD .null) :=
        leaf_loaded hDistinct rfl ["enabled"]
      have hMoved : (migrate document).lookup "telemetry" = some (.object [("enabled", .bool enabled)]) := by
        rw [lookup_migrate, hOld]
        rfl
      rw [hTelemetry, hMoved]
      cases enabled <;> decide

theorem migrationSound_iff (document : JsonMap) (hDistinct : Distinct document) :
    MigrationSound document ↔ Loadable document := by
  refine Iff.trans ⟨MigrationSound.meaning, fun hMeaning => ?_⟩ (meaning_iff hDistinct)
  exact ⟨migrate_migrate document, migrate_rewrites document, hMeaning⟩

def legacyDocument : JsonMap :=
  [("queueMode", .string "all"), ("websockets", .bool false),
    ("skills", .object [("enableSkillCommands", .bool false), ("customDirectories", .array [.string "/x"])]),
    ("retry", .object [("maxDelayMs", .number (.posInt 5))]), ("telemetry", .bool true)]

theorem legacyDocument_sound : MigrationSound legacyDocument := by
  refine (migrationSound_iff legacyDocument (by decide)).mpr ⟨fun _ => by decide, ?_⟩
  intro retry delay hRetry _ _
  obtain rfl : [("maxDelayMs", Json.number (.posInt 5))] = retry := Json.object.inj (Option.some.inj hRetry)
  exact ⟨nofun, by decide⟩

/-- `websockets: true` becomes a transport that no variant is named by. -/
theorem websockets_dropped : ¬ ∀ document, Distinct document → MigrationSound document := by
  intro hSound
  have hTyped := (hSound [("websockets", .bool true)] (by decide)).meaning.websockets true rfl rfl
  revert hTyped
  decide +kernel

end PrimeAgent.Settings
