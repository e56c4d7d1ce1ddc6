import PrimeAgent.Lib.HashMap
import PrimeAgent.Session.Timestamp

/-! # Prompt admissions

The admissions of one connection: a prompt that carries an admission id reserves it, under the session it addresses.
-/
namespace PrimeAgent.PromptAdmission

inductive AdmissionStatus where
  | waiting
  | owned
  | cancelled
deriving DecidableEq

structure Admission where
  workerAdmissionId : Text
  status : AdmissionStatus
  workerId : Option Text
  workerActiveSessionId : Option Text
deriving DecidableEq

abbrev Table := HashMap Text Admission

def promptAdmissionKey (activeSessionId admissionId : Text) : Text :=
  activeSessionId ++ '\x00' :: admissionId

variable (t : Table)

def register (activeSessionId admissionId uuid : Text) : Except String Table :=
  if admissionId.isEmpty then .error "admissionId must not be empty"
  else if admissionId.contains '\x00' then .error "admissionId must not contain NUL"
  else if activeSessionId.isEmpty then .error "Prompt admission requires string activeSessionId and admissionId"
  else if activeSessionId.contains '\x00' then .error "activeSessionId must not contain NUL"
  else
    let key := promptAdmissionKey activeSessionId admissionId
    if (t.lookup key).isSome then .error ("Prompt admission id is already in use: " ++ String.ofList admissionId)
    else .ok (t.insert key ⟨"supervisor-admission:".toList ++ uuid, .waiting, none, none⟩)

def update (key : Text) (f : Admission → Admission) : Table :=
  match t.lookup key with
  | some admission => t.insert key (f admission)
  | none => t

def rekey (source target : Text) : Table × Bool :=
  if source = target then (t, true)
  else if (t.lookup target).isSome then (t, false)
  else match t.lookup source with
    | some admission => ((t.erase source).insert target admission, true)
    | none => (t, false)

def soleKeyForAdmissionId (admissionId : Text) : Option Text :=
  if admissionId.isEmpty then none
  else match t.keys.filter fun key => ('\x00' :: admissionId).isSuffixOf key with
    | [key] => some key
    | _ => none

def cancelAllWaiting : Table :=
  t.entries.foldl (fun t e => update t e.1 fun admission =>
    if admission.status = .waiting then { admission with status := .cancelled } else admission) t

variable {t} {key key' : Text} {activeSessionId admissionId uuid : Text}

theorem lookup_update (f : Admission → Admission) :
    (update t key f).lookup key' = (t.lookup key').map fun admission => if key' = key then f admission else admission
      := by
  rw [update]
  cases hEntry : t.lookup key with
  | none =>
    dsimp only
    by_cases hKey : key' = key
    · rw [hKey, hEntry]
      rfl
    · rw [show (fun admission => if key' = key then f admission else admission) = id by
        funext admission
        exact if_neg hKey, Option.map_id]
      rfl
  | some admission =>
    dsimp only
    by_cases hKey : key' = key
    · rw [hKey, AList.lookup_insert, hEntry, Option.map_some, if_pos rfl]
    · rw [AList.lookup_insert_ne hKey, show (fun admission => if key' = key then f admission else admission) = id by
        funext admission
        exact if_neg hKey, Option.map_id]
      rfl

theorem isSome_update (f : Admission → Admission) : ((update t key f).lookup key').isSome = (t.lookup key').isSome := by
  rw [lookup_update, Option.isSome_map]

theorem isSome_cancelAllWaiting : ((cancelAllWaiting t).lookup key').isSome = (t.lookup key').isSome := by
  have hFold : ∀ (entries : List (Sigma fun _ : Text => Admission)) (u : Table),
      ((entries.foldl (fun t e => update t e.1 fun admission =>
        if admission.status = .waiting then { admission with status := .cancelled } else admission) u).lookup
          key').isSome
        = (u.lookup key').isSome := by
    intro entries
    induction entries with
    | nil => exact fun _ => rfl
    | cons e entries ih =>
      intro u
      rw [List.foldl_cons, ih, isSome_update]
  exact hFold t.entries t

theorem register_ok {t' : Table} (hOk : register t activeSessionId admissionId uuid = .ok t') :
    (t.lookup (promptAdmissionKey activeSessionId admissionId)).isSome = false ∧
      ∀ key, (t'.lookup key).isSome = true ↔
        key = promptAdmissionKey activeSessionId admissionId ∨ (t.lookup key).isSome = true := by
  rw [register] at hOk
  split at hOk
  · cases hOk
  split at hOk
  · cases hOk
  split at hOk
  · cases hOk
  split at hOk
  · cases hOk
  dsimp only at hOk
  split at hOk
  · cases hOk
  · rename_i hFree
    cases hOk
    refine ⟨Bool.eq_false_iff.mpr hFree, fun key => ?_⟩
    by_cases hKey : key = promptAdmissionKey activeSessionId admissionId
    · rw [hKey, AList.lookup_insert]
      exact ⟨fun _ => Or.inl rfl, fun _ => rfl⟩
    · rw [AList.lookup_insert_ne hKey]
      exact ⟨Or.inr, fun h => h.resolve_left hKey⟩

theorem register_free (hSession : activeSessionId ≠ []) (hId : admissionId ≠ [])
    (hSessionNul : '\x00' ∉ activeSessionId) (hIdNul : '\x00' ∉ admissionId)
    (hFree : (t.lookup (promptAdmissionKey activeSessionId admissionId)).isSome = false) :
    ∃ t', register t activeSessionId admissionId uuid = .ok t' := by
  rw [register, List.isEmpty_eq_false_iff.mpr hId, List.isEmpty_eq_false_iff.mpr hSession,
    if_neg Bool.false_ne_true, if_neg (by rwa [List.contains_iff_mem]), if_neg Bool.false_ne_true,
    if_neg (by rwa [List.contains_iff_mem])]
  dsimp only
  rw [hFree, if_neg Bool.false_ne_true]
  exact ⟨_, rfl⟩

theorem rekey_true {source target : Text} (hMoved : (rekey t source target).2 = true)
    (hHere : (t.lookup source).isSome = true) : (target = source ∨ (t.lookup target).isSome = false) ∧
      ∀ key, ((rekey t source target).1.lookup key).isSome = true ↔
        key = target ∨ (key ≠ source ∧ (t.lookup key).isSome = true) := by
  rw [rekey] at hMoved ⊢
  split at hMoved
  · rename_i hSame
    subst hSame
    refine ⟨Or.inl rfl, fun key => ?_⟩
    rw [if_pos rfl]
    constructor
    · intro hSome
      by_cases hKey : key = source
      · exact Or.inl hKey
      · exact Or.inr ⟨hKey, hSome⟩
    · rintro (rfl | ⟨-, hSome⟩)
      · exact hHere
      · exact hSome
  · rename_i hOther
    split at hMoved
    · cases hMoved
    · rename_i hFree
      obtain ⟨admission, hEntry⟩ := Option.isSome_iff_exists.mp hHere
      refine ⟨Or.inr (Bool.eq_false_iff.mpr hFree), fun key => ?_⟩
      rw [if_neg hOther, if_neg hFree, hEntry]
      dsimp only
      by_cases hKey : key = target
      · rw [hKey, AList.lookup_insert]
        exact ⟨fun _ => Or.inl rfl, fun _ => rfl⟩
      · rw [AList.lookup_insert_ne hKey]
        by_cases hSource : key = source
        · rw [hSource, AList.lookup_erase]
          refine ⟨nofun, ?_⟩
          rintro (hEq | ⟨hNe, -⟩)
          · exact absurd hEq hOther
          · exact absurd rfl hNe
        · rw [AList.lookup_erase_ne hSource]
          exact ⟨fun hSome => Or.inr ⟨hSource, hSome⟩, fun h => (h.resolve_left hKey).2⟩

theorem rekey_false {source target : Text} (hStays : (rekey t source target).2 = false) :
    (rekey t source target).1 = t := by
  rw [rekey] at hStays ⊢
  split at hStays
  · cases hStays
  · rename_i hOther
    rw [if_neg hOther]
    split at hStays
    · rename_i hTaken
      rw [if_pos hTaken]
    · rename_i hFree
      rw [if_neg hFree]
      split at hStays
      · cases hStays
      · rfl

theorem soleKey_mem {admissionId : Text} (hSole : soleKeyForAdmissionId t admissionId = some key) :
    (t.lookup key).isSome = true ∧ ('\x00' :: admissionId) <:+ key := by
  rw [soleKeyForAdmissionId] at hSole
  split at hSole
  · cases hSole
  · split at hSole
    · rename_i found hFilter
      cases hSole
      have hMem : key ∈ t.keys.filter fun key => ('\x00' :: admissionId).isSuffixOf key := by
        rw [hFilter]
        exact List.mem_cons_self
      obtain ⟨hKey, hSuffix⟩ := List.mem_filter.mp hMem
      exact ⟨AList.lookup_isSome.mpr hKey, List.isSuffixOf_iff_suffix.mp hSuffix⟩
    · cases hSole

end PrimeAgent.PromptAdmission

/-! ## Routed prompts

The prompts of one connection run side by side, and each stops at its awaits. An event runs one prompt from one stop to
the next, and brings along what the rest of the supervisor answered; a cancellation may come between any two.
-/
namespace PrimeAgent.PromptAdmission

inductive Refusal where
  | shuttingDown
  | updatePreparing

inductive Reply where
  | failure (command error : String) (updateRestarting : Bool)
  | response (success : Bool)
deriving DecidableEq

structure Frame where
  admissionId : Text
  activeSessionId : Option Text
  timeoutMs : Nat

inductive Phase where
  | registered
  | admitted
  | resolving (workerAdmissionId : Text)
  | resident (workerAdmissionId workerId : Text) (reboundTo : Option Text)
  | sent (frame : Frame)
  | unadmitted

structure Prompt where
  andWait : Bool
  activeSessionId : Text
  admissionId : Text
  key : Text
  phase : Phase

def Prompt.typeName (prompt : Prompt) : String :=
  if prompt.andWait then "prompt_and_wait" else "prompt"

def routeTimeoutMs : Nat :=
  30000

def longRouteTimeoutMs : Nat :=
  600000

/-- The session a prompt addresses: a resident, the resident it is bound to now, or none. -/
inductive Resolution where
  | found (workerId : Text)
  | rebound (workerId : Text)
  | unknown (restoreFailure : Option String)

structure Connection where
  table : Table
  prompts : KeyMap Nat Prompt
  replies : List (Nat × Reply)

def Connection.start : Connection where
  table := ∅
  prompts := .empty
  replies := []

namespace Connection

variable (c : Connection)

def move (id : Nat) (prompt : Prompt) : Connection :=
  { c with prompts := c.prompts.insert id prompt }

def answer (id : Nat) (reply : Reply) : Connection :=
  { c with prompts := c.prompts.remove id, replies := c.replies ++ [(id, reply)] }

def fail (id : Nat) (prompt : Prompt) (error : String) : Connection :=
  c.answer id (.failure prompt.typeName error false)

def setTable (table : Table) : Connection :=
  { c with table := table }

def isCancelled (key : Text) : Bool :=
  ((c.table.lookup key).map fun admission => decide (admission.status = .cancelled)).getD false

end Connection

inductive Event where
  | prompt (id : Nat) (andWait : Bool) (activeSessionId admissionId uuid : Text)
  | gate (id : Nat) (refusal : Option Refusal)
  | enter (id : Nat)
  | resolved (id : Nat) (resolution : Resolution)
  | send (id : Nat) (payload : Except String Unit)
  | settled (id : Nat) (response : Except String Bool)
  | generic (id : Nat) (reply : Reply)
  | cancelWaiting (key : Text)
  | workerStatus (key : Text) (status : String)
  | cancelAllWaiting

section Steps

variable (c : Connection) (id : Nat) (prompt : Prompt)

def stepPrompt (andWait : Bool) (activeSessionId admissionId uuid : Text) : Connection :=
  match register c.table activeSessionId admissionId uuid with
  | .error error => c.answer id (.failure "parse" error false)
  | .ok table => (c.setTable table).move id
      ⟨andWait, activeSessionId, admissionId, promptAdmissionKey activeSessionId admissionId, .registered⟩

def stepGate (refusal : Option Refusal) : Connection :=
  match refusal with
  | some .shuttingDown => c.fail id prompt "Supervisor is shutting down"
  | some .updatePreparing => c.answer id (.failure prompt.typeName "Daemon is preparing an update restart" true)
  | none => c.move id { prompt with phase := .admitted }

def stepEnter : Connection :=
  if c.isCancelled prompt.key then c.fail id prompt "Prompt admission was cancelled."
  else match c.table.lookup prompt.key with
    | some admission => c.move id { prompt with phase := .resolving admission.workerAdmissionId }
    | none => c.move id { prompt with phase := .unadmitted }

def stepResolved (workerAdmissionId : Text) (resolution : Resolution) : Connection :=
  match resolution with
  | .found workerId => c.move id { prompt with phase := .resident workerAdmissionId workerId none }
  | .rebound workerId =>
    let rekeyed := promptAdmissionKey workerId prompt.admissionId
    let (table, moved) := rekey c.table prompt.key rekeyed
    (c.setTable table).move id { prompt with
      key := if moved then rekeyed else prompt.key
      phase := .resident workerAdmissionId workerId (some workerId) }
  | .unknown restoreFailure =>
    c.fail id prompt (restoreFailure.getD ("Unknown active session: " ++ String.ofList prompt.activeSessionId))

def stepSend (workerAdmissionId workerId : Text) (reboundTo : Option Text) (payload : Except String Unit) :
    Connection :=
  if c.isCancelled prompt.key then c.fail id prompt "Prompt admission was cancelled."
  else
    let c := c.setTable (update c.table prompt.key fun admission =>
      { admission with workerId := some workerId, workerActiveSessionId := some workerId })
    match payload with
    | .error error => c.fail id prompt error
    | .ok _ => c.move id { prompt with phase := .sent ⟨workerAdmissionId, reboundTo,
        if prompt.andWait then longRouteTimeoutMs else routeTimeoutMs⟩ }

def stepSettled (response : Except String Bool) : Connection :=
  match response with
  | .error error => (c.setTable (c.table.erase prompt.key)).fail id prompt error
  | .ok success =>
    let table := if success then update c.table prompt.key fun admission => { admission with status := .owned } else
      c.table
    (c.setTable (table.erase prompt.key)).answer id (.response success)

def setWorkerStatus (status : String) (admission : Admission) : Admission :=
  if status = "owned" then { admission with status := .owned }
  else if status = "cancelled" then { admission with status := .cancelled }
  else if admission.status = .cancelled then admission
  else { admission with status := .waiting }

end Steps

def step (c : Connection) : Event → Option Connection
  | .prompt id andWait activeSessionId admissionId uuid => match c.prompts.get id with
    | none => some (stepPrompt c id andWait activeSessionId admissionId uuid)
    | some _ => none
  | .gate id refusal => match c.prompts.get id with
    | some prompt => match prompt.phase with
      | .registered => some (stepGate c id prompt refusal)
      | _ => none
    | none => none
  | .enter id => match c.prompts.get id with
    | some prompt => match prompt.phase with
      | .admitted => some (stepEnter c id prompt)
      | _ => none
    | none => none
  | .resolved id resolution => match c.prompts.get id with
    | some prompt => match prompt.phase with
      | .resolving workerAdmissionId => some (stepResolved c id prompt workerAdmissionId resolution)
      | _ => none
    | none => none
  | .send id payload => match c.prompts.get id with
    | some prompt => match prompt.phase with
      | .resident workerAdmissionId workerId reboundTo =>
        some (stepSend c id prompt workerAdmissionId workerId reboundTo payload)
      | _ => none
    | none => none
  | .settled id response => match c.prompts.get id with
    | some prompt => match prompt.phase with
      | .sent _ => some (stepSettled c id prompt response)
      | _ => none
    | none => none
  | .generic id reply => match c.prompts.get id with
    | some prompt => match prompt.phase with
      | .unadmitted => some (c.answer id reply)
      | _ => none
    | none => none
  | .cancelWaiting key => some (c.setTable (update c.table key fun admission =>
      if admission.status = .waiting ∧ admission.workerId = none then { admission with status := .cancelled } else
        admission))
  | .workerStatus key status => some (c.setTable (update c.table key (setWorkerStatus status)))
  | .cancelAllWaiting => some (c.setTable (cancelAllWaiting c.table))

end PrimeAgent.PromptAdmission
