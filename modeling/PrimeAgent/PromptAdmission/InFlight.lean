import PrimeAgent.PromptAdmission.Route

/-! # Admissions in flight

Where every prompt reaches its worker, the table holds exactly the prompts in flight. A prompt that leaves before that
keeps its admission for good.
-/
namespace PrimeAgent.PromptAdmission

structure Matched (c : Connection) : Prop where
  admitted : ∀ id prompt, c.prompts.get id = some prompt → (c.table.lookup prompt.key).isSome = true
  inFlight : ∀ key, (c.table.lookup key).isSome = true → ∃ id prompt, c.prompts.get id = some prompt ∧ prompt.key = key
  alone : ∀ id id' prompt prompt', c.prompts.get id = some prompt → c.prompts.get id' = some prompt' →
    prompt.key = prompt'.key → id = id'

/-- The step lets its prompt go on: no gate refuses it, no check finds it cancelled, its session is found,
and its payload
is built. -/
def Event.Proceeds (c : Connection) : Event → Prop
  | .gate _ refusal => refusal = none
  | .enter id => ∀ prompt, c.prompts.get id = some prompt → c.isCancelled prompt.key = false
  | .resolved _ resolution => ∀ restoreFailure, resolution ≠ .unknown restoreFailure
  | .send id payload => (∀ prompt, c.prompts.get id = some prompt → c.isCancelled prompt.key = false) ∧
      ∀ error, payload ≠ .error error
  | _ => True

section Matching

variable {c : Connection} {id : Nat} {prompt : Prompt} {table : Table}

theorem Matched.setTable (hMatched : Matched c) (hKeys : ∀ key, (table.lookup key).isSome = (c.table.lookup key).isSome) :
    Matched (c.setTable table) := by
  obtain ⟨hAdmitted, hInFlight, hAlone⟩ := hMatched
  refine ⟨fun id prompt hGet => ?_, fun key hSome => hInFlight key ?_, hAlone⟩
  · exact (hKeys prompt.key).trans (hAdmitted id prompt hGet)
  · exact (hKeys key).symm.trans hSome

theorem Matched.move (hMatched : Matched c) {prompt' : Prompt} (hGet : c.prompts.get id = some prompt)
    (hKey : prompt'.key = prompt.key) : Matched (c.move id prompt') := by
  obtain ⟨hAdmitted, hInFlight, hAlone⟩ := hMatched
  have hBack {id' : Nat} {found : Prompt} (hFound : (c.move id prompt').prompts.get id' = some found) :
      ∃ before, c.prompts.get id' = some before ∧ before.key = found.key := by
    rw [Connection.move, KeyMap.get_insert] at hFound
    split at hFound
    · rename_i hId
      cases hFound
      exact ⟨prompt, hId ▸ hGet, hKey.symm⟩
    · exact ⟨found, hFound, rfl⟩
  refine ⟨?_, ?_, ?_⟩
  · intro id' found hFound
    obtain ⟨before, hBefore, hSame⟩ := hBack hFound
    rw [← hSame]
    exact hAdmitted id' before hBefore
  · intro key hSome
    obtain ⟨id', before, hBefore, hBeforeKey⟩ := hInFlight key hSome
    by_cases hId : id' = id
    · subst hId
      rw [hGet] at hBefore
      cases hBefore
      exact ⟨id', prompt', KeyMap.get_insert_self _ _ _, hKey.trans hBeforeKey⟩
    · exact ⟨id', before, (KeyMap.get_insert_of_ne _ hId _).trans hBefore, hBeforeKey⟩
  · intro id' id'' found found' hFound hFound' hSame
    obtain ⟨before, hBefore, hKeys⟩ := hBack hFound
    obtain ⟨before', hBefore', hKeys'⟩ := hBack hFound'
    exact hAlone id' id'' before before' hBefore hBefore' (hKeys.trans (hSame.trans hKeys'.symm))

/-- A prompt takes a key that no other prompt has, and the keys that are gone were its own. -/
theorem Matched.put (hMatched : Matched c) {prompt' : Prompt} {table : Table} {gone : Text → Prop}
    (hHere : ∀ found, c.prompts.get id = some found → gone found.key)
    (hOther : ∀ id' found, id' ≠ id → c.prompts.get id' = some found → ¬ gone found.key ∧ found.key ≠ prompt'.key)
    (hKeys : ∀ key, (table.lookup key).isSome = true ↔
      key = prompt'.key ∨ (¬ gone key ∧ (c.table.lookup key).isSome = true)) :
    Matched ((c.setTable table).move id prompt') := by
  obtain ⟨hAdmitted, hInFlight, hAlone⟩ := hMatched
  refine ⟨?_, ?_, ?_⟩
  · intro id' found hFound
    change ((c.prompts.insert id prompt').get id') = some found at hFound
    rw [KeyMap.get_insert] at hFound
    refine (hKeys found.key).mpr ?_
    split at hFound
    · cases hFound
      exact Or.inl rfl
    · rename_i hId
      exact Or.inr ⟨(hOther id' found hId hFound).1, hAdmitted id' found hFound⟩
  · intro key hSome
    obtain rfl | ⟨hStays, hBefore⟩ := (hKeys key).mp hSome
    · exact ⟨id, prompt', KeyMap.get_insert_self _ _ _, rfl⟩
    · obtain ⟨id', found, hFound, hFoundKey⟩ := hInFlight key hBefore
      have hId : id' ≠ id := by
        rintro rfl
        exact hStays (hFoundKey ▸ hHere found hFound)
      exact ⟨id', found, (KeyMap.get_insert_of_ne _ hId _).trans hFound, hFoundKey⟩
  · intro id' id'' found found' hFound hFound' hSame
    change ((c.prompts.insert id prompt').get id') = some found at hFound
    change ((c.prompts.insert id prompt').get id'') = some found' at hFound'
    rw [KeyMap.get_insert] at hFound hFound'
    split at hFound <;> split at hFound'
    · rename_i hId hId'
      exact hId.trans hId'.symm
    · rename_i hId'
      cases hFound
      exact absurd hSame.symm (hOther id'' found' hId' hFound').2
    · rename_i hId _
      cases hFound'
      exact absurd hSame (hOther id' found hId hFound).2
    · exact hAlone id' id'' found found' hFound hFound' hSame

theorem Matched.moveKey (hMatched : Matched c) {prompt' : Prompt} (hGet : c.prompts.get id = some prompt)
    (hFree : prompt'.key = prompt.key ∨ (c.table.lookup prompt'.key).isSome = false)
    (hKeys : ∀ key, (table.lookup key).isSome = true ↔
      key = prompt'.key ∨ (key ≠ prompt.key ∧ (c.table.lookup key).isSome = true)) :
    Matched ((c.setTable table).move id prompt') := by
  refine @Matched.put c id hMatched prompt' table (· = prompt.key) ?_ ?_ hKeys
  · intro found hFound
    exact congrArg Prompt.key (Option.some.inj (hFound.symm.trans hGet))
  · intro id' found hId hFound
    have hOwn : found.key ≠ prompt.key := fun hSame => hId (hMatched.alone id' id found prompt hFound hGet hSame)
    refine ⟨hOwn, fun hSame => ?_⟩
    obtain hStays | hFree := hFree
    · exact hOwn (hSame.trans hStays)
    · have hSome := hMatched.admitted id' found hFound
      rw [hSame, hFree] at hSome
      cases hSome

theorem Matched.enter (hMatched : Matched c) {table : Table} (hGet : c.prompts.get id = none)
    (hFree : (c.table.lookup prompt.key).isSome = false)
    (hKeys : ∀ key, (table.lookup key).isSome = true ↔ key = prompt.key ∨ (c.table.lookup key).isSome = true) :
    Matched ((c.setTable table).move id prompt) := by
  refine @Matched.put c id hMatched prompt table (fun _ => False) ?_ ?_ (by simpa using hKeys)
  · intro found hFound
    rw [hGet] at hFound
    cases hFound
  · intro id' found hId hFound
    refine ⟨not_false, fun hSame => ?_⟩
    have hSome := hMatched.admitted id' found hFound
    rw [hSame, hFree] at hSome
    cases hSome

theorem Matched.settle (hMatched : Matched c) (hGet : c.prompts.get id = some prompt) (reply : Reply) :
    Matched ((c.setTable (c.table.erase prompt.key)).answer id reply) := by
  obtain ⟨hAdmitted, hInFlight, hAlone⟩ := hMatched
  have hBack {id' : Nat} {found : Prompt} (hFound : (c.prompts.remove id).get id' = some found) :
      id' ≠ id ∧ c.prompts.get id' = some found := by
    rw [KeyMap.get_remove] at hFound
    split at hFound
    · cases hFound
    · rename_i hId
      exact ⟨hId, hFound⟩
  refine ⟨?_, ?_, ?_⟩
  · intro id' found hFound
    obtain ⟨hId, hFound⟩ := hBack hFound
    have hNe : found.key ≠ prompt.key := fun hSame => hId (hAlone id' id found prompt hFound hGet hSame)
    change ((c.table.erase prompt.key).lookup found.key).isSome = true
    rw [AList.lookup_erase_ne hNe]
    exact hAdmitted id' found hFound
  · intro key hSome
    change ((c.table.erase prompt.key).lookup key).isSome = true at hSome
    by_cases hKey : key = prompt.key
    · rw [hKey, AList.lookup_erase] at hSome
      cases hSome
    · rw [AList.lookup_erase_ne hKey] at hSome
      obtain ⟨id', found, hFound, hFoundKey⟩ := hInFlight key hSome
      have hId : id' ≠ id := by
        rintro rfl
        rw [hGet] at hFound
        cases hFound
        exact hKey hFoundKey.symm
      refine ⟨id', found, ?_, hFoundKey⟩
      change (c.prompts.remove id).get id' = some found
      rw [KeyMap.get_remove, if_neg hId, hFound]
  · intro id' id'' found found' hFound hFound' hSame
    exact hAlone id' id'' found found' (hBack hFound).2 (hBack hFound').2 hSame

theorem Matched.answer (hMatched : Matched c) (hGet : c.prompts.get id = none) (reply : Reply) :
    Matched (c.answer id reply) := by
  have hSame : c.prompts.remove id = c.prompts := by
    ext1 id'
    rw [KeyMap.get_remove]
    split
    · rename_i hId
      rw [hId, hGet]
    · rfl
  obtain ⟨hAdmitted, hInFlight, hAlone⟩ := hMatched
  constructor
  · rw [Connection.answer, hSame]
    exact hAdmitted
  · rw [Connection.answer, hSame]
    exact hInFlight
  · rw [Connection.answer, hSame]
    exact hAlone

end Matching

section Steps

variable {c c' : Connection} {id : Nat} {prompt : Prompt} {resolution : Resolution} {payload : Except String Unit}

theorem step_gate {refusal : Option Refusal} (hStep : step c (.gate id refusal) = some c') :
    ∃ prompt, c.prompts.get id = some prompt ∧ prompt.phase = .registered ∧ c' = stepGate c id prompt refusal := by
  rw [step] at hStep
  split at hStep
  · rename_i prompt hGet
    split at hStep
    · rename_i hPhase
      exact ⟨prompt, hGet, hPhase, (Option.some.inj hStep).symm⟩
    · cases hStep
  · cases hStep

theorem step_enter (hStep : step c (.enter id) = some c') :
    ∃ prompt, c.prompts.get id = some prompt ∧ prompt.phase = .admitted ∧ c' = stepEnter c id prompt := by
  rw [step] at hStep
  split at hStep
  · rename_i prompt hGet
    split at hStep
    · rename_i hPhase
      exact ⟨prompt, hGet, hPhase, (Option.some.inj hStep).symm⟩
    · cases hStep
  · cases hStep

theorem step_resolved (hStep : step c (.resolved id resolution) = some c') :
    ∃ prompt workerAdmissionId, c.prompts.get id = some prompt ∧ prompt.phase = .resolving workerAdmissionId ∧
      c' = stepResolved c id prompt workerAdmissionId resolution := by
  rw [step] at hStep
  split at hStep
  · rename_i prompt hGet
    split at hStep
    · rename_i workerAdmissionId hPhase
      exact ⟨prompt, workerAdmissionId, hGet, hPhase, (Option.some.inj hStep).symm⟩
    · cases hStep
  · cases hStep

theorem step_send (hStep : step c (.send id payload) = some c') :
    ∃ prompt workerAdmissionId workerId reboundTo, c.prompts.get id = some prompt ∧
      prompt.phase = .resident workerAdmissionId workerId reboundTo ∧
      c' = stepSend c id prompt workerAdmissionId workerId reboundTo payload := by
  rw [step] at hStep
  split at hStep
  · rename_i prompt hGet
    split at hStep
    · rename_i workerAdmissionId workerId reboundTo hPhase
      exact ⟨prompt, workerAdmissionId, workerId, reboundTo, hGet, hPhase, (Option.some.inj hStep).symm⟩
    · cases hStep
  · cases hStep

theorem step_settled {response : Except String Bool} (hStep : step c (.settled id response) = some c') :
    ∃ prompt, c.prompts.get id = some prompt ∧ c' = stepSettled c id prompt response := by
  rw [step] at hStep
  split at hStep
  · rename_i prompt hGet
    split at hStep
    · exact ⟨prompt, hGet, (Option.some.inj hStep).symm⟩
    · cases hStep
  · cases hStep

theorem step_generic {reply : Reply} (hStep : step c (.generic id reply) = some c') :
    ∃ prompt, c.prompts.get id = some prompt ∧ prompt.phase = .unadmitted ∧ c' = c.answer id reply := by
  rw [step] at hStep
  split at hStep
  · rename_i prompt hGet
    split at hStep
    · rename_i hPhase
      exact ⟨prompt, hGet, hPhase, (Option.some.inj hStep).symm⟩
    · cases hStep
  · cases hStep

section

variable (hMatched : Matched c)

include hMatched

theorem Matched.stepPrompt (hGet : c.prompts.get id = none) (andWait : Bool) (activeSessionId admissionId uuid : Text) :
    Matched (PromptAdmission.stepPrompt c id andWait activeSessionId admissionId uuid) := by
  rw [PromptAdmission.stepPrompt]
  cases hRegister : register c.table activeSessionId admissionId uuid with
  | error error => exact hMatched.answer hGet _
  | ok table =>
    obtain ⟨hFree, hKeys⟩ := register_ok hRegister
    exact hMatched.enter hGet hFree hKeys

theorem Matched.stepEnter (hGet : c.prompts.get id = some prompt) (hGoes : c.isCancelled prompt.key = false) :
    Matched (PromptAdmission.stepEnter c id prompt) := by
  rw [PromptAdmission.stepEnter, hGoes, if_neg Bool.false_ne_true]
  cases c.table.lookup prompt.key with
  | some admission | none => exact hMatched.move hGet rfl

theorem Matched.stepResolved (hGet : c.prompts.get id = some prompt) (workerAdmissionId : Text)
    (hFound : ∀ restoreFailure, resolution ≠ .unknown restoreFailure) :
    Matched (PromptAdmission.stepResolved c id prompt workerAdmissionId resolution) := by
  cases resolution with
  | found workerId => exact hMatched.move hGet rfl
  | unknown restoreFailure => exact absurd rfl (hFound restoreFailure)
  | rebound workerId =>
    have hHere := hMatched.admitted id prompt hGet
    have hTaken := @rekey_true c.table prompt.key (promptAdmissionKey workerId prompt.admissionId)
    have hStays := @rekey_false c.table prompt.key (promptAdmissionKey workerId prompt.admissionId)
    rw [PromptAdmission.stepResolved]
    generalize rekey c.table prompt.key (promptAdmissionKey workerId prompt.admissionId) = rekeyed at hTaken hStays ⊢
    obtain ⟨table, moved⟩ := rekeyed
    cases moved with
    | true =>
      obtain ⟨hFree, hKeys⟩ := hTaken rfl hHere
      exact hMatched.moveKey hGet hFree hKeys
    | false =>
      obtain rfl : table = c.table := hStays rfl
      exact (hMatched.setTable fun _ => rfl).move hGet rfl

theorem Matched.stepSend (hGet : c.prompts.get id = some prompt) (hGoes : c.isCancelled prompt.key = false)
    (workerAdmissionId workerId : Text) (reboundTo : Option Text) (hPayload : ∀ error, payload ≠ .error error) :
    Matched (PromptAdmission.stepSend c id prompt workerAdmissionId workerId reboundTo payload) := by
  rw [PromptAdmission.stepSend, hGoes, if_neg Bool.false_ne_true]
  cases payload with
  | error error => exact absurd rfl (hPayload error)
  | ok _ => exact (hMatched.setTable fun key => isSome_update _).move hGet rfl

theorem Matched.stepSettled (hGet : c.prompts.get id = some prompt) (response : Except String Bool) :
    Matched (PromptAdmission.stepSettled c id prompt response) := by
  cases response with
  | error error => exact hMatched.settle hGet _
  | ok success =>
    rw [PromptAdmission.stepSettled]
    have hOwned : Matched (c.setTable (if success = true then update c.table prompt.key fun admission =>
        { admission with status := .owned } else c.table)) := by
      refine hMatched.setTable fun key => ?_
      split
      · exact isSome_update _
      · rfl
    exact hOwned.settle hGet (.response success)

end

def AllAdmitted (c : Connection) : Prop :=
  ∀ id prompt, c.prompts.get id = some prompt → prompt.phase ≠ .unadmitted

theorem AllAdmitted.move (hAll : AllAdmitted c) (hPhase : prompt.phase ≠ .unadmitted) (table : Table) :
    AllAdmitted ((c.setTable table).move id prompt) := by
  intro id' found hFound
  change ((c.prompts.insert id prompt).get id') = some found at hFound
  rw [KeyMap.get_insert] at hFound
  split at hFound
  · cases hFound
    exact hPhase
  · exact hAll id' found hFound

theorem AllAdmitted.answer (hAll : AllAdmitted c) (table : Table) (reply : Reply) :
    AllAdmitted ((c.setTable table).answer id reply) := by
  intro id' found hFound
  change ((c.prompts.remove id).get id') = some found at hFound
  rw [KeyMap.get_remove] at hFound
  split at hFound
  · cases hFound
  · exact hAll id' found hFound

theorem AllAdmitted.step (hAll : AllAdmitted c) (hMatched : Matched c) {event : Event}
    (hStep : PromptAdmission.step c event = some c') : AllAdmitted c' := by
  cases event with
  | prompt id andWait activeSessionId admissionId uuid =>
    rw [PromptAdmission.step] at hStep
    split at hStep
    · cases hStep
      rw [PromptAdmission.stepPrompt]
      cases register c.table activeSessionId admissionId uuid with
      | error error => exact hAll.answer c.table _
      | ok table => exact hAll.move (fun h => by cases h) table
    · cases hStep
  | gate id refusal =>
    obtain ⟨prompt, -, -, rfl⟩ := step_gate hStep
    obtain _ | _ | _ := refusal
    · exact hAll.move (fun h => by cases h) c.table
    · exact hAll.answer c.table _
    · exact hAll.answer c.table _
  | enter id =>
    obtain ⟨prompt, hGet, -, rfl⟩ := step_enter hStep
    have hHere := hMatched.admitted id prompt hGet
    rw [PromptAdmission.stepEnter]
    split
    · exact hAll.answer c.table _
    · split
      · exact hAll.move (fun h => by cases h) c.table
      · rename_i hNone
        rw [hNone] at hHere
        cases hHere
  | resolved id resolution =>
    obtain ⟨prompt, workerAdmissionId, -, -, rfl⟩ := step_resolved hStep
    cases resolution with
    | found workerId => exact hAll.move (fun h => by cases h) c.table
    | rebound workerId => exact hAll.move (fun h => by cases h) _
    | unknown restoreFailure => exact hAll.answer c.table _
  | send id payload =>
    obtain ⟨prompt, workerAdmissionId, workerId, reboundTo, -, -, rfl⟩ := step_send hStep
    rw [PromptAdmission.stepSend]
    split
    · exact hAll.answer c.table _
    · cases payload with
      | error error => exact hAll.answer _ _
      | ok _ => exact hAll.move (fun h => by cases h) _
  | settled id response =>
    obtain ⟨prompt, -, rfl⟩ := step_settled hStep
    cases response with
    | error error | ok success => exact hAll.answer _ _
  | generic id reply =>
    obtain ⟨prompt, hGet, hPhase, -⟩ := step_generic hStep
    exact absurd hPhase (hAll id prompt hGet)
  | cancelWaiting key | workerStatus key status | cancelAllWaiting =>
    cases hStep
    exact hAll

theorem Matched.step (hMatched : Matched c) (hAll : AllAdmitted c) {event : Event} (hProceeds : event.Proceeds c)
    (hStep : PromptAdmission.step c event = some c') : Matched c' := by
  cases event with
  | prompt id andWait activeSessionId admissionId uuid =>
    rw [PromptAdmission.step] at hStep
    split at hStep
    · rename_i hGet
      cases hStep
      exact hMatched.stepPrompt hGet andWait activeSessionId admissionId uuid
    · cases hStep
  | gate id refusal =>
    obtain ⟨prompt, hGet, -, rfl⟩ := step_gate hStep
    obtain rfl : refusal = none := hProceeds
    exact hMatched.move hGet rfl
  | enter id =>
    obtain ⟨prompt, hGet, -, rfl⟩ := step_enter hStep
    exact hMatched.stepEnter hGet (hProceeds prompt hGet)
  | resolved id resolution =>
    obtain ⟨prompt, workerAdmissionId, hGet, -, rfl⟩ := step_resolved hStep
    exact hMatched.stepResolved hGet workerAdmissionId hProceeds
  | send id payload =>
    obtain ⟨prompt, workerAdmissionId, workerId, reboundTo, hGet, -, rfl⟩ := step_send hStep
    exact hMatched.stepSend hGet (hProceeds.1 prompt hGet) workerAdmissionId workerId reboundTo hProceeds.2
  | settled id response =>
    obtain ⟨prompt, hGet, rfl⟩ := step_settled hStep
    exact hMatched.stepSettled hGet response
  | generic id reply =>
    obtain ⟨prompt, hGet, hPhase, -⟩ := step_generic hStep
    exact absurd hPhase (hAll id prompt hGet)
  | cancelWaiting key | workerStatus key status =>
    cases hStep
    exact hMatched.setTable fun _ => isSome_update _
  | cancelAllWaiting =>
    cases hStep
    exact hMatched.setTable fun _ => isSome_cancelAllWaiting

inductive Run : Connection → Prop where
  | start : Run .start
  | step {c c' : Connection} {event : Event} (run : Run c) (proceeds : event.Proceeds c) (next : step c event
    = some c') :
    Run c'

theorem Run.matched (hRun : Run c) : Matched c ∧ AllAdmitted c := by
  induction hRun with
  | start =>
    refine ⟨⟨nofun, ?_, nofun⟩, nofun⟩
    intro key hSome
    cases hSome
  | step _ hProceeds hStep ih => exact ⟨ih.1.step ih.2 hProceeds hStep, ih.2.step ih.1 hStep⟩

end Steps

/-- The table holds the prompts in flight, so a settled id is free again and no id resolves to a settled prompt. -/
theorem run_holds_inFlight {c : Connection} (hRun : Run c) :
    (∀ key, (c.table.lookup key).isSome = true ↔ ∃ id prompt, c.prompts.get id = some prompt ∧ prompt.key = key) ∧
    (∀ activeSessionId admissionId uuid, activeSessionId ≠ [] → admissionId ≠ [] → '\x00' ∉ activeSessionId →
      '\x00' ∉ admissionId →
      (∀ id prompt, c.prompts.get id = some prompt → prompt.key ≠ promptAdmissionKey activeSessionId admissionId) →
      ∃ table, register c.table activeSessionId admissionId uuid = .ok table) ∧
    ∀ admissionId key, soleKeyForAdmissionId c.table admissionId = some key →
      ∃ id prompt, c.prompts.get id = some prompt ∧ prompt.key = key := by
  have hMatched := hRun.matched.1
  refine ⟨fun key => ⟨hMatched.inFlight key, ?_⟩, ?_, ?_⟩
  · rintro ⟨id, prompt, hGet, rfl⟩
    exact hMatched.admitted id prompt hGet
  · intro activeSessionId admissionId uuid hSession hId hSessionNul hIdNul hSettled
    refine register_free hSession hId hSessionNul hIdNul (Bool.eq_false_iff.mpr fun hSome => ?_)
    obtain ⟨id, prompt, hGet, hKey⟩ := hMatched.inFlight _ hSome
    exact hSettled id prompt hGet hKey
  · intro admissionId key hSole
    exact hMatched.inFlight key (soleKey_mem hSole).1

section Examples

def steps (c : Connection) : List Event → Option Connection
  | [] => some c
  | event :: events => (step c event).bind fun c => steps c events

def unknownSession : List Event :=
  [.prompt 0 false ['s'] ['a'] ['u'], .gate 0 none, .enter 0, .resolved 0 (.unknown none)]

def refusedPrompt : List Event :=
  [.prompt 0 true ['s'] ['a'] ['u'], .gate 0 (some .shuttingDown)]

theorem run_holds_first : ∃ c, step .start (.prompt 0 false ['s'] ['a'] ['u']) = some c ∧
    ∃ id prompt, c.prompts.get id = some prompt ∧ prompt.key = promptAdmissionKey ['s'] ['a'] := by
  have hStep : step .start (.prompt 0 false ['s'] ['a'] ['u']) = some (stepPrompt .start 0 false ['s'] ['a'] ['u']) :=
    rfl
  have hRun : Run (stepPrompt .start 0 false ['s'] ['a'] ['u']) := @Run.step _ _ (.prompt 0 false ['s'] ['a'] ['u'])
    Run.start trivial hStep
  exact ⟨_, hStep, ((run_holds_inFlight hRun).1 (promptAdmissionKey ['s'] ['a'])).mp (by decide)⟩

/-- A prompt to an unknown session is answered, and its admission stays: the id cannot be used again, and still
resolves. -/
theorem unknownSession_stays : ∃ c, steps .start unknownSession = some c ∧
    c.replies = [(0, .failure "prompt" "Unknown active session: s" false)] ∧ c.prompts.get 0 = none ∧
    soleKeyForAdmissionId c.table ['a'] = some (promptAdmissionKey ['s'] ['a']) ∧
    (∀ uuid, register c.table ['s'] ['a'] uuid = .error "Prompt admission id is already in use: a") ∧
    ∃ c', steps .start refusedPrompt = some c' ∧ c'.prompts.get 0 = none ∧
      (c'.table.lookup (promptAdmissionKey ['s'] ['a'])).isSome = true := by
  refine ⟨_, rfl, by decide, rfl, by decide, fun uuid => by rfl, _, rfl, rfl, by decide⟩

end Examples

end PrimeAgent.PromptAdmission
