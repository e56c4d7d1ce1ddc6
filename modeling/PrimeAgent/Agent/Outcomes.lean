import PrimeAgent.Agent.LifecycleHolds

/-! # What a run leaves behind

The transcript of a run and the log of its events, for every request, every hook, stream and tool, and whatever others
do meanwhile.
-/
namespace PrimeAgent.Agent

section Outcomes

variable {Handed : AgentMessage → Prop} {inner : AgentInner} {request : Request} {fuel : Nat} {w w' : World}
  {out : Except AgentError Unit}

/-- An orderly run has a well-formed log, and has added to the transcript just what its `AgentEnd` carries. -/
theorem orderlyRun_wellFormed (hStream : inner.streamFn = true) (hWaiting : w.phase = .waiting)
    (hEnds : (request.run fuel inner).Ends (Steps orderly) w out w') (hSettled : w'.phase = .settled) :
    ∃ messages, WellFormed w'.log ∧ w'.log.getLast? = some (.agentEnd messages) ∧
      w'.state.messages = w'.taken.messages ++ messages := by
  have hRequest : request.Hands fun _ => True := by
    unfold Request.Hands
    split <;> simp
  have hLeaves :=
    (meets_request rules_orderly (fun _ => hStream) (fun _ => trivial) fuel hRequest hWaiting).ends hEnds
  obtain hIdle | ⟨-, messages, hMessages, -, hOrderly⟩ := hLeaves
  · rw [hSettled] at hIdle
    cases hIdle
  · exact ⟨messages, (hOrderly trivial).1, (hOrderly trivial).2, hMessages⟩

end Outcomes

/-! ## A scripted run

Nothing fails and nothing is polled; the stream answers each request with one response, every tool with the same
result. The run is aborted, if at all, just before the first call that `abortsAt` says.
-/

structure Script where
  response : AssistantMessage
  result : AgentToolResult
  abortsAt : Call → Bool

def Script.abort (script : Script) (w : World) (call : Call) : World :=
  if w.phase = .active ∧ script.abortsAt call = true then { w with aborted := true } else w

def Script.race (script : Script) : (operation : Operation) → Option operation.Value
  | .ready | .openStream .. => some ()
  | .convertToLlm _ => some []
  | .nextEvent => some (some (.done .stop script.response))
  | .streamResult => some script.response
  | .poll _ => some []
  | _ => none

def Script.reply (script : Script) (w : World) : (call : Call) → Option (call.Answer × World)
  | .emit event => some ((), w.record event)
  | .isAborted => some (w.aborted, w)
  | .throwIfAborted _ => some (w.aborted, w)
  | .race operation =>
    if w.aborted then some (.error .aborted, w) else (script.race operation).map fun value => (.ok value, w)
  | .executeTool _ => some (.returned (if w.aborted then .error .aborted else .ok script.result), w)
  | .awaitUpdates _ => some (if w.aborted then .aborted else .settled, w)
  | .schedule => some ([], w)
  | .now => some (0, w)
  | .isProcessing => some (false, w)
  | .modelOverride => some (none, w)
  | .stateModel => some (w.state.model, w)
  | .register _ =>
    if w.phase = .waiting then some (true, { w with phase := .active, log := [], aborted := false }) else none
  | .startRun => some ((), { w with state := w.state.startRun })
  | .snapshot false => some (⟨w.state.snapshot, w.state.model, false⟩, { w with taken := w.state.snapshot })
  | .recordError text => some ((), { w with state := { w.state with errorMessage := some text } })
  | .finishRun => some ((), { w with state := w.state.finishRun, phase := .settled })
  | _ => none

def Script.answer (script : Script) (w : World) (call : Call) : Option (call.Answer × World) :=
  script.reply (script.abort w call) call

variable {script : Script} {call : Call} {w w' : World} {C : Condition}

theorem Script.race_answers {operation : Operation} {value : operation.Value}
    (hRace : script.race operation = some value) : RaceAnswers false operation (.ok value) := by
  cases operation with
  | poll poll =>
    cases hRace
    cases poll with
    | initialSteering skip =>
      cases skip
      · exact rfl
      · exact ⟨rfl, rfl⟩
    | _ => exact rfl
  | _ => exact rfl

theorem Script.reply_answers {answer : call.Answer} (hReply : script.reply w call = some (answer, w')) :
    Answers w call answer w' := by
  cases call with
  | race operation =>
    change (if w.aborted then some ((Except.error AgentError.aborted : (Call.race operation).Answer), w)
      else (script.race operation).map fun value => (.ok value, w)) = _ at hReply
    split at hReply
    next hAborted =>
      cases hReply
      exact ⟨raceAnswers_error.mpr (by rw [if_pos hAborted]), rfl⟩
    next hRuns =>
      obtain ⟨value, hValue, hSame⟩ := Option.map_eq_some_iff.mp hReply
      cases hSame
      refine ⟨?_, rfl⟩
      rw [Bool.eq_false_iff.mpr hRuns]
      exact Script.race_answers hValue
  | executeTool prepared =>
    cases hReply
    exact ⟨fun hAborted => if_pos hAborted, rfl⟩
  | awaitUpdates prepared =>
    cases hReply
    by_cases hAborted : w.aborted = true
    · rw [if_pos hAborted]
      exact ⟨hAborted, [], by simp⟩
    · rw [if_neg hAborted]
      exact ⟨Bool.eq_false_iff.mpr hAborted, rfl⟩
  | register model =>
    change (if w.phase = .waiting then some (true, { w with phase := .active, log := [], aborted := false })
      else none) = _ at hReply
    split at hReply
    next hWaiting =>
      cases hReply
      exact ⟨hWaiting, rfl⟩
    next => cases hReply
  | emit event => cases hReply; exact rfl
  | isAborted | throwIfAborted site => cases hReply; exact ⟨rfl, rfl⟩
  | schedule | now | isProcessing | modelOverride => cases hReply; exact rfl
  | stateModel => cases hReply; exact ⟨rfl, rfl⟩
  | startRun => cases hReply; exact rfl
  | snapshot continuing =>
    cases continuing
    · cases hReply
      exact ⟨rfl, rfl, rfl⟩
    · cases hReply
  | recordError text | finishRun => cases hReply; exact rfl
  | _ => cases hReply

theorem Script.answer_steps {answer : call.Answer} (hAnswer : script.answer w call = some (answer, w'))
    (hMove : C.move w (script.abort w call)) (hCondition : C.answer (script.abort w call) call answer) :
    Steps C w call answer w' := by
  refine ⟨script.abort w call, ?_, hCondition, Script.reply_answers hAnswer⟩
  by_cases hAborts : w.phase = .active ∧ script.abortsAt call = true
  · apply Relation.ReflTransGen.single
    refine ⟨?_, hMove⟩
    unfold Script.abort
    rw [if_pos hAborts]
    exact .abort hAborts.1
  · rw [show script.abort w call = w from if_neg hAborts]

def Script.answerWhile (script : Script) (calm : World → Bool) (w : World) (call : Call) :
    Option (call.Answer × World) :=
  if calm w then script.answer w call else none

theorem Script.drive_ends {script : Script} {C : Condition} {calm : World → Bool} {p : Loop Unit} {w w' : World}
    {out : Except AgentError Unit} (hMove : ∀ w call, C.move w (script.abort w call))
    (hCondition : ∀ w call answer w', calm w = true → script.answer w call = some (answer, w') →
      C.answer (script.abort w call) call answer)
    (hDrive : p.drive (script.answerWhile calm) w = some (out, w')) : p.Ends (Steps C) w out w' := by
  apply @Program.drive_ends _ _ _ _ _ _ (Steps C) p (script.answerWhile calm) id w w' out _ hDrive
  intro w call answer w' hAnswer
  unfold Script.answerWhile at hAnswer
  split at hAnswer
  next hCalm => exact script.answer_steps hAnswer (hMove w call) (hCondition w call answer w' hCalm hAnswer)
  next => cases hAnswer

/-! ## A sequential batch that is aborted -/

def AgentMessage.IsPlain : AgentMessage → Prop
  | .standard (.assistant _) | .standard (.toolResult _) => False
  | _ => True

def Call.NoFailure : (call : Call) → call.Answer → Prop
  | .race _, .error error => error = .aborted
  | _, _ => True

def unfailing : Condition :=
  { move := fun _ _ => True, answer := fun _ call answer => call.Hands AgentMessage.IsPlain answer ∧ call.NoFailure answer }

def plainTool : AgentTool :=
  { name := "read", description := "", parameters := .null, prepareArguments := fun _ => none
    validateToolArguments := .ok, executionMode := none }

def plainInner (toolExecution : ToolExecutionMode) : AgentInner :=
  { transformContext := false, streamFn := true, getApiKey := false, beforeToolCall := false, afterToolCall := false
    shouldStopAfterTurn := false, shouldStopBeforeTurn := false, toolExecution }

def plainWorld : World :=
  { phase := .waiting
    state :=
      { systemPrompt := "", model := ⟨"m", "a", "p"⟩, tools := [plainTool], messages := [], isStreaming := false
        streamingMessage := none, pendingToolCalls := [], errorMessage := none }
    taken := ⟨"", [], []⟩, log := [], aborted := false, strays := [] }

def plainPrompt : AgentMessage :=
  .standard (.user ⟨.text "go", 0⟩)

def plainResponse (content : List AssistantContent) (stopReason : StopReason) : AssistantMessage :=
  { content, api := "a", provider := "p", model := "m", responseModel := none, responseId := none, diagnostics := none
    usage := Usage.zero, stopReason, stopReasonRaw := none, errorMessage := none, timestamp := 0 }

def cutScript : Script :=
  { response := plainResponse [.toolCall ⟨"1", "read", .object [], none⟩, .toolCall ⟨"2", "read", .object [], none⟩]
      .toolUse
    result := .error ""
    abortsAt := fun
      | .executeTool _ => true
      | _ => false }

def shortScript (aborts : Bool) : Script :=
  { response := plainResponse [] .stop
    result := .error ""
    abortsAt := fun
      | .throwIfAborted .turn => aborts
      | _ => false }

def Script.outcome (script : Script) (calm : World → Bool) (toolExecution : ToolExecutionMode) :
    Option (Except AgentError Unit × World) :=
  (Request.run 3 (plainInner toolExecution) (.prompt (.messages [plainPrompt]))).drive (script.answerWhile calm)
    plainWorld

theorem plainPrompt_hands : (Request.prompt (.messages [plainPrompt])).Hands AgentMessage.IsPlain := by
  intro message hMem
  rw [List.mem_singleton.mp hMem]
  exact trivial

theorem Script.outcome_ends {calm : World → Bool} {toolExecution : ToolExecutionMode} {out : Except AgentError Unit}
    {w' : World} (hMove : ∀ w call, C.move w (script.abort w call))
    (hCondition : ∀ w call answer w', calm w = true → script.answer w call = some (answer, w') →
      C.answer (script.abort w call) call answer) (hOutcome : script.outcome calm toolExecution = some (out, w')) :
    ((Request.prompt (.messages [plainPrompt])).run 3 (plainInner toolExecution)).Ends (Steps C) plainWorld out w' :=
  Script.drive_ends hMove hCondition hOutcome

theorem Script.answer_unfailing {answer : call.Answer} (hAnswer : script.answer w call = some (answer, w')) :
    call.Hands AgentMessage.IsPlain answer ∧ call.NoFailure answer := by
  unfold Script.answer at hAnswer
  cases call with
  | race operation =>
    change (if (script.abort w (.race operation)).aborted
      then some ((Except.error AgentError.aborted : (Call.race operation).Answer), script.abort w (.race operation))
      else (script.race operation).map fun value => (.ok value, script.abort w (.race operation))) = _ at hAnswer
    split at hAnswer
    next =>
      cases hAnswer
      refine ⟨?_, rfl⟩
      cases operation <;> exact trivial
    next =>
      obtain ⟨value, hValue, hSame⟩ := Option.map_eq_some_iff.mp hAnswer
      cases hSame
      refine ⟨?_, trivial⟩
      cases operation with
      | poll poll =>
        cases hValue
        intro message hMem
        cases hMem
      | getContinuationMessages _ => cases hValue
      | _ => exact trivial
  | drainSteering | drainFollowUp => cases hAnswer
  | _ => exact ⟨trivial, trivial⟩

set_option maxRecDepth 4000 in
theorem cutScript_outcome : ∃ out w', cutScript.outcome (fun _ => true) .sequential = some (out, w') ∧
    w'.phase = .settled ∧ w'.taken.messages = [] ∧ w'.state.messages.length = 3 ∧
    w'.state.messages[1]? = some (.assistant cutScript.response) := by
  have hRun : (cutScript.outcome (fun _ => true) .sequential).map (fun ended => decide (ended.2.phase = .settled ∧
      ended.2.taken.messages = [] ∧ ended.2.state.messages.length = 3 ∧
      ended.2.state.messages[1]? = some (.assistant cutScript.response))) = some true := by
    decide +kernel
  obtain ⟨⟨out, w'⟩, hOutcome, hShape⟩ := Option.map_eq_some_iff.mp hRun
  exact ⟨out, w', hOutcome, of_decide_eq_true hShape⟩

theorem Script.answer_orderly {answer : call.Answer} (hCalm : w.aborted = false)
    (hAnswer : (shortScript false).answer w call = some (answer, w')) :
    OrderlyAnswer ((shortScript false).abort w call) call answer := by
  have hAbort : (shortScript false).abort w call = w := by
    apply if_neg
    rintro ⟨-, hAborts⟩
    cases call with
    | throwIfAborted site => cases site <;> cases hAborts
    | _ => cases hAborts
  unfold Script.answer at hAnswer
  rw [hAbort] at hAnswer ⊢
  cases call with
  | throwIfAborted site =>
    cases hAnswer
    cases site
    · exact hCalm
    all_goals exact trivial
  | race operation =>
    change (if w.aborted then some ((Except.error AgentError.aborted : (Call.race operation).Answer), w)
      else ((shortScript false).race operation).map fun value => (.ok value, w)) = _ at hAnswer
    rw [hCalm] at hAnswer
    obtain ⟨value, hValue, hSame⟩ := Option.map_eq_some_iff.mp hAnswer
    cases hSame
    cases operation with
    | nextEvent => cases hValue; exact trivial
    | poll poll => cases poll <;> exact trivial
    | _ => exact trivial
  | snapshot continuing =>
    cases continuing
    · exact trivial
    · cases hAnswer
  | _ => exact trivial

set_option maxRecDepth 4000 in
theorem shortScript_outcome : ∃ out w', (shortScript false).outcome (fun w => !w.aborted) .parallel = some (out, w') ∧
    w'.phase = .settled := by
  have hRun : ((shortScript false).outcome (fun w => !w.aborted) .parallel).map
      (fun ended => decide (ended.2.phase = .settled)) = some true := by
    decide +kernel
  obtain ⟨⟨out, w'⟩, hOutcome, hSettled⟩ := Option.map_eq_some_iff.mp hRun
  exact ⟨out, w', hOutcome, of_decide_eq_true hSettled⟩

theorem orderlyRun_wellFormed_short : ∃ out w',
    (shortScript false).outcome (fun w => !w.aborted) .parallel = some (out, w') ∧
    ∃ messages, WellFormed w'.log ∧ w'.log.getLast? = some (.agentEnd messages) ∧
      w'.state.messages = w'.taken.messages ++ messages := by
  obtain ⟨out, w', hOutcome, hSettled⟩ := shortScript_outcome
  have hMove : ∀ w call, orderly.move w ((shortScript false).abort w call) := by
    intro w call
    left
    unfold Script.abort
    split <;> rfl
  exact ⟨out, w', hOutcome, orderlyRun_wellFormed rfl rfl
    (Script.outcome_ends hMove (fun w call answer w' hCalm hAnswer =>
      Script.answer_orderly (by simpa using hCalm) hAnswer) hOutcome) hSettled⟩

set_option maxRecDepth 4000 in
/-- The failure handler closes no turn, and its `AgentEnd` leaves out the prompt. -/
theorem abortedRun_malformed : ¬∀ (inner : AgentInner) (request : Request) (fuel : Nat) (w w' : World)
    (out : Except AgentError Unit), w.phase = .waiting → inner.streamFn = true →
    (request.run fuel inner).Ends (Steps unfailing) w out w' → w'.phase = .settled →
    ∃ messages, WellFormed w'.log ∧ w'.log.getLast? = some (.agentEnd messages) ∧
      w'.state.messages = w'.taken.messages ++ messages := by
  intro hEvery
  have hRun : ((shortScript true).outcome (fun _ => true) .parallel).map
      (fun ended => decide (ended.2.phase = .settled ∧ ¬WellFormed ended.2.log)) = some true := by
    decide +kernel
  obtain ⟨⟨out, w'⟩, hOutcome, hShape⟩ := Option.map_eq_some_iff.mp hRun
  obtain ⟨hSettled, hMalformed⟩ := of_decide_eq_true hShape
  have hEnds := Script.outcome_ends (C := unfailing) (fun _ _ => trivial)
    (fun _ _ _ _ _ hAnswer => Script.answer_unfailing hAnswer) hOutcome
  obtain ⟨-, hWellFormed, -⟩ := hEvery _ _ _ _ _ _ rfl rfl hEnds hSettled
  exact hMalformed hWellFormed

end PrimeAgent.Agent
