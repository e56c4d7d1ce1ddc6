import PrimeAgent.Agent.RunHolds

/-! # The invariant through the run lifecycle

From the registration of a run to its end: what it has added to the transcript it found, and what its log looks like.
-/
namespace PrimeAgent.Agent

open Program (Returns)

structure Registered (Orderly : Prop) (w : World) : Prop where
  active : w.phase = .active
  log : Orderly → w.log = []

def Leaves (Orderly : Prop) (Handed : AgentMessage → Prop) (toolExecution : ToolExecutionMode) (w : World) : Prop :=
  w.phase = .waiting ∨ w.phase = .settled ∧ ∃ messages, w.state.messages = w.taken.messages ++ messages ∧
    CallsAnswered Handed (CutOff toolExecution w) messages ∧
    (Orderly → WellFormed w.log ∧ w.log.getLast? = some (.agentEnd messages))

section Lifecycle

variable {C : Condition} {Handed : AgentMessage → Prop} {Orderly : Prop} {taken : AgentContext}
  {sofar : List AgentMessage} {w w' : World} {config : AgentLoopConfig} {inner : AgentInner} {progress : Progress}
  {messages : List AgentMessage} {toolExecution : ToolExecutionMode} {request : Request}

theorem waiting_moves (hWaiting : w.phase = .waiting)
    (hMoves : Relation.ReflTransGen (fun u v => Move u v ∧ C.move u v) w w') : w'.phase = .waiting := by
  induction hMoves with
  | refl => exact hWaiting
  | tail _ hMove ih =>
    cases hMove.1 with
    | abort | stray | configure | others => exact ih

theorem registered_moves (hRules : Rules C Handed Orderly) (hRegistered : Registered Orderly w)
    (hMoves : Relation.ReflTransGen (fun u v => Move u v ∧ C.move u v) w w') : Registered Orderly w' := by
  induction hMoves with
  | refl => exact hRegistered
  | tail _ hMove ih =>
    obtain ⟨hMove, hCondition⟩ := hMove
    cases hMove with
    | abort => exact ⟨ih.active, ih.log⟩
    | stray =>
      refine ⟨ih.active, fun hOrderly => ?_⟩
      obtain hSame | hOpen := hRules.move hOrderly _ _ hCondition
      · exact hSame.trans (ih.log hOrderly)
      · exact absurd (ih.log hOrderly) hOpen.1
    | configure | others => exact ⟨ih.active, ih.log⟩

theorem Holds.disorderly {later : Progress} (hHolds : Holds Orderly taken sofar progress w) (hNot : ¬Orderly) :
    Holds Orderly taken sofar later w :=
  ⟨hHolds.active, hHolds.took, hHolds.messages, fun hOrderly => absurd hOrderly hNot⟩

section

variable (hRules : Rules C Handed Orderly)

include hRules

theorem Ended.moves (hEnded : Ended Orderly Handed toolExecution taken messages w)
    (hMoves : Relation.ReflTransGen (fun u v => Move u v ∧ C.move u v) w w') :
    Ended Orderly Handed toolExecution taken messages w' := by
  induction hMoves with
  | refl => exact hEnded
  | @tail u v _ hMove ih =>
    obtain ⟨hMove, hCondition⟩ := hMove
    have hHolds := ih.holds.move hRules hMove hCondition
    refine ⟨hHolds, fun hOrderly => ?_, ?_⟩
    · obtain hSame | hOpen := hRules.move hOrderly _ _ hCondition
      · rw [hSame]
        exact ih.carried hOrderly
      · -- After `AgentEnd` the run is no longer open.
        exact absurd (List.mem_of_getLast? (ih.carried hOrderly)) (hOpen.2 messages)
    · refine ih.answered.mono (fun _ h => h) (fun _ h => h) fun message hCut => ?_
      refine ⟨?_, aborted_move hMove ih.holds.active hCut.2⟩
      rw [hHolds.took, ← ih.holds.took]
      exact hCut.1

theorem meets_initialPoll {skip : Bool} (hHolds : Holds Orderly taken sofar (.running .inTurn) w)
    (hAnswered : CallsAnswered Handed (fun _ => False) sofar) :
    (pollMessagesUnlessAborted (.initialSteering skip)).Meets (Steps C) w fun
      | .ok messages, w' => Holds Orderly taken sofar (.running .inTurn) w' ∧ ∀ message ∈ messages, Handed message
      | .error _, w' => Failing Orderly Handed taken w' := by
  unfold pollMessagesUnlessAborted
  apply (meets_isAborted hRules hHolds).seq
  rintro aborted w₁ ⟨hAsked, -, -⟩
  split
  · exact ⟨hAsked, by simp⟩
  · apply (meets_race hRules hAsked).seq
    rintro answer w₂ ⟨hPolled, -, hCondition⟩
    cases answer with
    | ok messages => exact ⟨hPolled, hRules.hands _ _ _ hCondition⟩
    | error error =>
      exact ⟨fun hOrderly => hRules.answer hOrderly _ _ _ hCondition, _, _, hPolled, hAnswered⟩

theorem meets_runLoop (hStream : Orderly → config.streamFn = true) (fuel : Nat) {context : AgentContext}
    (hTools : context.tools = taken.tools) (hHolds : Holds Orderly taken sofar (.running .inTurn) w)
    (hAnswered : CallsAnswered Handed (fun _ => False) sofar) :
    (runLoop fuel config context sofar).Meets (Steps C) w
      (RunLeaves Orderly Handed config.toolExecution taken) := by
  unfold runLoop
  have hRun : ∀ {pendingMessages : List AgentMessage} {w : World}, Holds Orderly taken sofar (.running .inTurn) w →
      (∀ message ∈ pendingMessages, Handed message) →
      (runLoopFrom config fuel ⟨context, sofar, pendingMessages, true, none⟩).Meets (Steps C) w
          (RunLeaves Orderly Handed config.toolExecution taken) :=
    fun hHolds hHanded => meets_runLoopFrom hRules hStream fuel ⟨hHolds, hAnswered, hHanded, hTools⟩
  apply (meets_initialPoll hRules hHolds hAnswered).bind
  · exact fun _ _ hPolled => hRun hPolled.1 hPolled.2
  · exact fun _ _ hFailing => hFailing

theorem meets_startAgent {α : Type} {next : Loop α} {Q : Except AgentError α → World → Prop}
    (hHolds : Holds Orderly taken [] .idle w)
    (hNext : ∀ w', Holds Orderly taken [] (.running .inTurn) w' → next.Meets (Steps C) w' Q) :
    (do emit .agentStart; emit .turnStart; next : Loop α).Meets (Steps C) w Q := by
  apply (@meets_emitSilent C Handed Orderly taken _ _ (.running .between) w _ hRules hHolds rfl fun _ => rfl).seq
  rintro _ w₁ ⟨hStarted, -⟩
  apply (@meets_emitSilent C Handed Orderly taken _ _ (.running .inTurn) w₁ _ hRules hStarted rfl fun _ => rfl).seq
  rintro _ w₂ ⟨hTurn, -⟩
  exact hNext w₂ hTurn

theorem meets_runAgentLoop (hStream : Orderly → config.streamFn = true) (fuel : Nat) {prompts : List AgentMessage}
    (hHanded : ∀ message ∈ prompts, Handed message) (hHolds : Holds Orderly taken [] .idle w) :
    (runAgentLoop fuel prompts taken config).Meets (Steps C) w
      (RunLeaves Orderly Handed config.toolExecution taken) := by
  unfold runAgentLoop
  apply meets_startAgent hRules hHolds
  intro w₁ hTurn
  apply (meets_emitMessages hRules prompts hTurn).seq
  intro _ w₂ hPrompted
  exact meets_runLoop hRules hStream fuel rfl hPrompted (callsAnswered_handed hHanded)

theorem meets_runAgentLoopContinue (hStream : Orderly → config.streamFn = true) (fuel : Nat)
    (hHolds : Holds Orderly taken [] .idle w)
    (hLast : Orderly → ∃ last, taken.messages.getLast? = some last ∧ last.role ≠ "assistant") :
    (runAgentLoopContinue fuel taken config).Meets (Steps C) w
      (RunLeaves Orderly Handed config.toolExecution taken) := by
  have hFail : ¬Orderly → Failing Orderly Handed taken w := fun hNot => ⟨hNot, _, _, hHolds, callsAnswered_nil⟩
  unfold runAgentLoopContinue
  split
  next hNone =>
    apply hFail
    intro hOrderly
    obtain ⟨last, hSome, -⟩ := hLast hOrderly
    rw [hNone] at hSome
    cases hSome
  next last hSome =>
    split
    next hRole =>
      apply hFail
      intro hOrderly
      obtain ⟨other, hOther, hNotAssistant⟩ := hLast hOrderly
      rw [hSome] at hOther
      cases hOther
      exact hNotAssistant hRole
    next =>
      apply meets_startAgent hRules hHolds
      intro w₁ hTurn
      exact meets_runLoop hRules hStream fuel rfl hTurn callsAnswered_nil

end

theorem meets_handleRunFailure {toolExecution : ToolExecutionMode} (hRules : Rules C Handed Orderly) (model : Model)
    (error : AgentError) (aborted : Bool) (hFailing : Failing Orderly Handed taken w) :
    (handleRunFailure model error aborted).Meets (Steps C) w (Returns fun _ w' =>
      ∃ messages, Ended Orderly Handed toolExecution taken messages w') := by
  obtain ⟨hNot, sofar, progress, hHolds, hAnswered⟩ := hFailing
  have hAny : ∀ {messages : List AgentMessage} {progress later : Progress} {w : World},
      Holds Orderly taken messages progress w → Holds Orderly taken messages later w :=
    fun hHolds => hHolds.disorderly hNot
  have hRunning : Holds Orderly taken sofar (.running .between) w := hAny hHolds
  unfold handleRunFailure
  have hDiagnostics : (if aborted then pure none else failureDiagnostics error :
      Loop (Option (List AssistantMessageDiagnostic))).Meets (Steps C) w (Returns fun _ w' =>
        Holds Orderly taken sofar (.running .between) w') := by
    split
    · exact hRunning
    · have hQuietly : Quietly (fun _ => True) (failureDiagnostics error) := ⟨trivial, fun _ => trivial⟩
      apply (hRunning.quietly hRules hQuietly).mono
      intro out w' hOut
      cases out with
      | ok _ => exact hOut.2
      | error _ => exact hOut
  apply hDiagnostics.seq
  intro diagnostics w₁ hMade
  apply Program.Meets.seq (meets_quiet hRules hMade (by exact trivial))
  rintro timestamp w₂ ⟨hNow, -⟩
  dsimp only
  rintro ⟨⟩ w₃ ⟨w₂', hMoves, -, rfl⟩
  have hMoved := (hNow.moves hRules hMoves).1
  have hRecorded : Holds Orderly taken sofar (.running .inTurn)
      { w₂' with state := { w₂'.state with errorMessage := some error.text } } :=
    ⟨hMoved.active, hMoved.took, hMoved.messages, fun hOrderly => absurd hOrderly hNot⟩
  apply (meets_emitSilent hRules hRecorded rfl fun _ => next_messageStart _).seq
  rintro _ w₄ ⟨hStarted, -⟩
  apply (@meets_emit C Handed Orderly taken _ _ (.running .between) w₄ _ hRules hStarted
    fun hOrderly => absurd hOrderly hNot).seq
  rintro _ w₅ ⟨hEnded, -⟩
  have hStopped : (failureMessage model error aborted diagnostics timestamp).Stopped := by
    cases aborted
    · exact .inl rfl
    · exact .inr rfl
  rintro ⟨⟩ w₆ ⟨w₅', hMoves, -, rfl⟩
  have hMoved := (hEnded.moves hRules hMoves).1
  have hAll := @callsAnswered_append Handed (fun _ => False) sofar _ hAnswered (callsAnswered_stopped hStopped)
    startsAnew_assistant
  refine ⟨_, ⟨hMoved.active, hMoved.took, hMoved.messages, fun hOrderly => absurd hOrderly hNot⟩,
    fun hOrderly => absurd hOrderly hNot, hAll.mono (fun _ h => h) (fun _ h => h) fun _ h => h.elim⟩

theorem meets_finishRun (hRules : Rules C Handed Orderly) (hEnded : Ended Orderly Handed toolExecution taken messages w) :
    (ask .finishRun).Meets (Steps C) w (Returns fun _ w' => Leaves Orderly Handed toolExecution w') := by
  rintro ⟨⟩ w' ⟨w₁, hMoves, -, rfl⟩
  have hAfter := hEnded.moves hRules hMoves
  refine .inr ⟨rfl, messages, ?_, hAfter.answered, fun hOrderly => ⟨hAfter.holds.log hOrderly, hAfter.carried hOrderly⟩⟩
  change w₁.state.messages = _
  rw [hAfter.holds.messages, hAfter.holds.took]

def ExecutorLeaves (Orderly : Prop) (Handed : AgentMessage → Prop) (toolExecution : ToolExecutionMode) :
    Except AgentError Unit → World → Prop
  | .ok _, w => ∃ taken messages, Ended Orderly Handed toolExecution taken messages w
  | .error _, w => ∃ taken, Failing Orderly Handed taken w

theorem meets_runWithLifecycle {executor : Option Model → Loop Unit} (hRules : Rules C Handed Orderly)
    (hExecutor : ∀ modelOverride w, Registered Orderly w →
      (executor modelOverride).Meets (Steps C) w (ExecutorLeaves Orderly Handed toolExecution))
    (hWaiting : w.phase = .waiting) :
    (runWithLifecycle executor).Meets (Steps C) w fun _ w' => Leaves Orderly Handed toolExecution w' := by
  unfold runWithLifecycle
  rintro modelOverride w₁ ⟨w₀, hMoves, -, rfl⟩
  have hWaiting₁ := waiting_moves hWaiting hMoves
  rintro stateModel w₂ ⟨w₀, hMoves, -, -, rfl⟩
  have hWaiting₂ := waiting_moves hWaiting₁ hMoves
  rintro registered w₃ ⟨w₀, hMoves, -, hRegister⟩
  have hWaiting₃ := waiting_moves hWaiting₂ hMoves
  cases registered with
  | false =>
    cases hRegister
    exact .inl hWaiting₃
  | true =>
    obtain ⟨-, rfl⟩ := hRegister
    have hRegistered : Registered Orderly { w₀ with phase := .active, log := [], aborted := false } :=
      ⟨rfl, fun _ => rfl⟩
    rintro ⟨⟩ w₄ ⟨w₃, hMoves, -, rfl⟩
    have hStarted := registered_moves hRules hRegistered hMoves
    have hAttempt : ((executor modelOverride).attempt : Loop (Except AgentError Unit)).Meets (Steps C)
        { w₃ with state := w₃.state.startRun } (Returns (ExecutorLeaves Orderly Handed toolExecution)) :=
      Program.meets_attempt.mpr (hExecutor modelOverride _ ⟨hStarted.active, hStarted.log⟩)
    apply hAttempt.seq
    intro result w₅ hResult
    cases result with
    | ok _ =>
      obtain ⟨taken, messages, hEnded⟩ := hResult
      apply (meets_finishRun hRules hEnded).mono
      intro out w₆ hOut
      cases out with
      | ok _ => exact hOut
      | error _ => exact hOut.elim
    | error error =>
      obtain ⟨taken, hNot, sofar, progress, hHolds, hAnswered⟩ := hResult
      have hRunning : Holds Orderly taken sofar (.running .between) w₅ := hHolds.disorderly hNot
      apply (meets_isAborted hRules hRunning).seq
      rintro aborted w₆ ⟨hAsked, -, -⟩
      apply (@meets_handleRunFailure C Handed Orderly taken w₆ toolExecution hRules _ error aborted
        ⟨hNot, sofar, _, hAsked, hAnswered⟩).seq
      rintro _ w₇ ⟨messages, hEnded⟩
      apply (meets_finishRun hRules hEnded).seq
      exact fun _ _ hLeaves => hLeaves

theorem runLeaves_discard {p : Loop (List AgentMessage)} {toolExecution : ToolExecutionMode}
    (hRun : p.Meets (Steps C) w (RunLeaves Orderly Handed toolExecution taken)) :
    (do let _ ← p; pure () : Loop Unit).Meets (Steps C) w (ExecutorLeaves Orderly Handed toolExecution) :=
  hRun.bind (fun _ _ hEnded => ⟨taken, hEnded⟩) fun _ _ hFailing => ⟨taken, hFailing⟩

theorem meets_runPromptMessages (hRules : Rules C Handed Orderly) (hStream : Orderly → inner.streamFn = true)
    (fuel : Nat) (hHanded : ∀ message ∈ messages, Handed message) (skip : Bool) (hWaiting : w.phase = .waiting) :
    (runPromptMessages fuel inner messages skip).Meets (Steps C) w fun _ w' =>
      Leaves Orderly Handed inner.toolExecution w' := by
  refine meets_runWithLifecycle hRules (fun modelOverride w hRegistered => ?_) hWaiting
  rintro snapshot w₁ ⟨w₀, hMoves, -, hContext, -, rfl⟩
  have hRegistered := registered_moves hRules hRegistered hMoves
  apply @runLeaves_discard C Handed Orderly w₀.state.snapshot
  rw [hContext]
  apply meets_runAgentLoop hRules hStream fuel hHanded
  exact ⟨hRegistered.active, rfl, (List.append_nil _).symm, fun hOrderly => by rw [hRegistered.log hOrderly]; rfl⟩

theorem meets_runContinuation (hRules : Rules C Handed Orderly) (hStream : Orderly → inner.streamFn = true)
    (fuel : Nat) (hWaiting : w.phase = .waiting) :
    (runContinuation fuel inner).Meets (Steps C) w fun _ w' => Leaves Orderly Handed inner.toolExecution w' := by
  refine meets_runWithLifecycle hRules (fun modelOverride w hRegistered => ?_) hWaiting
  rintro snapshot w₁ ⟨w₀, hMoves, hCondition, hContext, -, rfl⟩
  have hRegistered := registered_moves hRules hRegistered hMoves
  apply @runLeaves_discard C Handed Orderly w₀.state.snapshot
  rw [hContext]
  apply meets_runAgentLoopContinue hRules hStream fuel
  · exact ⟨hRegistered.active, rfl, (List.append_nil _).symm, fun hOrderly => by rw [hRegistered.log hOrderly]; rfl⟩
  · intro hOrderly
    rw [← hContext]
    exact hRules.answer hOrderly _ _ _ hCondition

theorem waiting_quiet {call : Call} {answer : call.Answer} (hWaiting : w.phase = .waiting) (hQuiet : call.IsQuiet)
    (hNoEvent : ∀ event, call ≠ .emit event) (hStep : Steps C w call answer w') : w'.phase = .waiting := by
  obtain ⟨w₁, hMoves, -, hAnswers⟩ := hStep
  have hBefore := waiting_moves hWaiting hMoves
  unfold Answers at hAnswers
  split at hAnswers
  all_goals first
    | exact absurd rfl (hNoEvent _)
    | exact hQuiet.elim
    | (rw [hAnswers]; exact hBefore)
    | (rw [hAnswers.2]; exact hBefore)
    | (obtain ⟨-, held, rfl⟩ := hAnswers; exact hBefore)

/-- What `run_queued_messages` leaves: a run, or the agent as it was. -/
def QueuedLeaves (Orderly : Prop) (Handed : AgentMessage → Prop) (toolExecution : ToolExecutionMode) :
    Except AgentError Bool → World → Prop
  | .ok false, w => w.phase = .waiting
  | _, w => Leaves Orderly Handed toolExecution w

theorem meets_runQueuedMessages (hRules : Rules C Handed Orderly) (hStream : Orderly → inner.streamFn = true)
    (fuel : Nat) (hWaiting : w.phase = .waiting) :
    (runQueuedMessages fuel inner).Meets (Steps C) w (QueuedLeaves Orderly Handed inner.toolExecution) := by
  have hRun : ∀ {messages : List AgentMessage} {skip : Bool} {w : World}, w.phase = .waiting →
      (∀ message ∈ messages, Handed message) → (do
        runPromptMessages fuel inner messages skip
        pure true : Loop Bool).Meets (Steps C) w (QueuedLeaves Orderly Handed inner.toolExecution) :=
    fun hWaiting hHanded =>
      (meets_runPromptMessages hRules hStream fuel hHanded _ hWaiting).bind (fun _ _ h => h) fun _ _ h => h
  rintro steering w₁ hStep
  have hWaiting₁ := waiting_quiet hWaiting (by exact trivial) (by simp) hStep
  obtain ⟨_, -, hCondition, -⟩ := hStep
  change Program.Meets _ (ite _ _ _) _ _
  split
  · exact hRun hWaiting₁ (hRules.hands _ _ _ hCondition)
  · rintro followUps w₂ hStep
    have hWaiting₂ := waiting_quiet hWaiting₁ (by exact trivial) (by simp) hStep
    obtain ⟨_, -, hCondition, -⟩ := hStep
    change Program.Meets _ (ite _ _ _) _ _
    split
    · exact hRun hWaiting₂ (hRules.hands _ _ _ hCondition)
    · exact hWaiting₂

def Request.Hands (Handed : AgentMessage → Prop) : Request → Prop
  | .prompt (.messages messages) => ∀ message ∈ messages, Handed message
  | _ => True

theorem Request.Hands.mono {Handed' : AgentMessage → Prop} (hHands : request.Hands Handed)
    (hMono : ∀ message, Handed message → Handed' message) : request.Hands Handed' := by
  unfold Request.Hands at hHands ⊢
  split
  · exact fun message hMem => hMono _ (hHands message hMem)
  · trivial

theorem meets_prompt (hRules : Rules C Handed Orderly) (hStream : Orderly → inner.streamFn = true)
    (hUser : ∀ message, Handed (.standard (.user message))) (fuel : Nat) {input : AgentPromptInput}
    (hHands : Request.Hands Handed (.prompt input)) (hWaiting : w.phase = .waiting) :
    (prompt fuel inner input).Meets (Steps C) w fun _ w' => Leaves Orderly Handed inner.toolExecution w' := by
  rintro isProcessing w₁ hStep
  have hWaiting₁ := waiting_quiet hWaiting (by exact trivial) (by simp) hStep
  cases isProcessing with
  | true => exact .inl hWaiting₁
  | false =>
    cases input with
    | messages messages => exact meets_runPromptMessages hRules hStream fuel hHands false hWaiting₁
    | text text images =>
      rintro timestamp w₂ hStep
      have hWaiting₂ := waiting_quiet hWaiting₁ (by exact trivial) (by simp) hStep
      refine meets_runPromptMessages hRules hStream fuel ?_ false hWaiting₂
      intro message hMem
      rw [List.mem_singleton.mp hMem]
      exact hUser _

theorem meets_continueRun (hRules : Rules C Handed Orderly) (hStream : Orderly → inner.streamFn = true) (fuel : Nat)
    (hWaiting : w.phase = .waiting) :
    (continueRun fuel inner).Meets (Steps C) w fun _ w' => Leaves Orderly Handed inner.toolExecution w' := by
  rintro isProcessing w₁ hStep
  have hWaiting₁ := waiting_quiet hWaiting (by exact trivial) (by simp) hStep
  have hQueued : ∀ {error : AgentError} {w : World}, w.phase = .waiting → (do
        if ← runQueuedMessages fuel inner then pure () else .fail error : Loop Unit).Meets (Steps C) w fun _ w' =>
      Leaves Orderly Handed inner.toolExecution w' := by
    intro error w hWaiting
    apply (meets_runQueuedMessages hRules hStream fuel hWaiting).bind
    · intro started w' hStarted
      cases started with
      | true => exact hStarted
      | false => exact .inl hStarted
    · exact fun _ _ hLeaves => hLeaves
  cases isProcessing with
  | true => exact .inl hWaiting₁
  | false =>
    rintro lastMessage w₂ hStep
    have hWaiting₂ := waiting_quiet hWaiting₁ (by exact trivial) (by simp) hStep
    cases lastMessage with
    | none => exact hQueued hWaiting₂
    | some last =>
      change Program.Meets _ (ite _ _ _) _ _
      split
      · exact hQueued hWaiting₂
      · have hCustom : (if last.role = "custom" then runQueuedMessages fuel inner else pure false : Loop Bool).Meets
            (Steps C) w₂ (QueuedLeaves Orderly Handed inner.toolExecution) := by
          split
          · exact meets_runQueuedMessages hRules hStream fuel hWaiting₂
          · exact hWaiting₂
        apply hCustom.bind
        · intro queuedRun w₃ hQueuedRun
          cases queuedRun with
          | true => exact hQueuedRun
          | false => exact meets_runContinuation hRules hStream fuel hQueuedRun
        · exact fun _ _ hLeaves => hLeaves

theorem meets_request (hRules : Rules C Handed Orderly) (hStream : Orderly → inner.streamFn = true)
    (hUser : ∀ message, Handed (.standard (.user message))) (fuel : Nat) (hHands : request.Hands Handed)
    (hWaiting : w.phase = .waiting) :
    (request.run fuel inner).Meets (Steps C) w fun _ w' => Leaves Orderly Handed inner.toolExecution w' := by
  cases request with
  | prompt input => exact meets_prompt hRules hStream hUser fuel hHands hWaiting
  | continueRun => exact meets_continueRun hRules hStream fuel hWaiting

end Lifecycle

end PrimeAgent.Agent
