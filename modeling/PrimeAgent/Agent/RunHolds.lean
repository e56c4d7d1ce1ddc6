import PrimeAgent.Agent.Answered
import PrimeAgent.Agent.ResponseHolds
import PrimeAgent.Agent.ToolsHolds

/-! # The invariant through the turn loop

Between two turns every response recorded so far has been answered. A run that ends regularly has recorded what its
`AgentEnd` carries; one that fails was not orderly.
-/
namespace PrimeAgent.Agent

open Program (Returns)

def CutOff (toolExecution : ToolExecutionMode) (w : World) (message : AssistantMessage) : Prop :=
  runsSequentially toolExecution w.taken.tools message.toolCalls = true ∧ w.aborted = true

/-- A run that has ended with `AgentEnd`. -/
structure Ended (Orderly : Prop) (Handed : AgentMessage → Prop) (toolExecution : ToolExecutionMode)
    (taken : AgentContext) (messages : List AgentMessage) (w : World) : Prop where
  holds : Holds Orderly taken messages .ended w
  carried : Orderly → w.log.getLast? = some (.agentEnd messages)
  answered : CallsAnswered Handed (CutOff toolExecution w) messages

def Failing (Orderly : Prop) (Handed : AgentMessage → Prop) (taken : AgentContext) (w : World) : Prop :=
  ¬Orderly ∧ ∃ sofar progress, Holds Orderly taken sofar progress w ∧ CallsAnswered Handed (fun _ => False) sofar

structure LoopHolds (Orderly : Prop) (Handed : AgentMessage → Prop) (taken : AgentContext) (st : LoopState)
    (w : World) : Prop where
  holds : Holds Orderly taken st.newMessages (.running (if st.firstTurn then .inTurn else .between)) w
  answered : CallsAnswered Handed (fun _ => False) st.newMessages
  pending : ∀ message ∈ st.pendingMessages, Handed message
  tools : st.currentContext.tools = taken.tools

/-- What a hook or a poll keeps: its value is as `P` says, and an error it ends with is excused. -/
def Polled {α : Type} (Orderly : Prop) (taken : AgentContext) (sofar : List AgentMessage) (now : Open) (P : α → Prop) :
    Except AgentError α → World → Prop
  | .ok value, w => Holds Orderly taken sofar (.running now) w ∧ P value
  | .error error, w => Holds Orderly taken sofar (.running now) w ∧ Excused Orderly error w

def Settled {α : Type} (Orderly : Prop) (taken : AgentContext) (sofar : List AgentMessage) (now : Open)
    (P : α → Prop) : Except AgentError (PostTurnResult α) → World → Prop
  | .ok (.completed value), w => Holds Orderly taken sofar (.running now) w ∧ P value
  | .ok .aborted, w => Holds Orderly taken sofar (.running now) w
  | .error _, w => Holds Orderly taken sofar (.running now) w ∧ ¬Orderly

section Loop

variable {C : Condition} {Handed : AgentMessage → Prop} {Orderly : Prop} {taken : AgentContext}
  {sofar : List AgentMessage} {w : World} {config : AgentLoopConfig} {st : LoopState} {now : Open} {α : Type}
  {toolExecution : ToolExecutionMode} {hasMoreToolCalls : Bool}

theorem meets_emitMessages (hRules : Rules C Handed Orderly) (messages : List AgentMessage)
    (hHolds : Holds Orderly taken sofar (.running .inTurn) w) :
    (emitMessages messages).Meets (Steps C) w (Returns fun _ w' =>
      Holds Orderly taken (sofar ++ messages) (.running .inTurn) w') := by
  induction messages generalizing sofar w with
  | nil => exact sofar.append_nil.symm ▸ hHolds
  | cons message rest ih =>
    unfold emitMessages
    apply (meets_emitSilent hRules hHolds rfl fun _ => next_messageStart message).seq
    rintro _ w₁ ⟨hStarted, -⟩
    apply (@meets_emit C Handed Orderly taken sofar _ (.running .inTurn) w₁ _ hRules hStarted fun _ => rfl).seq
    rintro _ w₂ ⟨hRecorded, -⟩
    rw [show sofar ++ message :: rest = (sofar ++ [message]) ++ rest by simp]
    exact ih hRecorded

theorem meets_endAgent (hRules : Rules C Handed Orderly) (hHolds : Holds Orderly taken sofar (.running .between) w)
    (hAnswered : CallsAnswered Handed (CutOff toolExecution w) sofar) :
    (endAgent sofar).Meets (Steps C) w (Returns fun _ w' =>
      Ended Orderly Handed toolExecution taken sofar w') := by
  rintro ⟨⟩ w' ⟨w₁, hMoves, -, rfl⟩
  obtain ⟨hBefore, hAborted⟩ := hHolds.moves hRules hMoves
  have hEnded := @Holds.record Orderly taken sofar _ .ended w₁ (.agentEnd sofar) hBefore fun _ => rfl
  rw [show AgentEvent.recorded (.agentEnd sofar) = [] from rfl, List.append_nil] at hEnded
  refine ⟨hEnded, fun _ => List.getLast?_concat, ?_⟩
  refine hAnswered.mono (fun _ h => h) (fun _ h => h) fun message hCut => ?_
  refine ⟨?_, hAborted hCut.2⟩
  rw [hEnded.took, ← hHolds.took]
  exact hCut.1

theorem meets_settlePostTurn {P : α → Prop} {operation : Loop α} (hRules : Rules C Handed Orderly)
    (hOperation : operation.Meets (Steps C) w (Polled Orderly taken sofar now P)) :
    (settlePostTurn operation).Meets (Steps C) w (Settled Orderly taken sofar now P) := by
  unfold settlePostTurn
  have hAttempt : (operation.attempt : Loop (Except AgentError α)).Meets (Steps C) w
      (Returns (Polled Orderly taken sofar now P)) := Program.meets_attempt.mpr hOperation
  apply hAttempt.seq
  intro result w₁ hResult
  cases result with
  | ok value => exact hResult
  | error error =>
    obtain ⟨hFailed, hExcused⟩ := hResult
    apply (meets_isAborted hRules hFailed).seq
    rintro aborted w₂ ⟨hAsked, hStill, -⟩
    by_cases hAbort : (aborted && error.isAbortError) = true
    · rw [if_pos hAbort]
      exact hAsked
    · rw [if_neg hAbort]
      refine ⟨hAsked, fun hOrderly => ?_⟩
      obtain ⟨rfl, hWas⟩ := hExcused hOrderly
      exact hAbort (by rw [hStill hWas]; rfl)

theorem meets_raceHook {operation : Operation} {installed : Bool} {absent : operation.Value}
    {P : operation.Value → Prop} (hRules : Rules C Handed Orderly)
    (hHolds : Holds Orderly taken sofar (.running now) w) (hPropagates : operation.Propagates) (hAbsent : P absent)
    (hAnswer : ∀ w value, C.answer w (.race operation) (.ok value) → P value) :
    (raceHook installed (raceWithAbort operation) absent).Meets (Steps C) w (Polled Orderly taken sofar now P) := by
  unfold raceHook
  split
  · apply (meets_raceWithAbort hRules hHolds (.inl hPropagates)).mono
    intro out w' hOut
    cases out with
    | ok value => exact ⟨hOut.1, hAnswer w' value hOut.2⟩
    | error error => exact hOut
  · apply Program.Meets.bind (meets_raceWithAbort hRules hHolds (.inr id))
    · exact fun _ _ hReady => ⟨hReady.1, hAbsent⟩
    · exact fun _ _ hError => hError

theorem meets_poll (hRules : Rules C Handed Orderly) (poll : Poll)
    (hHolds : Holds Orderly taken sofar (.running now) w) :
    (pollMessagesUnlessAborted poll).Meets (Steps C) w
      (Polled Orderly taken sofar now fun messages => ∀ message ∈ messages, Handed message) := by
  unfold pollMessagesUnlessAborted
  apply (meets_isAborted hRules hHolds).seq
  rintro aborted w₁ ⟨hAsked, -, -⟩
  split
  · exact ⟨hAsked, by simp⟩
  · apply (meets_raceWithAbort hRules hAsked (.inr id)).mono
    intro out w₂ hOut
    cases out with
    | ok messages => exact ⟨hOut.1, hRules.hands _ _ _ hOut.2⟩
    | error error => exact hOut

theorem meets_shouldStopBeforeTurn (hRules : Rules C Handed Orderly)
    (hHolds : Holds Orderly taken sofar (.running now) w) :
    (shouldStopBeforeTurn config st).Meets (Steps C) w (Returns fun _ w' =>
      Holds Orderly taken sofar (.running now) w') := by
  unfold shouldStopBeforeTurn
  split
  · apply Program.Meets.mono (meets_quiet hRules hHolds (by exact trivial))
    intro out w' hOut
    cases out with
    | ok _ => exact hOut.1
    | error _ => exact hOut
  · exact hHolds

/-! ## One turn -/

def TurnLeaves (Orderly : Prop) (Handed : AgentMessage → Prop) (toolExecution : ToolExecutionMode)
    (taken : AgentContext) : Except AgentError Turn → World → Prop
  | .ok (.ended _), w => ∃ messages, Ended Orderly Handed toolExecution taken messages w
  | .ok (.next st _), w => LoopHolds Orderly Handed taken st w ∧ st.firstTurn = false
  | .error _, w => Failing Orderly Handed taken w

section

variable (hRules : Rules C Handed Orderly)

include hRules

theorem meets_endTurn (hHolds : Holds Orderly taken sofar (.running .between) w)
    (hAnswered : CallsAnswered Handed (CutOff toolExecution w) sofar) :
    (endTurn sofar).Meets (Steps C) w (TurnLeaves Orderly Handed toolExecution taken) := by
  apply (meets_endAgent hRules hHolds hAnswered).seq
  intro _ w₁ hEnded
  exact ⟨sofar, hEnded⟩

theorem meets_throwIfAborted {progress : Progress} (hHolds : Holds Orderly taken sofar progress w) :
    (throwIfAborted .turn).Meets (Steps C) w fun
      | .ok _, w' => Holds Orderly taken sofar progress w'
      | .error _, w' => Holds Orderly taken sofar progress w' ∧ ¬Orderly := by
  rintro answer w' ⟨w₁, hMoves, hCondition, hAnswer, rfl⟩
  have hAfter := (hHolds.moves hRules hMoves).1
  cases answer with
  | false => exact hAfter
  | true => exact ⟨hAfter, fun hOrderly => Bool.noConfusion (hRules.answer hOrderly _ _ _ hCondition)⟩

theorem meets_beginTurn (hLoop : LoopHolds Orderly Handed taken st w) :
    (beginTurn st).Meets (Steps C) w fun
      | .ok st', w' => Holds Orderly taken st'.newMessages (.running .inTurn) w' ∧
          CallsAnswered Handed (fun _ => False) st'.newMessages ∧ st'.pendingMessages = [] ∧
          st'.currentContext.tools = taken.tools ∧ st'.firstTurn = false
      | .error _, w' => Failing Orderly Handed taken w' := by
  unfold beginTurn
  apply (meets_throwIfAborted hRules hLoop.holds).bind
  · intro _ w₁ hChecked
    have hStart : (if st.firstTurn then pure () else emit .turnStart : Loop Unit).Meets (Steps C) w₁
        (Returns fun _ w' => Holds Orderly taken st.newMessages (.running .inTurn) w') := by
      split
      next hFirst =>
        rw [hFirst] at hChecked
        exact hChecked
      next hLater =>
        rw [if_neg hLater] at hChecked
        apply (@meets_emitSilent C Handed Orderly taken _ _ (.running .inTurn) w₁ _ hRules hChecked rfl
          fun _ => rfl).mono
        intro out w' hOut
        cases out with
        | ok _ => exact hOut.1
        | error _ => exact hOut
    apply hStart.seq
    intro _ w₂ hStarted
    apply (meets_emitMessages hRules st.pendingMessages hStarted).seq
    intro _ w₃ hEmitted
    refine ⟨hEmitted, ?_, rfl, hLoop.tools, rfl⟩
    exact callsAnswered_append hLoop.answered (callsAnswered_handed hLoop.pending) (startsAnew_handed hLoop.pending)
  · exact fun _ w₁ hThrown => ⟨hThrown.2, _, _, hThrown.1, hLoop.answered⟩

theorem meets_settleTurn {turn : ShouldStopAfterTurnContext}
    (hHolds : Holds Orderly taken st.newMessages (.running .between) w)
    (hAnswered : CallsAnswered Handed (fun _ => False) st.newMessages) (hTools : st.currentContext.tools = taken.tools)
    (hLater : st.firstTurn = false) :
    (settleTurn config st turn hasMoreToolCalls).Meets (Steps C) w
      (TurnLeaves Orderly Handed config.toolExecution taken) := by
  have hEnd : ∀ {w : World}, Holds Orderly taken st.newMessages (.running .between) w →
      (endTurn st.newMessages).Meets (Steps C) w (TurnLeaves Orderly Handed config.toolExecution taken) :=
    fun hHolds => meets_endTurn hRules hHolds
      (hAnswered.mono (fun _ h => h) (fun _ h => h) fun _ h => h.elim)
  have hFail : ∀ {w : World}, Holds Orderly taken st.newMessages (.running .between) w ∧ ¬Orderly →
      Failing Orderly Handed taken w := fun hFailed => ⟨hFailed.2, _, _, hFailed.1, hAnswered⟩
  unfold settleTurn
  have hHook := @meets_settlePostTurn C Handed Orderly taken st.newMessages w .between Bool (fun _ => True) _ hRules
    (@meets_raceHook C Handed Orderly taken st.newMessages w .between (.shouldStopAfterTurn turn)
      config.shouldStopAfterTurn false _ hRules hHolds trivial trivial fun _ _ _ => trivial)
  apply hHook.bind
  · intro stop w₁ hStop
    cases stop with
    | aborted => exact hEnd hStop
    | completed stop =>
      cases stop with
      | true => exact hEnd hStop.1
      | false =>
        apply (meets_shouldStopBeforeTurn hRules hStop.1).seq
        intro stop w₂ hHook
        split
        · exact hEnd hHook
        · have hPoll := meets_settlePostTurn hRules (meets_poll hRules .steering hHook)
          apply hPoll.bind
          · intro result w₃ hResult
            cases result with
            | aborted => exact hEnd hResult
            | completed messages =>
              obtain ⟨hPolled, hHanded⟩ := hResult
              have hStop : (if messages.isEmpty then shouldStopBeforeTurn config st else pure false : Loop Bool).Meets
                  (Steps C) w₃ (Returns fun _ w' => Holds Orderly taken st.newMessages (.running .between) w') := by
                split
                · exact meets_shouldStopBeforeTurn hRules hPolled
                · exact hPolled
              apply hStop.seq
              intro stop w₄ hAfter
              split
              · exact hEnd hAfter
              · refine ⟨⟨?_, hAnswered, hHanded, hTools⟩, hLater⟩
                rw [hLater]
                exact hAfter
          · exact fun _ _ hFailed => hFail hFailed
  · exact fun _ _ hFailed => hFail hFailed

theorem meets_runToolCalls {message : AssistantMessage} (fuel : Nat)
    (hHolds : Holds Orderly taken sofar (.running .inTurn) w) :
    (runToolCalls fuel config st message).Meets (Steps C) w (Returns fun outcome w' =>
      BatchHolds Orderly taken sofar message.toolCalls
        (runsSequentially config.toolExecution st.currentContext.tools message.toolCalls) outcome.1 w') := by
  unfold runToolCalls
  split
  next hNone =>
    have hEmpty := List.isEmpty_iff.mp hNone
    refine ⟨by simpa using hHolds, ?_, .inl ?_⟩ <;> simp [hEmpty]
  next =>
    apply (meets_executeToolCalls hRules fuel hHolds).seq
    exact fun _ _ hBatch => hBatch

theorem meets_runTurn (hStream : Orderly → config.streamFn = true) (fuel : Nat)
    (hLoop : LoopHolds Orderly Handed taken st w) :
    (runTurn fuel config st).Meets (Steps C) w (TurnLeaves Orderly Handed config.toolExecution taken) := by
  unfold runTurn
  apply (meets_beginTurn hRules hLoop).bind
  · rintro st w₁ ⟨hBegun, hAnswered, hPending, hTools, hLater⟩
    apply (meets_streamAssistantResponse hRules hStream fuel hBegun).bind
    · rintro ⟨context, message⟩ w₂ ⟨hStreamed, hSame⟩
      have hNext : Orderly → ∀ results, (Progress.running .inTurn).next (.turnEnd (.assistant message) results) =
          some (.running .between) := fun _ _ => rfl
      dsimp only
      split
      next hStopped =>
        apply (meets_emitSilent hRules hStreamed rfl fun h => hNext h []).seq
        rintro _ w₃ ⟨hEnded, -⟩
        exact meets_endTurn hRules hEnded
          (callsAnswered_append hAnswered (callsAnswered_stopped hStopped) startsAnew_assistant)
      next hGoesOn =>
        apply (meets_runToolCalls hRules fuel hStreamed).seq
        rintro ⟨toolResults, hasMoreToolCalls⟩ w₃ hBatch
        apply (meets_emitSilent hRules hBatch.holds rfl fun h => hNext h toolResults).seq
        rintro _ w₄ ⟨hEnded, hStill⟩
        have hResponse : ∀ Cut : AssistantMessage → Prop,
            (toolResults.map (·.toolCallId) = message.toolCalls.map (·.id) ∨ Cut message) →
            CallsAnswered Handed Cut (st.newMessages ++ [.assistant message] ++ toolResults.map .toolResult) := by
          intro Cut hComplete
          rw [List.append_assoc]
          exact callsAnswered_append hAnswered (callsAnswered_response hBatch.ordered hComplete) startsAnew_assistant
        apply (meets_isAborted hRules hEnded).seq
        rintro aborted w₅ ⟨hAsked, hSeen, hAborted⟩
        split
        next hStop =>
          apply meets_endTurn hRules hAsked
          apply hResponse
          refine hBatch.complete.imp id fun hCut => ⟨?_, hAborted.symm.trans hStop⟩
          rw [hAsked.took, ← hTools, ← hSame]
          exact hCut.1
        next hGoOn =>
          have hComplete := hBatch.complete.resolve_right fun hCut => hGoOn (hSeen (hStill hCut.2))
          exact meets_settleTurn hRules hAsked (hResponse _ (.inl hComplete)) (hSame.trans hTools) hLater
    · rintro _ w₂ ⟨⟨now, hFailed⟩, hNot⟩
      exact ⟨hNot, _, _, hFailed, hAnswered⟩
  · exact fun _ _ hFailing => hFailing

end

/-! ## The loops -/

theorem meets_runTurns (hRules : Rules C Handed Orderly) (hStream : Orderly → config.streamFn = true) (fuel : Nat)
    (hLoop : LoopHolds Orderly Handed taken st w) (hTurn : hasMoreToolCalls = true ∨ st.firstTurn = false) :
    (runTurns config fuel st hasMoreToolCalls).Meets (Steps C) w
      (TurnLeaves Orderly Handed config.toolExecution taken) := by
  induction fuel generalizing st hasMoreToolCalls w with
  | zero => trivial
  | succ fuel ih =>
    unfold runTurns
    split
    next =>
      apply (meets_runTurn hRules hStream fuel hLoop).bind
      · intro turn w₁ hTurn
        cases turn with
        | ended newMessages => exact hTurn
        | next st hasMoreToolCalls => exact ih hTurn.1 (.inr hTurn.2)
      · exact fun _ _ hFailing => hFailing
    next hOver =>
      refine ⟨hLoop, hTurn.resolve_left fun hMore => hOver ?_⟩
      rw [hMore]
      rfl

theorem meets_pollForMore (hRules : Rules C Handed Orderly)
    (hHolds : Holds Orderly taken sofar (.running .between) w) :
    (pollForMore config st).Meets (Steps C) w fun
      | .ok messages, w' => Holds Orderly taken sofar (.running .between) w' ∧ ∀ message ∈ messages, Handed message
      | .error _, w' => Holds Orderly taken sofar (.running .between) w' ∧ ¬Orderly := by
  unfold pollForMore
  apply (meets_shouldStopBeforeTurn hRules hHolds).seq
  intro stop w₁ hAsked
  split
  · exact ⟨hAsked, by simp⟩
  · apply (meets_settlePostTurn hRules (meets_poll hRules .followUp hAsked)).bind
    · intro result w₂ hResult
      cases result with
      | aborted => exact ⟨hResult, by simp⟩
      | completed followUps =>
        dsimp only
        split
        · exact hResult
        · apply (meets_shouldStopBeforeTurn hRules hResult.1).seq
          intro stop w₃ hAsked
          split
          · exact ⟨hAsked, by simp⟩
          · have hPoll : (pollContinuation config st).Meets (Steps C) w₃
                (Settled Orderly taken sofar .between fun messages => ∀ message ∈ messages, Handed message) := by
              unfold pollContinuation
              split
              · exact ⟨hAsked, by simp⟩
              next turn _ =>
                apply meets_settlePostTurn hRules
                apply @meets_raceHook C Handed Orderly taken sofar w₃ .between (.getContinuationMessages turn)
                  config.getContinuationMessages [] _ hRules hAsked trivial (by simp)
                exact fun _ _ hAnswer => hRules.hands _ _ _ hAnswer
            apply hPoll.bind
            · intro result w₄ hResult
              cases result with
              | aborted => exact ⟨hResult, by simp⟩
              | completed messages => exact hResult
            · exact fun _ _ hFailed => hFailed
    · exact fun _ _ hFailed => hFailed

def RunLeaves (Orderly : Prop) (Handed : AgentMessage → Prop) (toolExecution : ToolExecutionMode)
    (taken : AgentContext) : Except AgentError (List AgentMessage) → World → Prop
  | .ok _, w => ∃ messages, Ended Orderly Handed toolExecution taken messages w
  | .error _, w => Failing Orderly Handed taken w

theorem meets_runLoopFrom (hRules : Rules C Handed Orderly) (hStream : Orderly → config.streamFn = true) (fuel : Nat)
    (hLoop : LoopHolds Orderly Handed taken st w) :
    (runLoopFrom config fuel st).Meets (Steps C) w (RunLeaves Orderly Handed config.toolExecution taken) := by
  induction fuel generalizing st w with
  | zero => trivial
  | succ fuel ih =>
    unfold runLoopFrom
    apply (meets_throwIfAborted hRules hLoop.holds).bind
    · intro _ w₁ hChecked
      have hLoop₁ : LoopHolds Orderly Handed taken st w₁ := ⟨hChecked, hLoop.answered, hLoop.pending, hLoop.tools⟩
      apply (meets_runTurns hRules hStream fuel hLoop₁ (.inl rfl)).bind
      · intro turn w₂ hTurn
        cases turn with
        | ended newMessages => exact hTurn
        | next st hasMoreToolCalls =>
          obtain ⟨hLoop₂, hLater⟩ := hTurn
          have hBetween := hLoop₂.holds
          rw [hLater, if_neg Bool.false_ne_true] at hBetween
          apply (meets_pollForMore hRules hBetween).bind
          · rintro messages w₃ ⟨hPolled, hHanded⟩
            split
            · have hAnswered : CallsAnswered Handed (CutOff config.toolExecution w₃) st.newMessages :=
                hLoop₂.answered.mono (fun _ h => h) (fun _ h => h) fun _ h => h.elim
              apply (meets_endAgent hRules hPolled hAnswered).mono
              intro out w₄ hOut
              cases out with
              | ok _ => exact ⟨_, hOut⟩
              | error _ => exact hOut.elim
            · refine ih ⟨?_, hLoop₂.answered, hHanded, hLoop₂.tools⟩
              change Holds _ _ _ (.running (if st.firstTurn then _ else _)) _
              rw [hLater, if_neg Bool.false_ne_true]
              exact hPolled
          · exact fun _ _ hFailed => ⟨hFailed.2, _, _, hFailed.1, hLoop₂.answered⟩
      · exact fun _ _ hFailing => hFailing
    · exact fun _ _ hThrown => ⟨hThrown.2, _, _, hThrown.1, hLoop.answered⟩

end Loop

end PrimeAgent.Agent
