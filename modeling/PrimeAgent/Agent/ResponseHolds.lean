import PrimeAgent.Agent.Invariant

/-! # The invariant through one response

A response that does not fail adds its message to the transcript and leaves the turn with no message open, however its
stream went. One that fails has recorded nothing.
-/
namespace PrimeAgent.Agent

def Passes {α : Type} (Orderly : Prop) (taken : AgentContext) (sofar : List AgentMessage) (now : Open) :
    Except AgentError α → World → Prop
  | .ok _, w => Holds Orderly taken sofar (.running now) w
  | .error error, w => Holds Orderly taken sofar (.running now) w ∧ Excused Orderly error w

section Response

variable {C : Condition} {Handed : AgentMessage → Prop} {Orderly : Prop} {taken context : AgentContext}
  {sofar : List AgentMessage} {w : World} {config : AgentLoopConfig} {response : Response} {α β : Type}
  {now : Open}

theorem passes_bind {p : Loop α} {f : α → Loop β} (hFirst : p.Meets (Steps C) w (Passes Orderly taken sofar now))
    (hNext : ∀ result w', Holds Orderly taken sofar (.running now) w' →
      (f result).Meets (Steps C) w' (Passes Orderly taken sofar now)) :
    (p >>= f).Meets (Steps C) w (Passes Orderly taken sofar now) :=
  Program.Meets.bind hFirst hNext fun _ _ hError => hError

theorem passes_race {operation : Operation} (hRules : Rules C Handed Orderly)
    (hHolds : Holds Orderly taken sofar (.running now) w) (hOperation : operation.Propagates ∨ ¬operation.CanFail) :
    (raceWithAbort operation).Meets (Steps C) w (Passes Orderly taken sofar now) := by
  apply (meets_raceWithAbort hRules hHolds hOperation).mono
  intro out w' hOut
  cases out with
  | ok answer => exact hOut.1
  | error error => exact hOut

theorem passes_throwIfAborted (hRules : Rules C Handed Orderly)
    (hHolds : Holds Orderly taken sofar (.running now) w) :
    (throwIfAborted .response).Meets (Steps C) w (Passes Orderly taken sofar now) := by
  rintro answer w' ⟨w₁, hMoves, -, hAnswer, rfl⟩
  have hAfter := (hHolds.moves hRules hMoves).1
  cases answer with
  | false => exact hAfter
  | true => exact ⟨hAfter, fun _ => ⟨rfl, hAnswer.symm⟩⟩

theorem passes_resolveApiKey (hRules : Rules C Handed Orderly)
    (hHolds : Holds Orderly taken sofar (.running now) w) :
    (resolveApiKey config).Meets (Steps C) w (Passes Orderly taken sofar now) := by
  unfold resolveApiKey
  split
  · exact passes_bind (passes_race hRules hHolds (.inl trivial)) fun _ _ hKey => hKey
  · exact hHolds

theorem passes_openResponse (hRules : Rules C Handed Orderly) (hStream : Orderly → config.streamFn = true)
    (hHolds : Holds Orderly taken sofar (.running now) w) :
    (openResponse config context).Meets (Steps C) w (Passes Orderly taken sofar now) := by
  unfold openResponse
  apply passes_bind (passes_throwIfAborted hRules hHolds)
  intro _ w₁ hChecked
  have hTransform : (if config.transformContext then raceWithAbort (.transformContext context.messages)
      else pure context.messages).Meets (Steps C) w₁ (Passes Orderly taken sofar now) := by
    split
    · exact passes_race hRules hChecked (.inl trivial)
    · exact hChecked
  apply passes_bind hTransform
  intro messages w₂ hTransformed
  have hConvert : (raceWithAbort (.convertToLlm messages)).Meets (Steps C) w₂ (Passes Orderly taken sofar now) :=
    passes_race hRules hTransformed (.inl trivial)
  apply passes_bind hConvert
  intro llmMessages w₃ hConverted
  split
  next hNone =>
    refine ⟨hConverted, fun hOrderly => ?_⟩
    rw [hStream hOrderly] at hNone
    cases hNone
  next =>
    apply passes_bind (passes_resolveApiKey hRules hConverted)
    intro resolvedApiKey w₄ hResolved
    exact passes_race hRules hResolved (.inl trivial)

theorem meets_finishResponse (hRules : Rules C Handed Orderly) (finalMessage : AssistantMessage)
    (hHolds : Holds Orderly taken sofar (.running (.responding response.addedPartial)) w) :
    (finishResponse response finalMessage).Meets (Steps C) w (Program.Returns fun finished w' =>
      Holds Orderly taken (sofar ++ [.assistant finished.2]) (.running .inTurn) w' ∧
        finished.1.tools = response.context.tools) := by
  unfold finishResponse
  have hStart : (if response.addedPartial then pure () else emit (.messageStart (.assistant finalMessage)) :
      Loop Unit).Meets (Steps C) w (Program.Returns fun _ w' =>
        Holds Orderly taken sofar (.running (.responding true)) w') := by
    split
    next hAdded =>
      rw [hAdded] at hHolds
      exact hHolds
    next hNone =>
      rw [Bool.eq_false_iff.mpr hNone] at hHolds
      apply (@meets_emitSilent C Handed Orderly taken sofar _ (.running (.responding true)) w _ hRules hHolds rfl
        fun _ => rfl).mono
      intro out w' hOut
      cases out with
      | ok _ => exact hOut.1
      | error _ => exact hOut
  apply hStart.seq
  intro _ w₁ hStarted
  apply (@meets_emit C Handed Orderly taken sofar _ (.running .inTurn) w₁ _ hRules hStarted fun _ => rfl).seq
  rintro _ w₂ ⟨hEnded, -⟩
  exact ⟨hEnded, rfl⟩

def StreamedHolds (Orderly : Prop) (taken : AgentContext) (sofar : List AgentMessage) (tools : List AgentTool) :
    Streamed → World → Prop
  | .ended context message, w =>
    Holds Orderly taken (sofar ++ [.assistant message]) (.running .inTurn) w ∧ context.tools = tools
  | .failed response error, w =>
    Holds Orderly taken sofar (.running (.responding response.addedPartial)) w ∧
      response.context.tools = tools ∧ Excused Orderly error w

theorem meets_closeStream {error : AgentError} {now : Open} (hRules : Rules C Handed Orderly)
    (hHolds : Holds Orderly taken sofar (.running now) w) (hExcused : Excused Orderly error w) :
    (ask .closeStream).Meets (Steps C) w (Program.Returns fun _ w' =>
      Holds Orderly taken sofar (.running now) w' ∧ Excused Orderly error w') := by
  apply Program.Meets.mono (meets_quiet hRules hHolds (by exact trivial))
  intro out w' hOut
  cases out with
  | ok _ => exact ⟨hOut.1, fun hOrderly => ⟨(hExcused hOrderly).1, hOut.2 (hExcused hOrderly).2⟩⟩
  | error _ => exact hOut

theorem meets_endResponse (hRules : Rules C Handed Orderly) (finalMessage : AssistantMessage)
    (hHolds : Holds Orderly taken sofar (.running (.responding response.addedPartial)) w) :
    (do
      let (context, message) ← finishResponse response finalMessage
      pure (.ended context message) : Loop Streamed).Meets (Steps C) w
        (Program.Returns (StreamedHolds Orderly taken sofar response.context.tools)) := by
  apply (meets_finishResponse hRules finalMessage hHolds).seq
  rintro ⟨context, message⟩ w' hFinished
  exact hFinished

theorem meets_readResponse (hRules : Rules C Handed Orderly) (fuel : Nat)
    (hHolds : Holds Orderly taken sofar (.running (.responding response.addedPartial)) w) :
    (readResponse fuel response).Meets (Steps C) w
      (Program.Returns (StreamedHolds Orderly taken sofar response.context.tools)) := by
  induction fuel generalizing response w with
  | zero => trivial
  | succ fuel ih =>
    unfold readResponse
    apply (meets_race hRules hHolds).seq
    rintro answer w₁ ⟨hRead, hAnswer, hCondition⟩
    split
    next error =>
      have hExcused := excused_of_race hRules hAnswer hCondition (.inr id)
      apply (@meets_closeStream C Handed Orderly taken sofar w₁ error _ hRules hRead hExcused).seq
      rintro _ w₂ ⟨hClosed, hStill⟩
      exact ⟨hClosed, rfl, hStill⟩
    next =>
      apply (meets_race hRules hRead).seq
      rintro result w₂ ⟨hResult, hAnswer, hCondition⟩
      cases result with
      | error error => exact ⟨hResult, rfl, excused_of_race hRules hAnswer hCondition (.inl trivial)⟩
      | ok finalMessage => exact meets_endResponse hRules finalMessage hResult
    next event =>
      split
      next message =>
        -- Only where the run is not orderly has a message been started already.
        have hNext : Orderly → (Progress.running (.responding response.addedPartial)).next
            (.messageStart (.assistant message)) = some (.running (.responding true)) := by
          intro hOrderly
          have hClosed := hRules.answer hOrderly _ _ _ hCondition
          have hSame := (messageOpen_of_scan (hRead.log hOrderly)).symm.trans hClosed
          rw [show response.addedPartial = false from hSame]
          rfl
        apply (meets_emitSilent hRules hRead rfl hNext).seq
        rintro _ w₂ ⟨hStarted, -⟩
        exact ih hStarted
      next =>
        split
        · split
          next message _ =>
            have hNext : Orderly → (Progress.running (.responding response.addedPartial)).next
                (.messageUpdate (.assistant message) event) =
                  some (.running (.responding response.addedPartial)) := fun _ => rfl
            apply (meets_emitSilent hRules hRead rfl hNext).seq
            rintro _ w₂ ⟨hUpdated, -⟩
            exact ih hUpdated
          next => exact ih hRead
        · split
          next terminal _ =>
            apply (meets_race hRules hRead).seq
            rintro result w₂ ⟨hResult, hAnswer, hCondition⟩
            cases result with
            | ok resultMessage => exact meets_endResponse hRules resultMessage hResult
            | error error =>
              have hExcused := excused_of_race hRules hAnswer hCondition (.inl trivial)
              apply (meets_isAborted hRules hResult).seq
              rintro aborted w₃ ⟨hAsked, hStill, hAborted⟩
              by_cases hAbort : (aborted && error.isAbortError) = true
              · rw [if_pos hAbort]
                exact meets_endResponse hRules terminal hAsked
              · rw [if_neg hAbort]
                refine ⟨hAsked, rfl, fun hOrderly => ?_⟩
                obtain ⟨rfl, hWas⟩ := hExcused hOrderly
                exact absurd (by rw [hStill hWas]; rfl) hAbort
          next => exact ih hRead

theorem meets_streamAssistantResponse (hRules : Rules C Handed Orderly) (hStream : Orderly → config.streamFn = true)
    (fuel : Nat) (hHolds : Holds Orderly taken sofar (.running .inTurn) w) :
    (streamAssistantResponse fuel config context).Meets (Steps C) w fun
      | .ok (after, message), w' =>
        Holds Orderly taken (sofar ++ [.assistant message]) (.running .inTurn) w' ∧ after.tools = context.tools
      | .error _, w' => (∃ now, Holds Orderly taken sofar (.running now) w') ∧ ¬Orderly := by
  unfold streamAssistantResponse
  have hStreamed : (streamAssistantResponseInner fuel config ⟨context, none, false⟩).Meets (Steps C) w
      (Program.Returns (StreamedHolds Orderly taken sofar context.tools)) := by
    unfold streamAssistantResponseInner
    have hOpen := @passes_openResponse C Handed Orderly taken context sofar w config _ hRules hStream hHolds
    have hAttempt : ((openResponse config context).attempt : Loop (Except AgentError Unit)).Meets (Steps C) w
        (Program.Returns (Passes Orderly taken sofar .inTurn)) := Program.meets_attempt.mpr hOpen
    apply hAttempt.seq
    intro result w₁ hResult
    cases result with
    | error error => exact ⟨hResult.1, rfl, hResult.2⟩
    | ok _ => exact @meets_readResponse C Handed Orderly taken sofar w₁ ⟨context, none, false⟩ hRules fuel hResult
  apply hStreamed.seq
  intro streamed w₁ hAfter
  cases streamed with
  | ended after message => exact hAfter
  | failed response error =>
    obtain ⟨hFailed, hTools, hExcused⟩ := hAfter
    apply (meets_isAborted hRules hFailed).seq
    rintro aborted w₂ ⟨hAsked, hStill, -⟩
    by_cases hAbort : (aborted && error.isAbortError) = true
    · rw [if_pos hAbort]
      unfold createAbortedAssistantMessage
      apply Program.Meets.seq (meets_quiet hRules hAsked (by exact trivial))
      rintro timestamp w₃ ⟨hNow, -⟩
      apply (meets_finishResponse hRules _ hNow).mono
      intro out w₄ hOut
      cases out with
      | ok finished => exact ⟨hOut.1, hOut.2.trans hTools⟩
      | error _ => exact hOut.elim
    · rw [if_neg hAbort]
      refine ⟨⟨_, hAsked⟩, fun hOrderly => ?_⟩
      obtain ⟨rfl, hWas⟩ := hExcused hOrderly
      exact absurd (by rw [hStill hWas]; rfl) hAbort

end Response

end PrimeAgent.Agent
