import PrimeAgent.Agent.World

/-! # What holds between the calls of a run

The transcript is what the run took over and what it has recorded since; where the run is orderly, its log stands where
the automaton says.
-/
namespace PrimeAgent.Agent

/-- What a result about runs assumes of their condition. `Orderly` is left open, for one that assumes nothing more. -/
structure Rules (C : Condition) (Handed : AgentMessage → Prop) (Orderly : Prop) : Prop where
  hands : ∀ w call answer, C.answer w call answer → call.Hands Handed answer
  move : Orderly → ∀ w w', C.move w w' → orderly.move w w'
  answer : Orderly → ∀ w call answer, C.answer w call answer → orderly.answer w call answer

theorem rules_orderly : Rules orderly (fun _ => True) True where
  hands w call answer _ := by
    unfold Call.Hands
    split <;> simp
  move _ _ _ hMove := hMove
  answer _ _ _ _ hAnswer := hAnswer

structure Holds (Orderly : Prop) (taken : AgentContext) (sofar : List AgentMessage) (progress : Progress)
    (w : World) : Prop where
  active : w.phase = .active
  took : w.taken = taken
  messages : w.state.messages = taken.messages ++ sofar
  log : Orderly → scan w.log = some progress

def AgentEvent.recorded : AgentEvent → List AgentMessage
  | .messageEnd message => [message]
  | _ => []

theorem AgentState.messages_processEvents (state : AgentState) (event : AgentEvent) :
    (state.processEvents event).messages = state.messages ++ event.recorded := by
  unfold AgentState.processEvents AgentEvent.recorded
  split <;> simp

section Holds

variable {C : Condition} {Handed : AgentMessage → Prop} {Orderly : Prop} {taken : AgentContext}
  {sofar : List AgentMessage} {progress later : Progress} {w w' : World} {event : AgentEvent} {call : Call} {now : Open}
  {operation : Operation} {error : AgentError}

theorem Holds.record (hHolds : Holds Orderly taken sofar progress w)
    (hNext : Orderly → progress.next event = some later) :
    Holds Orderly taken (sofar ++ event.recorded) later (w.record event) where
  active := hHolds.active
  took := hHolds.took
  messages := by
    rw [← List.append_assoc, ← hHolds.messages]
    exact AgentState.messages_processEvents w.state event
  log hOrderly := by
    change scan (w.log ++ [event]) = _
    rw [scan_append, hHolds.log hOrderly]
    exact hNext hOrderly

theorem Progress.next_update {log : List AgentEvent} {update : ToolUpdate} (hScan : scan log = some progress)
    (hOpen : RunOpen log) : progress.next update.event = some progress := by
  cases progress with
  | idle => exact absurd (scan_describes hScan) hOpen.1
  | running now => rfl
  | ended =>
    obtain ⟨inner, messages, rfl, -⟩ := scan_describes hScan
    exact absurd (by simp) (hOpen.2 messages)

theorem Holds.move (hRules : Rules C Handed Orderly) (hHolds : Holds Orderly taken sofar progress w)
    (hMove : Move w w') (hCondition : C.move w w') : Holds Orderly taken sofar progress w' := by
  cases hMove with
  | abort => exact ⟨hHolds.active, hHolds.took, hHolds.messages, hHolds.log⟩
  | @stray front back update _ _ =>
    have hRecord := @Holds.record Orderly taken sofar progress progress w update.event hHolds fun hOrderly => by
      have hOpen := hRules.move hOrderly _ _ hCondition
      obtain hSame | hOpen := hOpen
      · exact absurd hSame (by simp [World.record])
      · exact Progress.next_update (hHolds.log hOrderly) hOpen
    refine ⟨hRecord.active, hRecord.took, ?_, hRecord.log⟩
    simpa [ToolUpdate.event, AgentEvent.recorded] using hRecord.messages
  | configure => exact ⟨hHolds.active, hHolds.took, hHolds.messages, hHolds.log⟩
  | others _ _ hWaiting =>
    have hActive := hHolds.active
    rw [hWaiting] at hActive
    cases hActive

theorem aborted_move (hMove : Move w w') (hActive : w.phase = .active) (hAborted : w.aborted = true) :
    w'.aborted = true := by
  cases hMove with
  | abort => rfl
  | stray | configure => exact hAborted
  | others _ _ hWaiting =>
    rw [hWaiting] at hActive
    cases hActive

theorem Holds.moves (hRules : Rules C Handed Orderly) (hHolds : Holds Orderly taken sofar progress w)
    (hMoves : Relation.ReflTransGen (fun u v => Move u v ∧ C.move u v) w w') :
    Holds Orderly taken sofar progress w' ∧ (w.aborted = true → w'.aborted = true) := by
  induction hMoves with
  | refl => exact ⟨hHolds, id⟩
  | tail _ hMove ih =>
    obtain ⟨hBefore, hAborted⟩ := ih
    exact ⟨hBefore.move hRules hMove.1 hMove.2, fun h => aborted_move hMove.1 hBefore.active (hAborted h)⟩

def Call.IsQuiet : Call → Prop
  | .emit (.toolExecutionUpdate ..) => True
  | .emit _ | .register _ | .startRun | .snapshot _ | .recordError _ | .finishRun => False
  | _ => True

theorem Holds.answers_quiet {answer : call.Answer} (hHolds : Holds Orderly taken sofar (.running now) w)
    (hQuiet : call.IsQuiet) (hAnswers : Answers w call answer w') :
    Holds Orderly taken sofar (.running now) w' ∧ (w.aborted = true → w'.aborted = true) := by
  unfold Call.IsQuiet at hQuiet
  split at hQuiet
  next toolCallId toolName args result =>
    cases hAnswers
    have hRecord := @Holds.record Orderly taken sofar _ (.running now) w
      (.toolExecutionUpdate toolCallId toolName args result) hHolds fun _ => rfl
    refine ⟨⟨hRecord.active, hRecord.took, ?_, hRecord.log⟩, id⟩
    simpa [AgentEvent.recorded] using hRecord.messages
  all_goals try exact hQuiet.elim
  next hEmit hRegister hStart hSnapshot hRecord hFinish =>
    have hSame : w' = w ∨ ∃ held, w' = { w with strays := w.strays ++ held } := by
      unfold Answers at hAnswers
      split at hAnswers
      all_goals first
        | exact .inl hAnswers
        | exact .inl hAnswers.2
        | exact .inr hAnswers.2
        | simp_all
    obtain rfl | ⟨held, rfl⟩ := hSame
    · exact ⟨hHolds, id⟩
    · exact ⟨⟨hHolds.active, hHolds.took, hHolds.messages, hHolds.log⟩, id⟩

/-! ## The calls -/

theorem meets_emit (hRules : Rules C Handed Orderly) (hHolds : Holds Orderly taken sofar progress w)
    (hNext : Orderly → progress.next event = some later) :
    (emit event).Meets (Steps C) w (Program.Returns fun _ w' =>
      Holds Orderly taken (sofar ++ event.recorded) later w' ∧ (w.aborted = true → w'.aborted = true)) := by
  rintro ⟨⟩ w' ⟨w₁, hMoves, -, rfl⟩
  obtain ⟨hBefore, hAborted⟩ := hHolds.moves hRules hMoves
  exact ⟨hBefore.record hNext, hAborted⟩

theorem meets_emitSilent (hRules : Rules C Handed Orderly) (hHolds : Holds Orderly taken sofar progress w)
    (hSilent : event.recorded = []) (hNext : Orderly → progress.next event = some later) :
    (emit event).Meets (Steps C) w (Program.Returns fun _ w' =>
      Holds Orderly taken sofar later w' ∧ (w.aborted = true → w'.aborted = true)) := by
  apply (meets_emit hRules hHolds hNext).mono
  intro out w' hOut
  rw [hSilent, List.append_nil] at hOut
  exact hOut

theorem meets_quiet (hRules : Rules C Handed Orderly) (hHolds : Holds Orderly taken sofar (.running now) w)
    (hQuiet : call.IsQuiet) :
    (ask call).Meets (Steps C) w (Program.Returns fun _ w' =>
      Holds Orderly taken sofar (.running now) w' ∧ (w.aborted = true → w'.aborted = true)) := by
  rintro answer w' ⟨w₁, hMoves, -, hAnswers⟩
  obtain ⟨hBefore, hAborted⟩ := hHolds.moves hRules hMoves
  obtain ⟨hAfter, hStill⟩ := hBefore.answers_quiet hQuiet hAnswers
  exact ⟨hAfter, fun h => hStill (hAborted h)⟩

theorem meets_isAborted (hRules : Rules C Handed Orderly) (hHolds : Holds Orderly taken sofar (.running now) w) :
    isAborted.Meets (Steps C) w (Program.Returns fun answer w' =>
      Holds Orderly taken sofar (.running now) w' ∧ (w.aborted = true → answer = true) ∧ answer = w'.aborted) := by
  rintro answer w' ⟨w₁, hMoves, -, hAnswer, rfl⟩
  obtain ⟨hBefore, hAborted⟩ := hHolds.moves hRules hMoves
  exact ⟨hBefore, fun h => hAnswer.trans (hAborted h), hAnswer⟩

theorem meets_race (hRules : Rules C Handed Orderly) (hHolds : Holds Orderly taken sofar (.running now) w) :
    (ask (.race operation)).Meets (Steps C) w (Program.Returns fun answer w' =>
      Holds Orderly taken sofar (.running now) w' ∧ RaceAnswers w'.aborted operation answer ∧
        C.answer w' (.race operation) answer) := by
  rintro answer w' ⟨w₁, hMoves, hCondition, hAnswer, rfl⟩
  exact ⟨(hHolds.moves hRules hMoves).1, hAnswer, hCondition⟩

def Excused (Orderly : Prop) (error : AgentError) (w : World) : Prop :=
  Orderly → error = .aborted ∧ w.aborted = true

theorem raceAnswers_error {aborted : Bool} :
    RaceAnswers aborted operation (.error error) ↔ if aborted then error = .aborted else operation.CanFail := by
  unfold RaceAnswers
  rfl

theorem excused_of_race (hRules : Rules C Handed Orderly) (hAnswer : RaceAnswers w.aborted operation (.error error))
    (hCondition : C.answer w (.race operation) (.error error)) (hOperation : operation.Propagates ∨ ¬operation.CanFail) :
    Excused Orderly error w := by
  intro hOrderly
  obtain hPropagates | hCannot := hOperation
  · have hAllowed := hRules.answer hOrderly _ _ _ hCondition
    cases operation <;> first | exact hPropagates.elim | exact hAllowed hPropagates
  · rw [raceAnswers_error] at hAnswer
    split at hAnswer
    next hAborted => exact ⟨hAnswer, hAborted⟩
    next => exact absurd hAnswer hCannot

theorem meets_raceWithAbort (hRules : Rules C Handed Orderly) (hHolds : Holds Orderly taken sofar (.running now) w)
    (hOperation : operation.Propagates ∨ ¬operation.CanFail) :
    (raceWithAbort operation).Meets (Steps C) w fun
      | .ok answer, w' => Holds Orderly taken sofar (.running now) w' ∧ C.answer w' (.race operation) (.ok answer)
      | .error error, w' => Holds Orderly taken sofar (.running now) w' ∧ Excused Orderly error w' := by
  apply (meets_race hRules hHolds).seq
  rintro answer w' ⟨hAfter, hAnswer, hCondition⟩
  cases answer with
  | ok value => exact ⟨hAfter, hCondition⟩
  | error error => exact ⟨hAfter, excused_of_race hRules hAnswer hCondition hOperation⟩

end Holds

end PrimeAgent.Agent
