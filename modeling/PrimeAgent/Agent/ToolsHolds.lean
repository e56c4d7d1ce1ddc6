import PrimeAgent.Agent.Invariant
import Mathlib.Algebra.Order.Group.Multiset

/-! # What a single tool call does

Up to its result message a tool call makes only quiet calls, besides the two events that frame it, and ends with an
outcome of its own.
-/
namespace PrimeAgent.Agent

open Program (Within Gives)

/-- The program makes only quiet calls, and ends with a result as `P` says. -/
abbrev Quietly {α : Type} (P : α → Prop) (p : Loop α) : Prop :=
  p.Within Call.IsQuiet (Gives P)

variable {config : AgentLoopConfig} {context : AgentContext} {assistantMessage : AssistantMessage}
  {toolCall : ToolCall} {prepared : PreparedToolCall}

theorem quietly_isAborted {α : Type} {P : α → Prop} {f : Bool → Loop α} (hNext : ∀ aborted, Quietly P (f aborted)) :
    Quietly P (isAborted >>= f) :=
  ⟨trivial, hNext⟩

theorem quietly_raceWithAbort {operation : Operation} :
    (raceWithAbort operation).Within Call.IsQuiet fun _ => True := by
  refine ⟨trivial, fun answer => ?_⟩
  cases answer <;> exact trivial

theorem within_ofExcept {α : Type} (result : Except AgentError α) :
    (Program.ofExcept result : Loop α).Within Call.IsQuiet fun _ => True := by
  cases result <;> exact trivial

def Preparation.Of (toolCall : ToolCall) : Preparation → Prop
  | .prepared prepared => prepared.toolCall = toolCall
  | .immediate .. => True

theorem within_prepareToolCallInner {tool : AgentTool} :
    (prepareToolCallInner config context assistantMessage toolCall tool).Within Call.IsQuiet fun
      | .ok preparation => preparation.Of toolCall
      | .error _ => True := by
  unfold prepareToolCallInner
  apply (within_ofExcept _).bind
  · intro args _
    split
    · apply quietly_raceWithAbort.bind
      · intro result _
        split <;> first | exact trivial | exact rfl
      · exact fun _ _ => trivial
    · exact rfl
  · exact fun _ _ => trivial

theorem quietly_prepareToolCall :
    Quietly (Preparation.Of toolCall) (prepareToolCall config context assistantMessage toolCall) := by
  unfold prepareToolCall
  split
  next => exact trivial
  next tool _ =>
    apply within_prepareToolCallInner.attempt.seq
    intro result hResult
    cases result with
    | ok preparation => exact hResult
    | error error => exact trivial

theorem quietly_errorToolResult (error : AgentError) : Quietly (fun _ => True) (errorToolResult error) := by
  refine quietly_isAborted fun aborted => ?_
  cases aborted <;> exact trivial

theorem quietly_awaitTool (fuel : Nat) : Quietly (fun _ => True) (awaitTool prepared fuel) := by
  induction fuel with
  | zero => trivial
  | succ fuel ih =>
    refine ⟨trivial, fun progress => ?_⟩
    cases progress with
    | update partialResult => exact ⟨trivial, fun _ => ih⟩
    | returned result => exact trivial

theorem quietly_awaitEmitter (fuel : Nat) : Quietly (fun _ => True) (awaitEmitter prepared fuel) := by
  induction fuel with
  | zero => trivial
  | succ fuel ih =>
    refine ⟨trivial, fun progress => ?_⟩
    cases progress with
    | update partialResult => exact ⟨trivial, fun _ => ih⟩
    | settled | aborted => exact trivial

theorem quietly_executePreparedToolCall (fuel : Nat) :
    Quietly (fun _ => True) (executePreparedToolCall fuel prepared) := by
  unfold executePreparedToolCall
  have hFailed : ∀ error, Quietly (fun _ => True) (do
      let result ← errorToolResult error
      pure { result, isError := true } : Loop ExecutedToolCallOutcome) := fun error =>
    (quietly_errorToolResult error).seq fun _ _ => trivial
  apply (quietly_awaitTool fuel).seq
  intro result _
  cases result with
  | ok result =>
    apply (quietly_awaitEmitter fuel).seq
    intro settled _
    cases settled with
    | ok _ => exact trivial
    | error error =>
      refine quietly_isAborted fun aborted => ?_
      split
      · exact trivial
      · exact hFailed error
  | error error =>
    apply (quietly_awaitEmitter fuel).seq
    exact fun _ _ => hFailed error

theorem quietly_finalizeExecutedToolCall (executed : ExecutedToolCallOutcome) :
    Quietly (fun finalized => finalized.toolCall = prepared.toolCall)
      (finalizeExecutedToolCall config context assistantMessage prepared executed) := by
  unfold finalizeExecutedToolCall
  split
  · refine ⟨trivial, fun answer => ?_⟩
    obtain error | overrides := answer
    · rfl
    · cases overrides <;> rfl
  · rfl

theorem quietly_runPreparedToolCall (fuel : Nat) :
    Quietly (fun finalized => finalized.toolCall = prepared.toolCall)
      (runPreparedToolCall fuel config context assistantMessage prepared) :=
  (quietly_executePreparedToolCall fuel).seq fun executed _ => quietly_finalizeExecutedToolCall executed

end PrimeAgent.Agent

/-! ## The invariant through a batch of tool calls

Both paths add the results of the calls to the transcript, in the order of the calls. The parallel path answers every
call; the sequential one may stop where it finds the run aborted.
-/
namespace PrimeAgent.Agent

open Program (Within Gives Returns)

/-- Where a batch has left a turn: the results of its calls are recorded, of all but where it has broken off. -/
structure BatchHolds (Orderly : Prop) (taken : AgentContext) (sofar : List AgentMessage) (toolCalls : List ToolCall)
    (sequential : Bool) (messages : List ToolResultMessage) (w : World) : Prop where
  holds : Holds Orderly taken (sofar ++ messages.map .toolResult) (.running .inTurn) w
  ordered : messages.map (·.toolCallId) <+: toolCalls.map (·.id)
  complete : messages.map (·.toolCallId) = toolCalls.map (·.id) ∨ sequential = true ∧ w.aborted = true

section Batch

variable {C : Condition} {Handed : AgentMessage → Prop} {Orderly : Prop} {taken context : AgentContext}
  {sofar : List AgentMessage} {w : World} {config : AgentLoopConfig} {assistantMessage : AssistantMessage}
  {now : Open} {α : Type} {toolCall : ToolCall} {i : Nat} {call : Call} {entries : List TaskOrOutcome}
  {toolCalls : List ToolCall} {extra : Multiset String}

section

variable (hRules : Rules C Handed Orderly)

include hRules

theorem Holds.quietly {P : α → Prop} {p : Loop α} (hQuietly : Quietly P p)
    (hHolds : Holds Orderly taken sofar (.running now) w) :
    p.Meets (Steps C) w (Returns fun result w' => P result ∧ Holds Orderly taken sofar (.running now) w') := by
  have hKeeps : ∀ w call answer w', Call.IsQuiet call → Holds Orderly taken sofar (.running now) w →
      Steps C w call answer w' → Holds Orderly taken sofar (.running now) w' := by
    rintro w call answer w' hQuiet hHolds ⟨w₁, hMoves, -, hAnswers⟩
    exact ((hHolds.moves hRules hMoves).1.answers_quiet hQuiet hAnswers).1
  apply (hQuietly.meets hKeeps hHolds).mono
  intro out w' hOut
  cases out with
  | ok result => exact hOut
  | error _ => exact hOut.1.elim

theorem meets_toolResultMessage (finalized : FinalizedToolCallOutcome)
    (hHolds : Holds Orderly taken sofar (.running .inTurn) w) :
    (createToolResultMessage finalized).Meets (Steps C) w (Returns fun message w' =>
      Holds Orderly taken sofar (.running .inTurn) w' ∧ message.toolCallId = finalized.toolCall.id) := by
  unfold createToolResultMessage
  apply Program.Meets.seq (meets_quiet hRules hHolds (by exact trivial))
  rintro timestamp w₁ ⟨hNow, -⟩
  exact ⟨hNow, rfl⟩

theorem meets_emitToolResultMessage (message : ToolResultMessage)
    (hHolds : Holds Orderly taken sofar (.running .inTurn) w) :
    (emitToolResultMessage message).Meets (Steps C) w (Returns fun _ w' =>
      Holds Orderly taken (sofar ++ [.toolResult message]) (.running .inTurn) w') := by
  apply (meets_emitSilent hRules hHolds rfl fun _ => next_messageStart _).seq
  rintro _ w₁ ⟨hStarted, -⟩
  apply (@meets_emit C Handed Orderly taken sofar _ (.running .inTurn) w₁ _ hRules hStarted fun _ => rfl).mono
  intro out w₂ hOut
  cases out with
  | ok _ => exact hOut.1
  | error _ => exact hOut

theorem meets_emitToolResultMessages (finalizedCalls : List FinalizedToolCallOutcome)
    (hHolds : Holds Orderly taken sofar (.running .inTurn) w) :
    (emitToolResultMessages finalizedCalls).Meets (Steps C) w (Returns fun messages w' =>
      Holds Orderly taken (sofar ++ messages.map .toolResult) (.running .inTurn) w' ∧
        messages.map (·.toolCallId) = finalizedCalls.map (·.toolCall.id)) := by
  induction finalizedCalls generalizing sofar w with
  | nil => exact ⟨by simpa using hHolds, rfl⟩
  | cons finalized rest ih =>
    unfold emitToolResultMessages
    apply (meets_toolResultMessage hRules finalized hHolds).seq
    rintro message w₁ ⟨hMade, hId⟩
    apply (meets_emitToolResultMessage hRules message hMade).seq
    intro _ w₂ hEmitted
    apply (ih hEmitted).seq
    rintro messages w₃ ⟨hAll, hIds⟩
    refine ⟨by simpa using hAll, ?_⟩
    rw [List.map_cons, List.map_cons, hId, hIds]

end

/-! ## One call after the other -/

theorem quietly_toolCall (fuel : Nat) :
    Quietly (fun finalized => finalized.toolCall = toolCall) (do
      match ← prepareToolCall config context assistantMessage toolCall with
      | .immediate result isError => pure { toolCall, result, isError }
      | .prepared prepared => runPreparedToolCall fuel config context assistantMessage prepared) := by
  apply quietly_prepareToolCall.seq
  intro preparation hPreparation
  cases preparation with
  | prepared prepared => exact hPreparation ▸ quietly_runPreparedToolCall fuel
  | immediate result isError => exact rfl

theorem meets_executeToolCallsSequential (hRules : Rules C Handed Orderly) (fuel : Nat) (toolCalls : List ToolCall)
    {before : List ToolCall} {finalizedCalls : List FinalizedToolCallOutcome} {messages : List ToolResultMessage}
    (hBefore : messages.map (·.toolCallId) = before.map (·.id))
    (hHolds : Holds Orderly taken (sofar ++ messages.map .toolResult) (.running .inTurn) w) :
    (executeToolCallsSequential fuel config context assistantMessage toolCalls finalizedCalls messages).Meets
      (Steps C) w (Returns fun batch w' =>
        BatchHolds Orderly taken sofar (before ++ toolCalls) true batch.messages w') := by
  induction toolCalls generalizing before finalizedCalls messages w with
  | nil =>
    rw [List.append_nil]
    exact ⟨hHolds, hBefore ▸ List.prefix_rfl, .inl hBefore⟩
  | cons toolCall rest ih =>
    unfold executeToolCallsSequential
    have hPrefix : messages.map (·.toolCallId) <+: (before ++ toolCall :: rest).map (·.id) := by
      rw [hBefore, List.map_append]
      exact List.prefix_append _ _
    apply (meets_isAborted hRules hHolds).seq
    rintro aborted w₁ ⟨hAsked, -, hAborted⟩
    split
    next hStop => exact ⟨hAsked, hPrefix, .inr ⟨rfl, hAborted.symm.trans hStop⟩⟩
    next =>
      apply (@meets_emitSilent C Handed Orderly taken _ _ (.running ⟨true, false, {toolCall.id}⟩) w₁ _ hRules hAsked
        rfl fun _ => rfl).seq
      rintro _ w₂ ⟨hStarted, -⟩
      apply (Holds.quietly hRules (quietly_toolCall fuel) hStarted).seq
      rintro finalized w₃ ⟨rfl, hDone⟩
      have hNext : Orderly → (Progress.running ⟨true, false, {finalized.toolCall.id}⟩).next
          (.toolExecutionEnd finalized.toolCall.id finalized.toolCall.name finalized.result finalized.isError) =
            some (.running .inTurn) := fun _ => by
        simp [Progress.next, Open.next, Open.inTurn]
      apply (meets_emitSilent hRules hDone rfl hNext).seq
      rintro _ w₄ ⟨hEnded, -⟩
      apply (meets_toolResultMessage hRules finalized hEnded).seq
      rintro message w₅ ⟨hMade, hId⟩
      apply (meets_emitToolResultMessage hRules message hMade).seq
      intro _ w₆ hEmitted
      rw [List.append_assoc, show messages.map AgentMessage.toolResult ++ [.toolResult message] =
        (messages ++ [message]).map .toolResult by simp] at hEmitted
      have hBefore' : (messages ++ [message]).map (·.toolCallId) = (before ++ [finalized.toolCall]).map (·.id) := by
        simp [hBefore, hId]
      apply (meets_isAborted hRules hEmitted).seq
      rintro aborted w₇ ⟨hAsked, -, hAborted⟩
      have hAll : before ++ finalized.toolCall :: rest = (before ++ [finalized.toolCall]) ++ rest := by simp
      rw [hAll]
      split
      next hStop =>
        refine ⟨hAsked, ?_, .inr ⟨rfl, hAborted.symm.trans hStop⟩⟩
        change (messages ++ [message]).map (·.toolCallId) <+: _
        rw [hBefore']
        exact (List.prefix_append _ rest).map _
      next => exact ih hBefore' hAsked

/-! ## All calls at once -/

theorem forall₂_getElem? {β γ : Type} {r : β → γ → Prop} {xs : List β} {ys : List γ} {y : γ}
    (hAll : List.Forall₂ r xs ys) (hAt : ys[i]? = some y) : ∃ x, xs[i]? = some x ∧ r x y := by
  induction hAll generalizing i with
  | nil => cases hAt
  | cons hHead _ ih =>
    cases i with
    | zero =>
      cases hAt
      exact ⟨_, rfl, hHead⟩
    | succ i => exact ih hAt

theorem forall₂_set {β γ : Type} {r : β → γ → Prop} {xs : List β} {ys : List γ} {x : β} {y : γ}
    (hAll : List.Forall₂ r xs ys) (hAt : xs[i]? = some x) (hNew : r x y) : List.Forall₂ r xs (ys.set i y) := by
  induction hAll generalizing i with
  | nil => cases hAt
  | cons hHead hTail ih =>
    cases i with
    | zero =>
      cases hAt
      exact .cons hNew hTail
    | succ i => exact .cons hHead (ih hAt)

def Running (toolCall : ToolCall) (task : TaskOrOutcome) : Prop :=
  ∃ rest : TaskOrOutcome, Quietly (fun finalized => finalized.toolCall = toolCall) rest ∧
    task = do
      let finalized ← rest
      emitToolExecutionEnd finalized
      pure finalized

def EntryOf (toolCall : ToolCall) (entry : TaskOrOutcome) : Prop :=
  (∃ finalized, entry = .done finalized ∧ finalized.toolCall = toolCall) ∨ Running toolCall entry

def isDone : TaskOrOutcome → Bool
  | .done _ => true
  | _ => false

theorem Running.not_done {task : TaskOrOutcome} (hRunning : Running toolCall task) :
    isDone task = false := by
  obtain ⟨rest, -, rfl⟩ := hRunning
  cases rest <;> rfl

theorem Running.next {next : call.Answer → TaskOrOutcome} (hRunning : Running toolCall (.call call next)) :
    (call.IsQuiet ∧ ∀ answer, Running toolCall (next answer)) ∨
      ∃ finalized : FinalizedToolCallOutcome, finalized.toolCall = toolCall ∧
        (.call call next : TaskOrOutcome) = (do emitToolExecutionEnd finalized; pure finalized) := by
  obtain ⟨rest, hRest, hTask⟩ := hRunning
  cases rest with
  | done finalized => exact .inr ⟨finalized, hRest, hTask⟩
  | fail error | spent => cases hTask
  | call call' rest =>
    injection hTask with hCall hNext
    subst hCall
    rw [eq_of_heq hNext]
    exact .inl ⟨hRest.1, fun answer => ⟨rest answer, hRest.2 answer, rfl⟩⟩

def executing : List ToolCall → List TaskOrOutcome → Multiset String
  | toolCall :: toolCalls, entry :: entries =>
    (if isDone entry then 0 else {toolCall.id}) + executing toolCalls entries
  | _, _ => 0

theorem executing_set {toolCalls : List ToolCall} {entries : List TaskOrOutcome} {i : Nat} {toolCall : ToolCall}
    {before after : TaskOrOutcome} (hCall : toolCalls[i]? = some toolCall) (hEntry : entries[i]? = some before)
    (hBefore : isDone before = false) :
    executing toolCalls entries =
      (if isDone after then {toolCall.id} else 0) + executing toolCalls (entries.set i after) := by
  induction toolCalls generalizing entries i with
  | nil => cases hCall
  | cons first toolCalls ih =>
    cases entries with
    | nil => cases hEntry
    | cons entry entries =>
      cases i with
      | zero =>
        cases hCall
        cases hEntry
        simp only [executing, List.set_cons_zero, hBefore, Bool.false_eq_true, if_false]
        cases isDone after <;> simp
      | succ i =>
        simp only [executing, List.set_cons_succ, ih hCall hEntry]
        exact add_left_comm _ _ _

theorem executing_append (toolCall : ToolCall) (entry : TaskOrOutcome) (hLength : toolCalls.length = entries.length) :
    executing (toolCalls ++ [toolCall]) (entries ++ [entry]) =
      (if isDone entry then 0 else {toolCall.id}) + executing toolCalls entries := by
  induction toolCalls generalizing entries with
  | nil =>
    rw [List.eq_nil_of_length_eq_zero hLength.symm]
    rfl
  | cons first toolCalls ih =>
    cases entries with
    | nil => cases hLength
    | cons other entries =>
      simp only [List.cons_append, executing, ih (Nat.succ.inj hLength)]
      exact add_left_comm _ _ _

/-- The invariant of the tasks spawned so far, with the calls in `extra` executing besides theirs. -/
structure PoolHolds (Orderly : Prop) (taken : AgentContext) (sofar : List AgentMessage) (extra : Multiset String)
    (toolCalls : List ToolCall) (entries : List TaskOrOutcome) (w : World) : Prop where
  tasks : List.Forall₂ EntryOf toolCalls entries
  holds : Holds Orderly taken sofar (.running ⟨true, false, extra + executing toolCalls entries⟩) w

theorem PoolHolds.turn {next : call.Answer → TaskOrOutcome} {answer : call.Answer} {w' : World}
    (hRules : Rules C Handed Orderly) (hPool : PoolHolds Orderly taken sofar extra toolCalls entries w)
    (hEntry : entries[i]? = some (.call call next)) (hStep : Steps C w call answer w') :
    PoolHolds Orderly taken sofar extra toolCalls (entries.set i (next answer)) w' := by
  obtain ⟨w₁, hMoves, -, hAnswers⟩ := hStep
  have hBefore := (hPool.holds.moves hRules hMoves).1
  obtain ⟨toolCall, hCall, hEntryOf⟩ := forall₂_getElem? hPool.tasks hEntry
  obtain ⟨finalized, hDone, -⟩ | hRunning := hEntryOf
  · cases hDone
  · obtain ⟨hQuiet, hGoesOn⟩ | ⟨finalized, rfl, hEnds⟩ := hRunning.next
    · have hSame := @executing_set toolCalls entries i toolCall _ (next answer) hCall hEntry rfl
      rw [(hGoesOn answer).not_done, if_neg Bool.false_ne_true, Multiset.zero_add] at hSame
      refine ⟨forall₂_set hPool.tasks hCall (.inr (hGoesOn answer)), ?_⟩
      rw [← hSame]
      exact (hBefore.answers_quiet hQuiet hAnswers).1
    · -- The task ends its call.
      cases hEnds
      cases hAnswers
      have hLess := @executing_set toolCalls entries i finalized.toolCall _ (.done finalized) hCall hEntry rfl
      rw [show isDone (.done finalized) = true from rfl, if_pos rfl] at hLess
      refine ⟨forall₂_set hPool.tasks hCall (.inl ⟨finalized, rfl, rfl⟩), ?_⟩
      have hRecord := @Holds.record Orderly taken sofar _
        (.running ⟨true, false, extra + executing toolCalls (entries.set i (.done finalized))⟩) w₁
        (.toolExecutionEnd finalized.toolCall.id finalized.toolCall.name finalized.result finalized.isError) hBefore
        fun _ => by
          rw [hLess, add_left_comm, Multiset.singleton_add]
          simp [Progress.next, Open.next]
      rw [show AgentEvent.recorded (.toolExecutionEnd finalized.toolCall.id finalized.toolCall.name finalized.result
        finalized.isError) = [] from rfl, List.append_nil] at hRecord
      exact hRecord

theorem meets_runTasks (hRules : Rules C Handed Orderly)
    (hPool : PoolHolds Orderly taken sofar extra toolCalls entries w) :
    (runTasks entries).Meets (Steps C) w
      (Returns fun entries w' => PoolHolds Orderly taken sofar extra toolCalls entries w') := by
  apply Program.Meets.seq (meets_quiet hRules hPool.holds (by exact trivial))
  rintro turns w₁ ⟨hAsked, -⟩
  apply Program.meets_interleave
  · exact fun entries i call next w answer w' hPool hEntry hStep => hPool.turn hRules hEntry hStep
  · exact ⟨hPool.tasks, hAsked⟩

theorem running_toolCallTask {toolCall : ToolCall} {prepared : PreparedToolCall} (fuel : Nat)
    (hPrepared : prepared.toolCall = toolCall) :
    Running toolCall (toolCallTask fuel config context assistantMessage prepared) :=
  ⟨_, hPrepared ▸ quietly_runPreparedToolCall fuel, rfl⟩

theorem meets_spawnToolCalls (hRules : Rules C Handed Orderly) (fuel : Nat) (toolCalls : List ToolCall)
    {before : List ToolCall} (hPool : PoolHolds Orderly taken sofar 0 before entries w) :
    (spawnToolCalls fuel config context assistantMessage toolCalls entries).Meets (Steps C) w
      (Returns fun entries w' => PoolHolds Orderly taken sofar 0 (before ++ toolCalls) entries w') := by
  induction toolCalls generalizing before entries w with
  | nil =>
    rw [List.append_nil]
    exact hPool
  | cons toolCall rest ih =>
    unfold spawnToolCalls
    have hAll : before ++ toolCall :: rest = (before ++ [toolCall]) ++ rest := by simp
    rw [hAll]
    apply (meets_runTasks hRules hPool).seq
    intro entries w₁ hPool
    have hNext : Orderly → (Progress.running ⟨true, false, 0 + executing before entries⟩).next
        (.toolExecutionStart toolCall.id toolCall.name toolCall.arguments) =
          some (.running ⟨true, false, {toolCall.id} + executing before entries⟩) := fun _ => by
      simp [Progress.next, Open.next]
    apply (meets_emitSilent hRules hPool.holds rfl hNext).seq
    rintro _ w₂ ⟨hStarted, -⟩
    apply (meets_runTasks hRules ⟨hPool.tasks, hStarted⟩).seq
    intro entries w₃ hPool
    apply (hPool.holds.quietly hRules quietly_prepareToolCall).seq
    rintro preparation w₄ ⟨hPreparation, hPrepared⟩
    apply (meets_runTasks hRules ⟨hPool.tasks, hPrepared⟩).seq
    intro entries w₅ hPool
    have hLength := hPool.tasks.length_eq
    cases preparation with
    | immediate result isError =>
      have hNext : Orderly → (Progress.running ⟨true, false, {toolCall.id} + executing before entries⟩).next
          (.toolExecutionEnd toolCall.id toolCall.name result isError) =
            some (.running ⟨true, false, 0 + executing before entries⟩) := fun _ => by
        simp [Progress.next, Open.next]
      apply (meets_emitSilent hRules hPool.holds rfl hNext).seq
      rintro _ w₆ ⟨hEnded, -⟩
      apply ih
      refine ⟨List.rel_append hPool.tasks (.cons (.inl ⟨_, rfl, rfl⟩) .nil), ?_⟩
      rw [executing_append toolCall _ hLength, show isDone (.done _) = true from rfl, if_pos rfl, Multiset.zero_add]
      exact hEnded
    | prepared prepared =>
      have hRunning := @running_toolCallTask context config assistantMessage toolCall prepared fuel hPreparation
      apply ih
      refine ⟨List.rel_append hPool.tasks (.cons (.inr hRunning) .nil), ?_⟩
      rw [executing_append toolCall _ hLength, hRunning.not_done, if_neg Bool.false_ne_true, Multiset.zero_add]
      exact hPool.holds

theorem within_gather (hEntries : List.Forall₂ EntryOf toolCalls entries) :
    Quietly (fun finalizedCalls => finalizedCalls.map (·.toolCall) = toolCalls ∧ executing toolCalls entries = 0)
      (.gather entries) := by
  induction hEntries with
  | nil => exact ⟨rfl, rfl⟩
  | @cons toolCall entry toolCalls entries hEntry _ ih =>
    obtain ⟨finalized, rfl, rfl⟩ | hRunning := hEntry
    · apply Within.seq ih
      rintro finalizedCalls ⟨rfl, hNone⟩
      exact ⟨rfl, by simp [executing, isDone, hNone]⟩
    · obtain ⟨rest, hRest, rfl⟩ := hRunning
      cases rest with
      | fail error => exact hRest.elim
      | _ => exact trivial

theorem meets_executeToolCallsParallel (hRules : Rules C Handed Orderly) (fuel : Nat) (toolCalls : List ToolCall)
    (hHolds : Holds Orderly taken sofar (.running .inTurn) w) :
    (executeToolCallsParallel fuel config context assistantMessage toolCalls).Meets (Steps C) w
      (Returns fun batch w' => BatchHolds Orderly taken sofar toolCalls false batch.messages w') := by
  unfold executeToolCallsParallel
  have hStart : PoolHolds Orderly taken sofar 0 [] [] w := ⟨.nil, hHolds⟩
  apply (meets_spawnToolCalls hRules fuel toolCalls hStart).seq
  intro entries w₁ hPool
  apply (meets_runTasks hRules hPool).seq
  intro entries w₂ hPool
  rw [List.nil_append] at hPool
  apply (hPool.holds.quietly hRules (within_gather hPool.tasks)).seq
  rintro finalizedCalls w₃ ⟨⟨rfl, hNone⟩, hGathered⟩
  rw [hNone] at hGathered
  apply (meets_emitToolResultMessages hRules finalizedCalls hGathered).seq
  rintro messages w₄ ⟨hEmitted, hIds⟩
  have hOrder : messages.map (·.toolCallId) = (finalizedCalls.map (·.toolCall)).map (·.id) := by
    rw [hIds, List.map_map]
    rfl
  exact ⟨hEmitted, hOrder ▸ List.prefix_rfl, .inl hOrder⟩

theorem meets_executeToolCalls (hRules : Rules C Handed Orderly) (fuel : Nat)
    (hHolds : Holds Orderly taken sofar (.running .inTurn) w) :
    (executeToolCalls fuel config context assistantMessage).Meets (Steps C) w (Returns fun batch w' =>
      BatchHolds Orderly taken sofar assistantMessage.toolCalls
        (runsSequentially config.toolExecution context.tools assistantMessage.toolCalls) batch.messages w') := by
  unfold executeToolCalls
  split
  next hSequential =>
    rw [hSequential]
    have hStart : Holds Orderly taken (sofar ++ ([] : List ToolResultMessage).map .toolResult) (.running .inTurn) w := by
      simpa using hHolds
    exact @meets_executeToolCallsSequential C Handed Orderly taken context sofar w config assistantMessage hRules fuel
      assistantMessage.toolCalls [] [] [] rfl hStart
  next hParallel =>
    rw [Bool.eq_false_iff.mpr hParallel]
    exact meets_executeToolCallsParallel hRules fuel _ hHolds

end Batch

end PrimeAgent.Agent
