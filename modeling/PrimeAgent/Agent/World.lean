import PrimeAgent.Agent.Run
import Mathlib.Data.List.Induction
import Mathlib.Data.Multiset.AddSub

/-! # Well-formed event logs

What the events of a run are to look like, as an automaton that reads them one by one: the run is open between its
`AgentStart` and its `AgentEnd`, a turn and a message are open or not, and some tool calls are executing.
-/
namespace PrimeAgent.Agent

structure Open where
  turn : Bool
  message : Bool
  executing : Multiset String
deriving DecidableEq

namespace Open

def between : Open :=
  ⟨false, false, 0⟩

def inTurn : Open :=
  ⟨true, false, 0⟩

def responding (isOpen : Bool) : Open :=
  ⟨true, isOpen, 0⟩

def mayStart (now : Open) : AgentMessage → Bool
  | .standard (.toolResult message) => !now.message && decide (message.toolCallId ∉ now.executing)
  | _ => !now.message

def next (now : Open) : AgentEvent → Option Open
  | .turnStart => if now.turn then none else some { now with turn := true }
  | .turnEnd _ _ =>
    if now.turn ∧ now.message = false ∧ now.executing = 0 then some { now with turn := false } else none
  | .messageStart message => if now.mayStart message then some { now with message := true } else none
  | .messageEnd _ => if now.message then some { now with message := false } else none
  | .toolExecutionStart toolCallId _ _ => some { now with executing := toolCallId ::ₘ now.executing }
  | .toolExecutionEnd toolCallId _ _ _ =>
    if toolCallId ∈ now.executing then some { now with executing := now.executing.erase toolCallId } else none
  | .messageUpdate .. | .toolExecutionUpdate .. => some now
  | .agentStart | .agentEnd _ => none

end Open

inductive Progress where
  | idle
  | running (now : Open)
  | ended
deriving DecidableEq

def Progress.next : Progress → AgentEvent → Option Progress
  | idle, .agentStart => some (running .between)
  | running now, .agentEnd _ => if now = .between then some ended else none
  | running now, event => (now.next event).map running
  | _, _ => none

def scan (log : List AgentEvent) : Option Progress :=
  log.foldlM Progress.next .idle

theorem next_messageStart (message : AgentMessage) :
    (Progress.running .inTurn).next (.messageStart message) = some (.running (.responding true)) := by
  have hMay : Open.inTurn.mayStart message = true := by
    unfold Open.mayStart
    split <;> simp [Open.inTurn]
  simp only [Progress.next, Open.next, hMay, if_true, Option.map_some]
  rfl

/-- The run starts with `AgentStart`, its only `AgentEnd` is last, and turns, messages and tool executions are closed in
between. -/
def WellFormed (log : List AgentEvent) : Prop :=
  scan log = some .ended

instance (log : List AgentEvent) : Decidable (WellFormed log) :=
  inferInstanceAs (Decidable (scan log = some .ended))

def messageOpen (log : List AgentEvent) : Bool :=
  log.foldl (fun isOpen event =>
    match event with
    | .messageStart _ => true
    | .messageEnd _ => false
    | _ => isOpen) false

/-- `AgentStart` has been emitted, and `AgentEnd` not yet. -/
def RunOpen (log : List AgentEvent) : Prop :=
  log ≠ [] ∧ ∀ messages, .agentEnd messages ∉ log

theorem scan_append (log : List AgentEvent) (event : AgentEvent) :
    scan (log ++ [event]) = (scan log).bind fun progress => progress.next event := by
  unfold scan
  rw [List.foldlM_append]
  simp only [List.foldlM_cons, List.foldlM_nil, bind_pure]
  rfl

theorem messageOpen_append (log : List AgentEvent) (event : AgentEvent) :
    messageOpen (log ++ [event]) =
      match event with
      | .messageStart _ => true
      | .messageEnd _ => false
      | _ => messageOpen log := by
  unfold messageOpen
  rw [List.foldl_append]
  rfl

def AgentEvent.IsInner : AgentEvent → Prop
  | .agentStart | .agentEnd _ => False
  | _ => True

variable {event : AgentEvent} {now later : Open} {log : List AgentEvent}

theorem Open.isInner_of_next (hNext : now.next event = some later) :
    event.IsInner := by
  cases event with
  | agentStart | agentEnd messages => cases hNext
  | _ => trivial

theorem Open.message_next (hNext : now.next event = some later) :
    later.message =
      match event with
      | .messageStart _ => true
      | .messageEnd _ => false
      | _ => now.message := by
  cases event <;> grind [Open.next]

def Progress.Describes : Progress → List AgentEvent → Prop
  | idle, log => log = []
  | running now, log =>
    ∃ inner, log = .agentStart :: inner ∧ (∀ event ∈ inner, event.IsInner) ∧ messageOpen log = now.message
  | ended, log =>
    ∃ inner messages, log = .agentStart :: inner ++ [.agentEnd messages] ∧ ∀ event ∈ inner, event.IsInner

theorem Progress.describes_next {progress later : Progress} (hDescribes : progress.Describes log)
    (hNext : progress.next event = some later) :
    later.Describes (log ++ [event]) := by
  unfold Progress.next at hNext
  split at hNext
  next =>
    cases hNext
    rw [hDescribes]
    exact ⟨[], rfl, by simp, rfl⟩
  next now messages =>
    obtain ⟨inner, rfl, hInner, -⟩ := hDescribes
    split at hNext
    · cases hNext
      exact ⟨inner, messages, rfl, hInner⟩
    · cases hNext
  next now _ _ =>
    obtain ⟨inner, rfl, hInner, hOpen⟩ := hDescribes
    obtain ⟨after, hAfter, rfl⟩ := Option.map_eq_some_iff.mp hNext
    refine ⟨inner ++ [event], rfl, ?_, ?_⟩
    · intro other hMem
      obtain hMem | hMem := List.mem_append.mp hMem
      · exact hInner other hMem
      · rw [List.mem_singleton.mp hMem]
        exact Open.isInner_of_next hAfter
    · rw [messageOpen_append, Open.message_next hAfter]
      cases event <;> first | rfl | exact hOpen
  next => cases hNext

theorem scan_describes {progress : Progress} (hScan : scan log = some progress) :
    progress.Describes log := by
  induction log using List.reverseRecOn generalizing progress with
  | nil =>
    cases hScan
    exact rfl
  | append_singleton log event ih =>
    rw [scan_append] at hScan
    obtain ⟨before, hBefore, hNext⟩ := Option.bind_eq_some_iff.mp hScan
    exact Progress.describes_next (ih hBefore) hNext

theorem messageOpen_of_scan {now : Open} (hScan : scan log = some (.running now)) :
    messageOpen log = now.message := by
  obtain ⟨inner, -, -, hOpen⟩ := scan_describes hScan
  exact hOpen

end PrimeAgent.Agent

/-! ## One run among others

A run sees the agent's state, its own abort signal and its listeners. What others do between two of its calls are moves;
how a call may be answered is what the hooks, the stream, the tools and the agent's lock allow. A condition cuts both
down to the runs a result is about.
-/
namespace PrimeAgent.Agent

inductive RunPhase where
  | waiting | active | settled
deriving DecidableEq

structure ToolUpdate where
  toolCallId : String
  toolName : String
  args : Json
  partialResult : AgentToolResult
deriving DecidableEq

def ToolUpdate.event (update : ToolUpdate) : AgentEvent :=
  .toolExecutionUpdate update.toolCallId update.toolName update.args update.partialResult

structure World where
  phase : RunPhase
  state : AgentState
  /-- The agent's context as the run took it over. -/
  taken : AgentContext
  /-- The events the run's listeners have been given. -/
  log : List AgentEvent
  aborted : Bool
  strays : List ToolUpdate

namespace World

def record (w : World) (event : AgentEvent) : World :=
  { w with state := w.state.processEvents event, log := w.log ++ [event] }

/-- `set_system_prompt`, `set_model` and `set_tools`. -/
def configure (w : World) (systemPrompt : String) (model : Model) (tools : List AgentTool) : World :=
  { w with state := { w.state with systemPrompt, model, tools } }

end World

/-- What others do: abort the run, let a stray update through to its listeners, set the agent up anew, or, before the
run has registered, anything to the agent's state. -/
inductive Move : World → World → Prop
  | abort {w : World} (hActive : w.phase = .active) : Move w { w with aborted := true }
  | stray {w : World} {front back : List ToolUpdate} {update : ToolUpdate} (hActive : w.phase = .active)
      (hStrays : w.strays = front ++ update :: back) :
      Move w { w.record update.event with strays := front ++ back }
  | configure {w : World} (systemPrompt : String) (model : Model) (tools : List AgentTool) :
      Move w (w.configure systemPrompt model tools)
  | others {w : World} (state : AgentState) (strays : List ToolUpdate) (hWaiting : w.phase = .waiting) :
      Move w { w with state, strays }

def Operation.CanFail : Operation → Prop
  | ready | nextEvent | poll _ => False
  | _ => True

def RaceAnswers (aborted : Bool) : (operation : Operation) → Except AgentError operation.Value → Prop
  | operation, .error error => if aborted then error = .aborted else operation.CanFail
  | .poll (.initialSteering true), .ok messages => aborted = false ∧ messages = []
  | _, .ok _ => aborted = false

def Answers (w : World) : (call : Call) → call.Answer → World → Prop
  | .emit event, _, w' => w' = w.record event
  | .isAborted, answer, w' | .throwIfAborted _, answer, w' => answer = w.aborted ∧ w' = w
  | .race operation, answer, w' => RaceAnswers w.aborted operation answer ∧ w' = w
  | .executeTool _, .returned result, w' => (w.aborted = true → result = .error .aborted) ∧ w' = w
  | .awaitUpdates _, .settled, w' => w.aborted = false ∧ w' = w
  | .awaitUpdates _, .aborted, w' => w.aborted = true ∧ ∃ held, w' = { w with strays := w.strays ++ held }
  | .lastMessage, answer, w' => answer = w.state.messages.getLast? ∧ w' = w
  | .stateModel, answer, w' => answer = w.state.model ∧ w' = w
  | .register _, true, w' => w.phase = .waiting ∧ w' = { w with phase := .active, log := [], aborted := false }
  | .startRun, _, w' => w' = { w with state := w.state.startRun }
  | .snapshot _, answer, w' =>
    answer.context = w.state.snapshot ∧ answer.model = w.state.model ∧ w' = { w with taken := w.state.snapshot }
  | .recordError text, _, w' => w' = { w with state := { w.state with errorMessage := some text } }
  | .finishRun, _, w' => w' = { w with state := w.state.finishRun, phase := .settled }
  | _, _, w' => w' = w

structure Condition where
  move : World → World → Prop
  answer : World → (call : Call) → call.Answer → Prop

def Steps (C : Condition) (w : World) (call : Call) (answer : call.Answer) (w' : World) : Prop :=
  ∃ w₁, Relation.ReflTransGen (fun u v => Move u v ∧ C.move u v) w w₁ ∧
    C.answer w₁ call answer ∧ Answers w₁ call answer w'

/-! ## Conditions -/

def Call.Hands (Handed : AgentMessage → Prop) : (call : Call) → call.Answer → Prop
  | .race (.poll _), .ok messages | .race (.getContinuationMessages _), .ok messages =>
    ∀ message ∈ messages, Handed message
  | .drainSteering, messages | .drainFollowUp, messages => ∀ message ∈ messages, Handed message
  | _, _ => True

theorem Call.Hands.mono {Handed Handed' : AgentMessage → Prop} {call : Call} {answer : call.Answer}
    (hHands : call.Hands Handed answer) (hMono : ∀ message, Handed message → Handed' message) :
    call.Hands Handed' answer := by
  unfold Call.Hands at hHands ⊢
  split
  · exact fun message hMem => hMono _ (hHands message hMem)
  · exact fun message hMem => hMono _ (hHands message hMem)
  · exact fun message hMem => hMono _ (hHands message hMem)
  · exact fun message hMem => hMono _ (hHands message hMem)
  · trivial

/-- Any run whose polls and drains hand it only messages that are `Handed`. -/
def handing (Handed : AgentMessage → Prop) : Condition :=
  { move := fun _ _ => True, answer := fun _ call answer => call.Hands Handed answer }

def Operation.Propagates : Operation → Prop
  | transformContext _ | convertToLlm _ | getApiKey _ | openStream .. | streamResult | shouldStopAfterTurn _
  | getContinuationMessages _ => True
  | _ => False

/-- No run ends through its failure handler, no message starts within another, and a continuation has a message to
continue from. -/
def OrderlyAnswer (w : World) : (call : Call) → call.Answer → Prop
  | .throwIfAborted .turn, answer => answer = false
  | .race (.poll (.initialSteering _)), .error _ => False
  | .race operation, .error error => operation.Propagates → error = .aborted ∧ w.aborted = true
  | .race .nextEvent, .ok (some (.start _)) => messageOpen w.log = false
  | .snapshot true, answer => ∃ last, answer.context.messages.getLast? = some last ∧ last.role ≠ "assistant"
  | _, _ => True

/-- Besides, a stray update reaches the listeners only between `AgentStart` and `AgentEnd`. -/
def orderly : Condition :=
  { move := fun w w' => w'.log = w.log ∨ RunOpen w.log, answer := OrderlyAnswer }

end PrimeAgent.Agent
