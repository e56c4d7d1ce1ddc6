import PrimeAgent.Types.Json

/-! # Streamed updates and the frames of a session

A turn parks its streamed updates in one slot, and sends every other frame at once, after the parked update. Each frame
is numbered under the core lock and handed to the event pump after the lock is free again.
-/
namespace PrimeAgent.Worker

structure DaemonEventMeta where
  id : String
  activeSessionId : String
  sequence : Nat
  generation : String
deriving DecidableEq

def createDaemonEventMeta (activeSessionId : String) (sequence : Nat) (generation : String) : DaemonEventMeta :=
  { id := activeSessionId ++ ":" ++ toString sequence, activeSessionId, sequence, generation }

inductive DaemonSessionClosedReason where
  | killed | shutdown | completed | replaced | update
deriving DecidableEq

inductive DaemonOutbound where
  | sessionEvent (activeSessionId : String) (event : Json) (eventMeta : DaemonEventMeta)
  | sessionClosed (activeSessionId : String) (reason : DaemonSessionClosedReason) (eventMeta : DaemonEventMeta)
deriving DecidableEq

def DaemonOutbound.sequence : DaemonOutbound → Nat
  | .sessionEvent _ _ eventMeta | .sessionClosed _ _ eventMeta => eventMeta.sequence

/-! ## The coalescer -/

/-- A message of the loop comes with what `session_wire_value` makes of it. -/
inductive AssistantSnapshot where
  | wire (value : Json)
  | loop (sessionWireValue : Option Json)

def AssistantSnapshot.intoWire : AssistantSnapshot → Option Json
  | .wire value => some value
  | .loop sessionWireValue => sessionWireValue

structure SessionIdentity where
  activeSessionId : String
  generation : String

structure PendingUpdate where
  message : AssistantSnapshot
  kind : String
  delta : String
  sequence : Nat

structure CoalescerInner where
  pending : Option PendingUpdate
  closed : Bool

namespace CoalescerInner

def empty : CoalescerInner :=
  { pending := none, closed := false }

/-- `none` once the turn has ended. -/
def parkUpdate (inner : CoalescerInner) (message : AssistantSnapshot) (kind delta : String) (sequence : Nat) :
    Option CoalescerInner :=
  if inner.closed then none
  else match inner.pending with
    | some pending =>
      if pending.kind = kind then
        some { inner with pending := some { pending with delta := pending.delta ++ delta, message, sequence } }
      else some { inner with pending := some { message, kind, delta, sequence } }
    | none => some { inner with pending := some { message, kind, delta, sequence } }

def close (_ : CoalescerInner) : CoalescerInner :=
  { closed := true, pending := none }

end CoalescerInner

def PendingUpdate.event (pending : PendingUpdate) (message : Json) : Json :=
  let update := [("type", .string "message_update"), ("message", message)]
  if pending.kind = "" then .object update
  else
    let streamEvent := [("type", .string pending.kind)] ++
      (if pending.delta = "" then [] else [("delta", .string pending.delta)])
    .object (update ++ [("assistantMessageEvent", .object streamEvent)])

def PendingUpdate.frame (session : SessionIdentity) (pending : PendingUpdate) : Option DaemonOutbound :=
  pending.message.intoWire.map fun message =>
    .sessionEvent session.activeSessionId (pending.event message)
      (createDaemonEventMeta session.activeSessionId pending.sequence session.generation)

/-- What `flush_locked` sends; it leaves the slot empty. -/
def CoalescerInner.flushed (session : SessionIdentity) (inner : CoalescerInner) : List DaemonOutbound :=
  (inner.pending.bind (PendingUpdate.frame session)).toList

/-! ## Numbering -/

abbrev SessionActionSnapshot := Json

structure SessionCore where
  activeSessionId : String
  generation : String
  lastEventSequence : Nat
  lastActionSnapshot : Option SessionActionSnapshot

namespace SessionCore

def nextMeta (core : SessionCore) : DaemonEventMeta :=
  createDaemonEventMeta core.activeSessionId (core.lastEventSequence + 1) core.generation

def advance (core : SessionCore) : SessionCore :=
  { core with lastEventSequence := core.lastEventSequence + 1 }

def stampFrames (core : SessionCore) : List Json → List DaemonOutbound × SessionCore
  | [] => ([], core)
  | event :: events =>
    let (payloads, core') := core.advance.stampFrames events
    (.sessionEvent core.activeSessionId event core.nextMeta :: payloads, core')

def actionUpdateEvent (snapshot : SessionActionSnapshot) : Json :=
  .object [("type", .string "session_action_update"), ("actions", snapshot)]

def actionFrame (core : SessionCore) : Option SessionActionSnapshot → List Json × SessionCore
  | some snapshot =>
    if core.lastActionSnapshot = some snapshot then ([], core)
    else ([actionUpdateEvent snapshot], { core with lastActionSnapshot := some snapshot })
  | none => ([], core)

end SessionCore

/-! ## The turn's emit path -/

inductive TurnEvent where
  | assistantUpdate (message : AssistantSnapshot) (streamEvent : Option Json)
  | frames (frames : List Json)

/-- An update waits in the slot, unless it starts a message or settles a run of deltas. -/
inductive TurnFrames where
  | parked (message : AssistantSnapshot) (kind delta : String)
  | direct (frames : List Json)

def TurnEvent.route : TurnEvent → TurnFrames
  | .assistantUpdate message streamEvent =>
    let streamKind := streamEvent.bind fun event => (event.get "type").bind Json.asStr
    let startsMessage := streamKind = some "start"
    let settlesRun := streamKind ∈ [some "text_end", some "thinking_end", some "toolcall_end"]
    if ¬startsMessage ∧ ¬settlesRun then
      .parked message (streamKind.getD "")
        ((streamEvent.bind fun event => (event.get "delta").bind Json.asStr).getD "")
    else match message.intoWire with
      | some value =>
        let event := [("type", .string (if startsMessage then "message_start" else "message_update")),
          ("message", value)]
        .direct [.object (event ++ (streamEvent.map fun streamEvent => ("assistantMessageEvent", streamEvent)).toList)]
      | none => .direct []
  | .frames events => .direct events

/-- Where the turn's emit path is: the core lock is held while it has frames to number, the coalescer's while it sends
them. -/
inductive TurnPhase where
  | idle
  | framing (frames : List Json) (action : Option SessionActionSnapshot)
  | stamped (payloads : List DaemonOutbound)
  | sending (payloads : List DaemonOutbound)
  | joined

def TurnPhase.HoldsCore : TurnPhase → Prop
  | .framing .. => True
  | _ => False

def TurnPhase.HoldsInner : TurnPhase → Prop
  | .sending _ => True
  | _ => False

/-! ## Worker-level emitters -/

/-- `emit_worker_event_with`, `emit_turn_event`, `emit_action_update` and `emit_session_closed`. -/
inductive Emission where
  | workerEvent (event : Json)
  | turnEvent (activeSessionId : String) (event : Json)
  | actionUpdate (snapshot : SessionActionSnapshot)
  | sessionClosed (activeSessionId : String) (reason : DaemonSessionClosedReason)

def SessionCore.emission (core : SessionCore) : Emission → Option DaemonOutbound × SessionCore
  | .workerEvent event => (some (.sessionEvent core.activeSessionId event core.nextMeta), core.advance)
  | .turnEvent activeSessionId event => (some (.sessionEvent activeSessionId event core.nextMeta), core.advance)
  | .actionUpdate snapshot =>
    if core.lastActionSnapshot = some snapshot then (none, core)
    else
      (some (.sessionEvent core.activeSessionId (actionUpdateEvent snapshot) core.nextMeta),
        { core.advance with lastActionSnapshot := some snapshot })
  | .sessionClosed activeSessionId reason =>
    (some (.sessionClosed activeSessionId reason core.nextMeta), core.advance)

/-! ## All emitters of a session -/

structure Emitters where
  core : SessionCore
  session : SessionIdentity
  inner : CoalescerInner
  turn : TurnPhase
  /-- The frames that worker-level emitters have numbered and not yet sent. -/
  held : List DaemonOutbound
  /-- The frames that have reached the event pump. -/
  wire : List DaemonOutbound

namespace Emitters

def accept (s : Emitters) (event : TurnEvent) (action : Option SessionActionSnapshot) : Emitters :=
  match event.route with
  | .parked message kind delta =>
    match s.inner.parkUpdate message kind delta (s.core.lastEventSequence + 1) with
    | some inner => { s with core := s.core.advance, inner, turn := .framing [] action }
    | none => { s with core := s.core.advance }
  | .direct frames => { s with turn := .framing frames action }

def frame (s : Emitters) (frames : List Json) (action : Option SessionActionSnapshot) : Emitters :=
  let (actionFrames, core) := s.core.actionFrame action
  let (payloads, core) := core.stampFrames (frames ++ actionFrames)
  { s with core, turn := if payloads = [] then .idle else .stamped payloads }

/-- `flush_locked`, and what the turn does next. -/
def flush (s : Emitters) (turn : TurnPhase) : Emitters :=
  { s with inner := { s.inner with pending := none }, turn, wire := s.wire ++ s.inner.flushed s.session }

end Emitters

inductive Step : Emitters → List DaemonOutbound → Emitters → Prop
  | accept {s : Emitters} (event : TurnEvent) (action : Option SessionActionSnapshot) (hIdle : s.turn = .idle) :
      Step s [] (s.accept event action)
  | frame {s : Emitters} {frames : List Json} {action : Option SessionActionSnapshot}
      (hFraming : s.turn = .framing frames action) : Step s [] (s.frame frames action)
  | sendDirect {s : Emitters} {payloads : List DaemonOutbound} (hStamped : s.turn = .stamped payloads) :
      Step s (s.inner.flushed s.session) (s.flush (.sending payloads))
  | send {s : Emitters} {payload : DaemonOutbound} {payloads : List DaemonOutbound}
      (hSending : s.turn = .sending (payload :: payloads)) :
      Step s [payload]
        { s with turn := if payloads = [] then .idle else .sending payloads, wire := s.wire ++ [payload] }
  | flushPending {s : Emitters} (hFree : ¬s.turn.HoldsInner) (hOpen : s.inner.closed = false) :
      Step s (s.inner.flushed s.session) (s.flush s.turn)
  | close {s : Emitters} (hIdle : s.turn = .idle) : Step s [] { s with inner := s.inner.close, turn := .joined }
  | stamp {s : Emitters} (emission : Emission) (hFree : ¬s.turn.HoldsCore) :
      Step s []
        { s with core := (s.core.emission emission).2, held := s.held ++ (s.core.emission emission).1.toList }
  | deliver {s : Emitters} {front back : List DaemonOutbound} {payload : DaemonOutbound}
      (hHeld : s.held = front ++ payload :: back) :
      Step s [payload] { s with held := front ++ back, wire := s.wire ++ [payload] }

end PrimeAgent.Worker
