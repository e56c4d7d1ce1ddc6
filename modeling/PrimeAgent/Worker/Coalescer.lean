import PrimeAgent.Worker.Streaming
import Mathlib.Data.List.Induction

/-! # What the coalescer broadcasts of a turn

The slot keeps one run of deltas. Where a run is settled by a direct frame before another kind is parked, no delta text is
lost.
-/
namespace PrimeAgent.Worker.Coalescer

inductive Op where
  | parkUpdate (message : AssistantSnapshot) (kind delta : String) (sequence : Nat)
  | sendDirect (payloads : List DaemonOutbound)
  | flushPending
  | close

inductive Sent where
  | update (frame : DaemonOutbound)
  | direct (payload : DaemonOutbound)

structure State where
  inner : CoalescerInner
  sent : List Sent

def flushLocked (session : SessionIdentity) (s : State) : State :=
  { inner := { s.inner with pending := none }
    sent := s.sent ++ (s.inner.flushed session).map .update }

def step (session : SessionIdentity) (s : State) : Op → State
  | .parkUpdate message kind delta sequence =>
    match s.inner.parkUpdate message kind delta sequence with
    | some inner => { s with inner }
    | none => s
  | .sendDirect payloads =>
    let s := flushLocked session s
    { s with sent := s.sent ++ payloads.map .direct }
  | .flushPending => if s.inner.closed then s else flushLocked session s
  | .close => { s with inner := s.inner.close }

def run (session : SessionIdentity) (ops : List Op) : State :=
  ops.foldl (step session) ⟨.empty, []⟩

/-! ## What was parked -/

/-- The updates taken so far, those already flushed first, and the kind and the text of what was parked since the last direct
frame. -/
structure Track where
  flushed : List PendingUpdate
  waiting : List PendingUpdate
  closed : Bool
  open' : Option (String × String)

def Track.step (t : Track) : Op → Track
  | .parkUpdate message kind delta sequence =>
    if t.closed then t
    else
      { t with
        waiting := t.waiting ++ [⟨message, kind, delta, sequence⟩]
        open' := match t.open' with
          | some (kind', text) => if kind' = kind then some (kind, text ++ delta) else some (kind, delta)
          | none => some (kind, delta) }
  | .sendDirect _ => { t with flushed := t.flushed ++ t.waiting, waiting := [], open' := none }
  | .flushPending => { t with flushed := t.flushed ++ t.waiting, waiting := [] }
  | .close => { t with waiting := [], closed := true }

def track (ops : List Op) : Track :=
  ops.foldl Track.step ⟨[], [], false, none⟩

def Settles (ops : List Op) : Prop :=
  ∀ before message kind delta sequence, before ++ [.parkUpdate message kind delta sequence] <+: ops →
    ∀ kind' text, (track before).open' = some (kind', text) → kind' ≠ kind → text = ""

def Convertible (ops : List Op) : Prop :=
  ∀ message kind delta sequence, .parkUpdate message kind delta sequence ∈ ops → ∃ value, message.intoWire = some value

def deltas (kind : String) (updates : List PendingUpdate) : String :=
  updates.foldr (fun update text => if update.kind = kind then update.delta ++ text else text) ""

def streamEvent (event : Json) : Option Json :=
  event.get "assistantMessageEvent"

def Sent.delta (kind : String) : Sent → String
  | .update (.sessionEvent _ event _) =>
    if ((streamEvent event).bind (·.get "type")).bind Json.asStr = some kind
    then (((streamEvent event).bind (·.get "delta")).bind Json.asStr).getD ""
    else ""
  | _ => ""

def sentDeltas (kind : String) (sent : List Sent) : String :=
  sent.foldr (fun frame text => frame.delta kind ++ text) ""

def parked (ops : List Op) : List PendingUpdate :=
  ops.filterMap fun
    | .parkUpdate message kind delta sequence => some ⟨message, kind, delta, sequence⟩
    | _ => none

def Op.flushes : Op → Bool
  | .sendDirect _ | .flushPending => true
  | _ => false

def Op.payloads : Op → List DaemonOutbound
  | .sendDirect payloads => payloads
  | _ => []

def Carries (session : SessionIdentity) (update : PendingUpdate) (frame : DaemonOutbound) : Prop :=
  ∃ message event, update.message.intoWire = some message ∧ event.get "message" = some message ∧
    frame = .sessionEvent session.activeSessionId event
      (createDaemonEventMeta session.activeSessionId update.sequence session.generation)

/-- What a call broadcasts: a flushed update, with the newest snapshot and all text that waited, before the direct frames. -/
structure Broadcasts (session : SessionIdentity) (ops : List Op) (op : Op) (updates : List DaemonOutbound) : Prop where
  sent : (run session (ops ++ [op])).sent = (run session ops).sent ++ updates.map .update ++ op.payloads.map .direct
  newest : ∀ frame ∈ updates, ∃ newest, (parked ops).getLast? = some newest ∧ Carries session newest frame
  complete : .close ∉ ops → op.flushes = true → ∀ kind, kind ≠ "" →
    sentDeltas kind ((run session ops).sent ++ updates.map .update) = deltas kind (parked ops)
  closed : .close ∈ ops → updates = []

section Texts

variable {kind : String} {updates : List PendingUpdate}

theorem deltas_cons (kind : String) (update : PendingUpdate) (updates : List PendingUpdate) :
    deltas kind (update :: updates) =
      if update.kind = kind then update.delta ++ deltas kind updates else deltas kind updates := rfl

theorem deltas_append (kind : String) (updates more : List PendingUpdate) :
    deltas kind (updates ++ more) = deltas kind updates ++ deltas kind more := by
  induction updates with
  | nil => exact String.empty_append.symm
  | cons update updates ih =>
    rw [List.cons_append, deltas_cons, deltas_cons, ih]
    split
    · exact String.append_assoc.symm
    · rfl

theorem deltas_concat (kind : String) (updates : List PendingUpdate) (update : PendingUpdate) :
    deltas kind (updates ++ [update]) = deltas kind updates ++ if update.kind = kind then update.delta else "" := by
  rw [deltas_append, deltas_cons]
  refine congrArg (deltas kind updates ++ ·) ?_
  split
  · exact String.append_empty
  · rfl

theorem sentDeltas_cons (kind : String) (frame : Sent) (sent : List Sent) :
    sentDeltas kind (frame :: sent) = frame.delta kind ++ sentDeltas kind sent := rfl

theorem sentDeltas_append (kind : String) (sent more : List Sent) :
    sentDeltas kind (sent ++ more) = sentDeltas kind sent ++ sentDeltas kind more := by
  induction sent with
  | nil => exact String.empty_append.symm
  | cons frame sent ih =>
    rw [List.cons_append, sentDeltas_cons, sentDeltas_cons, ih]
    exact String.append_assoc.symm

theorem sentDeltas_direct (kind : String) (payloads : List DaemonOutbound) : sentDeltas kind (payloads.map .direct) = "" := by
  induction payloads with
  | nil => rfl
  | cons payload payloads ih =>
    rw [List.map_cons, sentDeltas_cons, ih]
    rfl

theorem nil_ne_concat (init : List PendingUpdate) (last : PendingUpdate) : [] ≠ init ++ [last] :=
  fun h => List.cons_ne_nil last [] (List.append_eq_nil_iff.mp h.symm).2

theorem append_eq_empty {text text' : String} (h : text ++ text' = "") : text' = "" := by
  have hList := congrArg String.toList h
  rw [String.toList_append] at hList
  exact String.toList_injective (List.append_eq_nil_iff.mp hList).2

end Texts

section Frames

variable {session : SessionIdentity} {pending : PendingUpdate} {value : Json} {kind : String} {inner : CoalescerInner}

theorem event_message (pending : PendingUpdate) (value : Json) : (pending.event value).get "message" = some value := by
  rw [PendingUpdate.event]
  split <;> rfl

theorem frame_delta (hKind : kind ≠ "") (id : String) (eventMeta : DaemonEventMeta) :
    Sent.delta kind (.update (.sessionEvent id (pending.event value) eventMeta)) =
      if pending.kind = kind then pending.delta else "" := by
  rw [Sent.delta]
  rcases Classical.em (pending.kind = "") with hNone | hSome
  · have hEvent : streamEvent (pending.event value) = none := by
      rw [PendingUpdate.event, if_pos hNone]
      rfl
    rw [hEvent, if_neg (by simp), if_neg (by rw [hNone]; exact hKind.symm)]
  · have hEvent : streamEvent (pending.event value) = some (.object ([("type", .string pending.kind)] ++
        if pending.delta = "" then [] else [("delta", .string pending.delta)])) := by
      rw [PendingUpdate.event, if_neg hSome]
      rfl
    have hType : ((streamEvent (pending.event value)).bind (·.get "type")).bind Json.asStr = some pending.kind := by
      rw [hEvent]
      rfl
    have hDelta : (((streamEvent (pending.event value)).bind (·.get "delta")).bind Json.asStr).getD "" = pending.delta := by
      rw [hEvent]
      split
      · rename_i hEmpty
        exact hEmpty.symm
      · rfl
    rw [hType, hDelta]
    split
    · rename_i hSame
      rw [if_pos (Option.some.inj hSame)]
    · rename_i hOther
      rw [if_neg fun h => hOther (congrArg some h)]

theorem flushed_some (hPending : inner.pending = some pending) (hValue : pending.message.intoWire = some value) :
    inner.flushed session =
      [.sessionEvent session.activeSessionId (pending.event value)
        (createDaemonEventMeta session.activeSessionId pending.sequence session.generation)] := by
  rw [CoalescerInner.flushed, hPending, Option.bind_some, PendingUpdate.frame, hValue]
  rfl

theorem flushed_none (hPending : inner.pending = none) : inner.flushed session = [] := by
  rw [CoalescerInner.flushed, hPending]
  rfl

end Frames

section Runs

variable {session : SessionIdentity} {s : State} {t : Track} {ops : List Op} {op : Op} {ops more : List Op}

structure Holds (s : State) (t : Track) : Prop where
  closed : s.inner.closed = t.closed
  empty : t.waiting = [] → s.inner.pending = none
  parked : ∀ init last, t.waiting = init ++ [last] →
    s.inner.pending = some { last with delta := deltas last.kind t.waiting } ∧
      (∀ kind, kind ≠ last.kind → deltas kind t.waiting = "") ∧
      ∃ text, t.open' = some (last.kind, text ++ deltas last.kind t.waiting)
  sent : ∀ kind, kind ≠ "" → sentDeltas kind s.sent = deltas kind t.flushed
  dropped : t.closed = true → t.waiting = []
  convertible : ∀ update ∈ t.waiting, ∃ value, update.message.intoWire = some value

theorem flushed_holds (session : SessionIdentity) (hHolds : Holds s t) :
    (∀ kind, kind ≠ "" → sentDeltas kind ((s.inner.flushed session).map .update) = deltas kind t.waiting) ∧
      (∀ frame ∈ s.inner.flushed session, ∃ newest, t.waiting.getLast? = some newest ∧ Carries session newest frame) ∧
      (t.waiting = [] → s.inner.flushed session = []) := by
  rcases List.eq_nil_or_concat t.waiting with hNone | ⟨init, last, hSome⟩
  · rw [flushed_none (hHolds.empty hNone), hNone]
    exact ⟨fun _ _ => rfl, fun _ hMem => (nomatch hMem), fun _ => rfl⟩
  · rw [List.concat_eq_append] at hSome
    obtain ⟨hPending, hOthers, -⟩ := hHolds.parked init last hSome
    obtain ⟨value, hValue⟩ := hHolds.convertible last (hSome ▸ List.mem_append_right init (List.mem_singleton.mpr rfl))
    rw [flushed_some hPending hValue]
    refine ⟨fun kind hKind => ?_, fun frame hMem => ⟨last, ?_, value, _, hValue, event_message _ value, List.mem_singleton.mp hMem⟩,
      fun hNil => ?_⟩
    · rw [List.map_singleton, sentDeltas_cons, frame_delta hKind]
      refine String.append_empty.trans ?_
      dsimp only
      split
      · rename_i hSame
        rw [hSame]
      · rename_i hOther
        exact (hOthers kind (Ne.symm hOther)).symm
    · rw [hSome, List.getLast?_concat]
    · rw [hNil] at hSome
      exact absurd hSome.symm (by simp)

theorem flush_holds (session : SessionIdentity) (hHolds : Holds s t) (open' : Option (String × String)) :
    Holds (flushLocked session s) { t with flushed := t.flushed ++ t.waiting, waiting := [], open' } where
  closed := hHolds.closed
  empty := fun _ => rfl
  parked := fun init last h => absurd h (nil_ne_concat init last)
  sent := fun kind hKind => by
    dsimp only [flushLocked]
    rw [sentDeltas_append, hHolds.sent kind hKind, (flushed_holds session hHolds).1 kind hKind, deltas_append]
  dropped := fun _ => rfl
  convertible := fun _ hMem => nomatch hMem

theorem sent_holds (hHolds : Holds s t) (payloads : List DaemonOutbound) :
    Holds { s with sent := s.sent ++ payloads.map .direct } t where
  closed := hHolds.closed
  empty := hHolds.empty
  parked := hHolds.parked
  sent := fun kind hKind => by
    dsimp only
    rw [sentDeltas_append, sentDeltas_direct]
    exact String.append_empty.trans (hHolds.sent kind hKind)
  dropped := hHolds.dropped
  convertible := hHolds.convertible

theorem park_run (session : SessionIdentity) (hHolds : Holds s t) {kind : String} (hOpen : t.closed = false)
    (hSettles : ∀ kind' text, t.open' = some (kind', text) → kind' ≠ kind → text = "") (sequence : Nat)
    (message : AssistantSnapshot) (delta : String) :
    step session s (.parkUpdate message kind delta sequence) =
        { s with inner := { s.inner with pending := some ⟨message, kind, deltas kind t.waiting ++ delta, sequence⟩ } } ∧
      (∀ kind', kind' ≠ kind → deltas kind' t.waiting = "") ∧
      ∃ text, (t.step (.parkUpdate message kind delta sequence)).open' =
        some (kind, text ++ (deltas kind t.waiting ++ delta)) := by
  have hNotClosed : ¬ s.inner.closed = true := Bool.eq_false_iff.mp (hHolds.closed.trans hOpen)
  have hOpened : (t.step (.parkUpdate message kind delta sequence)).open' =
      match t.open' with
      | some (kind', text) => if kind' = kind then some (kind, text ++ delta) else some (kind, delta)
      | none => some (kind, delta) := by
    rw [Track.step, if_neg (Bool.eq_false_iff.mp hOpen)]
  have hFresh : ∃ text, some (kind, delta) = some (kind, text ++ ("" ++ delta)) :=
    ⟨"", by rw [String.empty_append, String.empty_append]⟩
  rw [step, CoalescerInner.parkUpdate, if_neg hNotClosed, hOpened]
  rcases List.eq_nil_or_concat t.waiting with hNone | ⟨init, last, hSome⟩
  · rw [hHolds.empty hNone, hNone]
    refine ⟨?_, fun _ _ => rfl, ?_⟩
    · have hText : deltas kind [] ++ delta = delta := String.empty_append
      rw [hText]
    · change ∃ text, _ = some (kind, text ++ ("" ++ delta))
      split
      · rename_i kind' text _
        split
        · exact ⟨text, by rw [String.empty_append]⟩
        · exact hFresh
      · exact hFresh
  · rw [List.concat_eq_append] at hSome
    obtain ⟨hPending, hOthers, text, hText⟩ := hHolds.parked init last hSome
    rw [hPending, hText]
    dsimp only
    rcases Classical.em (last.kind = kind) with rfl | hSwitch
    · rw [if_pos rfl, if_pos rfl]
      exact ⟨rfl, hOthers, text, by rw [String.append_assoc]⟩
    · have hEmpty := append_eq_empty (hSettles _ _ hText hSwitch)
      have hOwn : deltas kind t.waiting = "" := hOthers kind (Ne.symm hSwitch)
      rw [if_neg hSwitch, if_neg hSwitch, hOwn]
      refine ⟨by rw [String.empty_append], fun kind' hOther => ?_, hFresh⟩
      rcases Classical.em (kind' = last.kind) with rfl | hElse
      · exact hEmpty
      · exact hOthers kind' hElse

theorem park_holds (hHolds : Holds s t) {message : AssistantSnapshot} {kind delta : String} {sequence : Nat}
    (hOpen : t.closed = false) (hSettles : ∀ kind' text, t.open' = some (kind', text) → kind' ≠ kind → text = "")
    (hValue : ∃ value, message.intoWire = some value) :
    Holds (step session s (.parkUpdate message kind delta sequence)) (t.step (.parkUpdate message kind delta sequence)) := by
  have hNotClosed : s.inner.closed = false := hHolds.closed.trans hOpen
  have hWaiting : (t.step (.parkUpdate message kind delta sequence)).waiting = t.waiting ++ [⟨message, kind, delta, sequence⟩] := by
    rw [Track.step, if_neg (Bool.eq_false_iff.mp hOpen)]
  have hConvertible : ∀ update ∈ (t.step (.parkUpdate message kind delta sequence)).waiting,
      ∃ value, update.message.intoWire = some value := by
    intro update hMem
    rw [hWaiting] at hMem
    rcases List.mem_append.mp hMem with hMem | hMem
    · exact hHolds.convertible update hMem
    · rw [List.mem_singleton.mp hMem]
      exact hValue
  obtain ⟨hStep, hOthers, text, hText⟩ := park_run session hHolds hOpen hSettles sequence message delta
  have hOwn : deltas kind (t.waiting ++ [⟨message, kind, delta, sequence⟩]) = deltas kind t.waiting ++ delta := by
    rw [deltas_concat, if_pos rfl]
  rw [hStep]
  refine ⟨?_, fun h => ?_, fun init last h => ?_, ?_, fun h => ?_, hConvertible⟩
  · rw [Track.step, if_neg (Bool.eq_false_iff.mp hOpen)]
    exact hHolds.closed
  · rw [hWaiting] at h
    exact absurd h (by simp)
  · rw [hWaiting] at h ⊢
    obtain rfl := List.singleton_inj.mp (List.append_inj' h rfl).2
    refine ⟨?_, fun kind' hOther => ?_, text, ?_⟩
    · rw [hOwn]
    · rw [deltas_concat, hOthers kind' hOther, if_neg (Ne.symm hOther)]
      rfl
    · rw [hText, hOwn]
  · rw [Track.step, if_neg (Bool.eq_false_iff.mp hOpen)]
    exact hHolds.sent
  · rw [Track.step, if_neg (Bool.eq_false_iff.mp hOpen)] at h
    exact absurd (hOpen.symm.trans h) Bool.noConfusion

theorem run_concat (session : SessionIdentity) (ops : List Op) (op : Op) :
    run session (ops ++ [op]) = step session (run session ops) op := by
  rw [run, List.foldl_append, ← run]
  rfl

theorem track_concat (ops : List Op) (op : Op) : track (ops ++ [op]) = (track ops).step op := by
  rw [track, List.foldl_append, ← track]
  rfl

theorem step_holds (session : SessionIdentity) (hHolds : Holds s t) (op : Op)
    (hPark : ∀ message kind delta sequence, op = .parkUpdate message kind delta sequence →
      (∀ kind' text, t.open' = some (kind', text) → kind' ≠ kind → text = "") ∧ ∃ value, message.intoWire = some value) :
    Holds (step session s op) (t.step op) := by
  cases op with
  | parkUpdate message kind delta sequence =>
    obtain ⟨hSettles, hValue⟩ := hPark message kind delta sequence rfl
    cases hClosed : t.closed with
    | false => exact park_holds hHolds hClosed hSettles hValue
    | true =>
      rw [step, CoalescerInner.parkUpdate, if_pos (hHolds.closed.trans hClosed), Track.step, if_pos hClosed]
      exact hHolds
  | sendDirect payloads => exact sent_holds (flush_holds session hHolds none) payloads
  | flushPending =>
    rw [step]
    split
    · rename_i hClosed
      have hNone := hHolds.dropped (hHolds.closed.symm.trans hClosed)
      have hSame : t.step .flushPending = t := by
        rw [Track.step, hNone, List.append_nil]
        cases t
        dsimp only at hNone
        rw [hNone]
      rw [hSame]
      exact hHolds
    · exact flush_holds session hHolds t.open'
  | close =>
    exact {
      closed := rfl
      empty := fun _ => rfl
      parked := fun init last h => absurd h (nil_ne_concat init last)
      sent := hHolds.sent
      dropped := fun _ => rfl
      convertible := fun _ hMem => nomatch hMem }

theorem Settles.of_prefix (hSettles : Settles (ops ++ more)) : Settles ops :=
  fun before message kind delta sequence hBefore =>
    hSettles before message kind delta sequence (hBefore.trans (List.prefix_append ops more))

theorem Convertible.of_prefix (hConvertible : Convertible (ops ++ more)) : Convertible ops :=
  fun message kind delta sequence hMem => hConvertible message kind delta sequence (List.mem_append_left more hMem)

theorem run_holds (session : SessionIdentity) (ops : List Op) :
    Settles ops → Convertible ops → Holds (run session ops) (track ops) := by
  induction ops using List.reverseRecOn with
  | nil =>
    intro _ _
    exact {
      closed := rfl
      empty := fun _ => rfl
      parked := fun init last h => absurd h (nil_ne_concat init last)
      sent := fun _ _ => rfl
      dropped := fun h => nomatch h
      convertible := fun _ hMem => nomatch hMem }
  | append_singleton ops op ih =>
    intro hSettles hConvertible
    rw [run_concat, track_concat]
    refine step_holds session (ih hSettles.of_prefix hConvertible.of_prefix) op ?_
    rintro message kind delta sequence rfl
    refine ⟨hSettles ops message kind delta sequence List.prefix_rfl, ?_⟩
    exact hConvertible message kind delta sequence (List.mem_append_right ops (List.mem_singleton.mpr rfl))

theorem track_closed (ops : List Op) : (track ops).closed = true ↔ .close ∈ ops := by
  induction ops using List.reverseRecOn with
  | nil => exact iff_of_false (fun h => nomatch h) List.not_mem_nil
  | append_singleton ops op ih =>
    rw [track_concat, List.mem_append, List.mem_singleton, ← ih]
    cases op with
    | parkUpdate message kind delta sequence =>
      rw [Track.step]
      split
      · rename_i hClosed
        exact iff_of_true hClosed (Or.inl hClosed)
      · exact ⟨Or.inl, fun h => h.elim id fun h => nomatch h⟩
    | sendDirect payloads | flushPending => exact ⟨Or.inl, fun h => h.elim id fun h => nomatch h⟩
    | close => exact iff_of_true rfl (Or.inr rfl)

theorem track_parked (ops : List Op) : .close ∉ ops → (track ops).flushed ++ (track ops).waiting = parked ops := by
  induction ops using List.reverseRecOn with
  | nil => exact fun _ => rfl
  | append_singleton ops op ih =>
    intro hOpen
    rw [List.mem_append, not_or, List.mem_singleton] at hOpen
    have hBefore := ih hOpen.1
    rw [track_concat, parked, List.filterMap_append, ← parked, ← hBefore]
    cases op with
    | parkUpdate message kind delta sequence =>
      rw [Track.step, if_neg fun h => hOpen.1 ((track_closed ops).mp h)]
      exact (List.append_assoc ..).symm
    | sendDirect payloads => rfl
    | flushPending => rfl
    | close => exact absurd rfl hOpen.2

theorem newest_parked (hHolds : Holds s (track ops)) {newest : PendingUpdate}
    (hNewest : (track ops).waiting.getLast? = some newest) : (parked ops).getLast? = some newest := by
  have hOpen : .close ∉ ops := by
    intro hClose
    rw [hHolds.dropped ((track_closed ops).mpr hClose)] at hNewest
    cases hNewest
  rw [← track_parked ops hOpen, List.getLast?_append, hNewest]
  rfl

theorem park_sent (session : SessionIdentity) (s : State) (message : AssistantSnapshot) (kind delta : String) (sequence : Nat) :
    (step session s (.parkUpdate message kind delta sequence)).sent = s.sent := by
  rw [step]
  split <;> rfl

theorem broadcasts_nothing (hSent : (step session (run session ops) op).sent = (run session ops).sent)
    (hPayloads : op.payloads = []) (hIdle : .close ∈ ops ∨ op.flushes = false) : Broadcasts session ops op [] where
  sent := by
    rw [run_concat, hSent, hPayloads, List.map_nil, List.map_nil, List.append_nil, List.append_nil]
  newest := fun _ hMem => nomatch hMem
  complete := by
    intro hOpen hFlushes
    rcases hIdle with hClose | hNot
    · exact absurd hClose hOpen
    · exact absurd (hFlushes.symm.trans hNot) Bool.noConfusion
  closed := fun _ => rfl

theorem broadcasts_flush (hHolds : Holds (run session ops) (track ops))
    (hSent : (step session (run session ops) op).sent = (run session ops).sent ++
      ((run session ops).inner.flushed session).map .update ++ op.payloads.map .direct) :
    Broadcasts session ops op ((run session ops).inner.flushed session) where
  sent := by
    rw [run_concat, hSent]
  newest := by
    intro frame hMem
    obtain ⟨newest, hNewest, hCarries⟩ := (flushed_holds session hHolds).2.1 frame hMem
    exact ⟨newest, newest_parked hHolds hNewest, hCarries⟩
  complete := by
    intro hOpen _ kind hKind
    rw [sentDeltas_append, hHolds.sent kind hKind, (flushed_holds session hHolds).1 kind hKind, ← deltas_append,
      track_parked ops hOpen]
  closed := fun hClose => (flushed_holds session hHolds).2.2 (hHolds.dropped ((track_closed ops).mpr hClose))

theorem Settles.concat (hSettles : Settles ops) (hPark : ∀ message kind delta sequence,
    op = .parkUpdate message kind delta sequence →
      ∀ kind' text, (track ops).open' = some (kind', text) → kind' ≠ kind → text = "") : Settles (ops ++ [op]) := by
  intro before message kind delta sequence hBefore
  rcases List.prefix_concat_iff.mp hBefore with hLast | hEarlier
  · obtain ⟨rfl, hOp⟩ := List.append_inj' hLast rfl
    exact hPark message kind delta sequence (List.singleton_inj.mp hOp).symm
  · exact hSettles before message kind delta sequence hEarlier

def twoRuns : List Op :=
  [.parkUpdate (.wire .null) "text_delta" "The " 1] ++ [.parkUpdate (.wire .null) "text_delta" "Thames" 2] ++
    [.sendDirect []] ++ [.parkUpdate (.wire .null) "thinking_delta" "so" 3]

theorem twoRuns_settles : Settles (twoRuns ++ [.flushPending]) := by
  have hNil : Settles [] := fun before message kind delta sequence hBefore =>
    absurd (List.prefix_nil.mp hBefore) (by simp)
  refine Settles.concat (((Settles.concat hNil ?_).concat ?_).concat ?_ |>.concat ?_) ?_
  · exact fun _ _ _ _ _ _ _ hOpen => nomatch hOpen
  · rintro _ _ _ _ ⟨⟩ kind' text hOpen hOther
    obtain ⟨rfl, -⟩ := Prod.mk.inj (Option.some.inj hOpen)
    exact absurd rfl hOther
  · exact fun _ _ _ _ h => nomatch h
  · exact fun _ _ _ _ _ _ _ hOpen => nomatch hOpen
  · exact fun _ _ _ _ h => nomatch h

end Runs

end PrimeAgent.Worker.Coalescer
