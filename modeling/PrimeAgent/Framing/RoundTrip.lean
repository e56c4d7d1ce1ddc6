import PrimeAgent.Framing.Codec

/-! # Frames sent and frames delivered

What either writer sends for a list of frames is the stream of exactly these frames. The reader hands out what the decoder
delivers, and both lose the frames that a chunk completes ahead of a malformed one.
-/
namespace PrimeAgent.Framing

variable {serde : HeaderSerde} {limits : PrivateFrameLimits} {header : Json} {payload more : Bytes}
  {frame : PrivateFrame} {frames : List PrivateFrame} {outcome : Except String (Option PrivateFrame)}
  {reads : List Bytes}

/-! ## One frame -/

theorem fromBeBytes_toBeBytes {value : Nat} (hFits : value < 2 ^ 32) : fromBeBytes (toBeBytes value) = value := by
  unfold toBeBytes fromBeBytes
  simp only [List.foldl_cons, List.foldl_nil, UInt8.toNat_ofNat']
  omega

theorem assertFrameLength_ok {name : String} {value maximum : Nat} (hWithin : value ≤ maximum) :
    assertFrameLength name value maximum = .ok () :=
  if_neg (Nat.not_lt.mpr hWithin)

/-- A frame that the writers take and whose header `serde_json` keeps. -/
structure Sendable (serde : HeaderSerde) (limits : PrivateFrameLimits) (frame : PrivateFrame) : Prop where
  object : frame.header.isObject
  kept : serde.fromSlice (serde.toVec frame.header) = .ok frame.header
  some : serde.toVec frame.header ≠ []
  header : (serde.toVec frame.header).length ≤ limits.maxHeaderBytes
  payload : frame.payload.length ≤ limits.maxPayloadBytes

structure PrivateFrameLimits.Fit (limits : PrivateFrameLimits) : Prop where
  header : limits.maxHeaderBytes < 2 ^ 32
  payload : limits.maxPayloadBytes < 2 ^ 32

def frameBytes (serde : HeaderSerde) (frame : PrivateFrame) : Bytes :=
  lengthPrefix (serde.toVec frame.header) frame.payload ++ serde.toVec frame.header ++ frame.payload

theorem encodePrivateFrame_sendable (hSendable : Sendable serde limits frame) :
    encodePrivateFrame serde frame.header frame.payload limits = .ok (frameBytes serde frame) := by
  unfold encodePrivateFrame
  simp only [if_neg hSendable.some, assertFrameLength_ok hSendable.header, assertFrameLength_ok hSendable.payload]
  rfl

theorem parse_frameBytes (hFit : limits.Fit) (hSendable : Sendable serde limits frame) (more : Bytes) :
    parse serde limits (frameBytes serde frame ++ more) = .frame frame more := by
  obtain ⟨header, payload⟩ := frame
  obtain ⟨hObject, hKept, hSome, hHeader, hPayload⟩ := hSendable
  simp only at hObject hKept hSome hHeader hPayload
  have hHeaderLen : fromBeBytes ((frameBytes serde ⟨header, payload⟩ ++ more).take 4) = (serde.toVec header).length :=
    fromBeBytes_toBeBytes (Nat.lt_of_le_of_lt hHeader hFit.header)
  have hPayloadLen : fromBeBytes (((frameBytes serde ⟨header, payload⟩ ++ more).drop 4).take 4) = payload.length :=
    fromBeBytes_toBeBytes (Nat.lt_of_le_of_lt hPayload hFit.payload)
  have hBody : (frameBytes serde ⟨header, payload⟩ ++ more).drop framePrefixBytes =
      serde.toVec header ++ (payload ++ more) := by
    show serde.toVec header ++ payload ++ more = _
    rw [List.append_assoc]
  have hLength : (frameBytes serde ⟨header, payload⟩ ++ more).length =
      framePrefixBytes + (serde.toVec header).length + payload.length + more.length := by
    show (lengthPrefix (serde.toVec header) payload ++ serde.toVec header ++ payload ++ more).length = _
    rw [List.length_append, List.length_append, List.length_append]
    rfl
  have hLonger : ¬ (frameBytes serde ⟨header, payload⟩ ++ more).length < framePrefixBytes := by omega
  have hWhole : ¬ (frameBytes serde ⟨header, payload⟩ ++ more).length <
      framePrefixBytes + (serde.toVec header).length + payload.length := by omega
  have hNonzero : ¬ (serde.toVec header).length = 0 := fun hNone => hSome (List.eq_nil_of_length_eq_zero hNone)
  unfold parse
  simp only [if_neg hLonger, hHeaderLen, hPayloadLen, assertFrameLength_ok hHeader, assertFrameLength_ok hPayload,
    if_neg hNonzero, if_neg hWhole, hBody, List.take_left, hKept, if_neg (not_not.mpr hObject)]
  rw [← List.drop_drop, ← List.drop_drop, ← List.drop_drop, hBody, List.drop_left, List.take_left, List.drop_left]

/-! ## Both writers -/

theorem writers_same (serde : HeaderSerde) (header : Json) (payload : Bytes) (limits : PrivateFrameLimits) :
    (writeFrame serde header payload limits).map List.flatten =
        encodePrivateFrame serde header payload limits ∧
      (writeFrameSegments serde header payload limits).map List.flatten =
        encodePrivateFrame serde header payload limits := by
  unfold writeFrame writeFrameSegments encodePrivateFrame
  simp only
  split
  next => exact ⟨rfl, rfl⟩
  next =>
    cases assertFrameLength "header length" (serde.toVec header).length limits.maxHeaderBytes with
    | error error => exact ⟨rfl, rfl⟩
    | ok done =>
      cases assertFrameLength "payload length" payload.length limits.maxPayloadBytes with
      | error error => exact ⟨rfl, rfl⟩
      | ok done' =>
        constructor
        · exact congrArg Except.ok (List.append_nil _)
        · refine congrArg Except.ok ?_
          rw [List.flatten_cons, List.flatten_cons, List.flatten_nil, List.append_nil]

/-! ## A list of frames -/

def encodeFrames (serde : HeaderSerde) (limits : PrivateFrameLimits) : List PrivateFrame → Except String Bytes
  | [] => return []
  | frame :: frames => do
    let bytes ← encodePrivateFrame serde frame.header frame.payload limits
    let stream ← encodeFrames serde limits frames
    return bytes ++ stream

theorem framesOf_encodeFrames (hFit : limits.Fit) (hSendable : ∀ frame ∈ frames, Sendable serde limits frame) :
    ∃ stream, encodeFrames serde limits frames = .ok stream ∧
      framesOf serde limits stream = (frames, .pending []) := by
  induction frames with
  | nil => exact ⟨[], rfl, rfl⟩
  | cons frame frames ih =>
    have hFirst := hSendable frame List.mem_cons_self
    obtain ⟨stream, hStream, hFrames⟩ := ih fun frame hFrame => hSendable frame (List.mem_cons_of_mem _ hFrame)
    refine ⟨frameBytes serde frame ++ stream, ?_, ?_⟩
    · unfold encodeFrames
      rw [encodePrivateFrame_sendable hFirst, hStream]
      rfl
    · rw [framesOf_frame (parse_frameBytes hFit hFirst stream), hFrames]

/-! ## The reader -/

/-- What `read_frame` ends with, where the decoder ends so. -/
def readEnd : Except String PrivateFrameDecoder → Except String (Option PrivateFrame)
  | .error error => .error error
  | .ok decoder =>
    match decoder.finish with
    | .error error => .error ("private frame channel ended mid-frame: " ++ error)
    | .ok () => .ok none

theorem readEnd_ends (stop : Except String PrivateFrameDecoder) (frame : PrivateFrame) :
    readEnd stop ≠ .ok (some frame) := by
  intro hFrame
  unfold readEnd at hFrame
  split at hFrame
  next => cases hFrame
  next =>
    split at hFrame
    next => cases hFrame
    next => cases hFrame

theorem hands_queue {decoder : PrivateFrameDecoder} (queue : List PrivateFrame)
    (hRest : Hands serde ⟨reads, decoder, []⟩ frames outcome) :
    Hands serde ⟨reads, decoder, queue⟩ (queue ++ frames) outcome := by
  induction queue with
  | nil => exact hRest
  | cons frame queue ih => exact .frame rfl ih

theorem hands_read {chunk : Bytes} {decoder decoder' : PrivateFrameDecoder}
    (hPush : decoder.push serde chunk = (.ok [], decoder')) (hRest : Hands serde ⟨reads, decoder', []⟩ frames outcome) :
    Hands serde ⟨chunk :: reads, decoder, []⟩ frames outcome := by
  have hSame : PrivateFrameReader.readFrame serde ⟨chunk :: reads, decoder, []⟩ =
      PrivateFrameReader.readFrame serde ⟨reads, decoder', []⟩ := by
    show PrivateFrameReader.readLoop serde decoder (chunk :: reads) = PrivateFrameReader.readLoop serde decoder' reads
    rw [PrivateFrameReader.readLoop, hPush]
  cases hRest with
  | ended hRead hEnds => exact .ended (hSame.trans hRead) hEnds
  | frame hRead hRest => exact .frame (hSame.trans hRead) hRest

theorem hands_deliver (reads : List Bytes) (decoder : PrivateFrameDecoder) :
    Hands serde ⟨reads, decoder, []⟩ (decoder.deliver serde reads).1 (readEnd (decoder.deliver serde reads).2) := by
  induction reads generalizing decoder with
  | nil =>
    refine @Hands.ended serde _ ⟨[], decoder, []⟩ _ ?_ (readEnd_ends _)
    show PrivateFrameReader.readLoop serde decoder [] = _
    unfold PrivateFrameReader.readLoop PrivateFrameDecoder.deliver readEnd
    simp only
    cases decoder.finish with
    | error error => rfl
    | ok done => rfl
  | cons chunk reads ih =>
    cases hPush : decoder.push serde chunk with
    | mk pushed decoder' =>
      cases pushed with
      | error error =>
        rw [PrivateFrameDecoder.deliver_error hPush]
        refine @Hands.ended serde _ ⟨reads, decoder', []⟩ _ ?_ (readEnd_ends _)
        show PrivateFrameReader.readLoop serde decoder (chunk :: reads) = _
        rw [PrivateFrameReader.readLoop, hPush]
        rfl
      | ok pushed =>
        rw [PrivateFrameDecoder.deliver_ok hPush]
        cases pushed with
        | nil => exact hands_read hPush (ih decoder')
        | cons frame queue =>
          refine @Hands.frame serde _ ⟨reads, decoder', queue⟩ _ _ _ ?_ (hands_queue queue (ih decoder'))
          show PrivateFrameReader.readLoop serde decoder (chunk :: reads) = _
          rw [PrivateFrameReader.readLoop, hPush]

/-! ## Both sides -/

/-- Sent frames come back in their order, and nothing is left over: from the decoder in any chunks, and from the reader. -/
def ComesBack (serde : HeaderSerde) (limits : PrivateFrameLimits) (sent : List PrivateFrame) : Prop :=
  ∃ stream, encodeFrames serde limits sent = .ok stream ∧ ∀ chunks : List Bytes, chunks.flatten = stream →
    (PrivateFrameDecoder.new limits).deliver serde chunks = (sent, .ok (.new limits)) ∧
      Hands serde (.new limits chunks) sent (.ok none)

theorem comesBack_of_sendable (hFit : limits.Fit) {sent : List PrivateFrame}
    (hSendable : ∀ frame ∈ sent, Sendable serde limits frame) : ComesBack serde limits sent := by
  obtain ⟨stream, hStream, hFrames⟩ := framesOf_encodeFrames hFit hSendable
  refine ⟨stream, hStream, ?_⟩
  rintro chunks rfl
  have hEmpty : framesOf serde limits [] = ([], .pending []) := rfl
  have hDelivered : (PrivateFrameDecoder.new limits).deliver serde chunks = (sent, .ok (.new limits)) :=
    PrivateFrameDecoder.deliver_pending hEmpty hFrames
  have hHands := @hands_deliver serde chunks (.new limits)
  rw [hDelivered] at hHands
  exact ⟨hDelivered, hHands⟩

/-- Sent frames come back and both writers send the same bytes; of a stream, the decoder and the reader deliver the
well-formed frames it begins with exactly when the chunk that shows the malformed one completes none of them. -/
theorem frames_delivered_iff (serde : HeaderSerde) (hFit : limits.Fit) :
    (∀ sent, (∀ frame ∈ sent, Sendable serde limits frame) → ComesBack serde limits sent) ∧
      (∀ header payload, (writeFrame serde header payload limits).map List.flatten =
          encodePrivateFrame serde header payload limits ∧
        (writeFrameSegments serde header payload limits).map List.flatten =
          encodePrivateFrame serde header payload limits) ∧
      ∀ chunks,
        let delivered := (PrivateFrameDecoder.new limits).deliver serde chunks
        Hands serde (.new limits chunks) delivered.1 (readEnd delivered.2) ∧
          (delivered.1 = (framesOf serde limits chunks.flatten).1 ↔ ShowsAlone serde limits chunks) := by
  refine ⟨?_, ?_, ?_⟩
  · intro sent hSendable
    exact comesBack_of_sendable hFit hSendable
  · intro header payload
    exact writers_same serde header payload limits
  · intro chunks
    exact ⟨hands_deliver chunks (.new limits), deliver_iff chunks⟩

def bareSerde : HeaderSerde where
  toVec _ := [123, 125]
  fromSlice bytes := if bytes = [123, 125] then .ok (.object []) else .error "expected value at line 1 column 1"

def bareFrame : PrivateFrame := ⟨.object [], [7]⟩

theorem bareFrame_comes_back : ComesBack bareSerde defaultPrivateFrameLimits [bareFrame, bareFrame] := by
  have hFit : defaultPrivateFrameLimits.Fit := ⟨by decide, by decide⟩
  have hSendable : Sendable bareSerde defaultPrivateFrameLimits bareFrame :=
    ⟨rfl, rfl, by decide, by decide, by decide⟩
  refine (frames_delivered_iff bareSerde hFit).1 [bareFrame, bareFrame] ?_
  intro frame hFrame
  obtain rfl := List.eq_of_mem_replicate (show frame ∈ List.replicate 2 bareFrame from hFrame)
  exact hSendable

theorem lost_with_malformed : ¬ ∀ chunks : List Bytes,
    ((PrivateFrameDecoder.new defaultPrivateFrameLimits).deliver bareSerde chunks).1 =
      (framesOf bareSerde defaultPrivateFrameLimits chunks.flatten).1 := by
  intro hDelivered
  have hLost := hDelivered [frameBytes bareSerde bareFrame ++ [0, 0, 0, 0, 0, 0, 0, 0]]
  cases (show [] = [bareFrame] from hLost)

end PrimeAgent.Framing
