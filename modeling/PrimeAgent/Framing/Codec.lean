import PrimeAgent.Session.Timestamp

/-! # Private frames

A frame on the socket of a worker is an 8-byte prefix with two lengths, a JSON header and a binary payload. Two writers
send it; a decoder takes it from the chunks of the stream, and a reader hands the decoded frames out one by one.
-/
namespace PrimeAgent.Framing

def framePrefixBytes : Nat := 8

structure PrivateFrameLimits where
  maxHeaderBytes : Nat
  maxPayloadBytes : Nat

def defaultPrivateFrameLimits : PrivateFrameLimits where
  maxHeaderBytes := 1024 * 1024
  maxPayloadBytes := 1024 * 1024 * 1024

structure PrivateFrame where
  header : Json
  payload : Bytes

/-- `serde_json` on the headers. -/
structure HeaderSerde where
  toVec : Json → Bytes
  fromSlice : Bytes → Except String Json

def assertFrameLength (name : String) (value maximum : Nat) : Except String Unit :=
  if maximum < value then .error ("Invalid private frame " ++ name ++ ": " ++ toString value) else .ok ()

/-- `(value as u32).to_be_bytes()`. -/
def toBeBytes (value : Nat) : Bytes :=
  [.ofNat (value / 2 ^ 24), .ofNat (value / 2 ^ 16), .ofNat (value / 2 ^ 8), .ofNat value]

def fromBeBytes (bytes : Bytes) : Nat :=
  bytes.foldl (fun value byte => value * 256 + byte.toNat) 0

/-! ## Writers -/

def lengthPrefix (headerBytes payload : Bytes) : Bytes :=
  toBeBytes headerBytes.length ++ toBeBytes payload.length

def encodePrivateFrame (serde : HeaderSerde) (header : Json) (payload : Bytes) (limits : PrivateFrameLimits) :
    Except String Bytes :=
  let headerBytes := serde.toVec header
  if headerBytes = [] then .error "Private frame header cannot be empty"
  else do
    assertFrameLength "header length" headerBytes.length limits.maxHeaderBytes
    assertFrameLength "payload length" payload.length limits.maxPayloadBytes
    return lengthPrefix headerBytes payload ++ headerBytes ++ payload

def writeFrame (serde : HeaderSerde) (header : Json) (payload : Bytes) (limits : PrivateFrameLimits) :
    Except String (List Bytes) := do
  let frame ← encodePrivateFrame serde header payload limits
  return [frame]

def writeFrameSegments (serde : HeaderSerde) (header : Json) (payload : Bytes) (limits : PrivateFrameLimits) :
    Except String (List Bytes) :=
  let headerBytes := serde.toVec header
  if headerBytes = [] then .error "Private frame header cannot be empty"
  else do
    assertFrameLength "header length" headerBytes.length limits.maxHeaderBytes
    assertFrameLength "payload length" payload.length limits.maxPayloadBytes
    return [lengthPrefix headerBytes payload ++ headerBytes, payload]

/-! ## The decoder -/

inductive Parsed where
  | incomplete
  | frame (frame : PrivateFrame) (rest : Bytes)
  | malformed (error : String)

/-- One round of the loop of `push`, at its offset. -/
def parse (serde : HeaderSerde) (limits : PrivateFrameLimits) (buffer : Bytes) : Parsed :=
  if buffer.length < framePrefixBytes then .incomplete
  else
    let headerLen := fromBeBytes (buffer.take 4)
    let payloadLen := fromBeBytes ((buffer.drop 4).take 4)
    match assertFrameLength "header length" headerLen limits.maxHeaderBytes with
    | .error error => .malformed error
    | .ok () =>
      match assertFrameLength "payload length" payloadLen limits.maxPayloadBytes with
      | .error error => .malformed error
      | .ok () =>
        if headerLen = 0 then .malformed "Private frame header cannot be empty"
        else if buffer.length < framePrefixBytes + headerLen + payloadLen then .incomplete
        else
          match serde.fromSlice ((buffer.drop framePrefixBytes).take headerLen) with
          | .error error => .malformed ("Invalid private frame header JSON: " ++ error)
          | .ok header =>
            if ¬ header.isObject then .malformed "Invalid private frame routing header"
            else .frame ⟨header, (buffer.drop (framePrefixBytes + headerLen)).take payloadLen⟩
              (buffer.drop (framePrefixBytes + headerLen + payloadLen))

/-- What stops the loop of `push`. -/
inductive ScanEnd where
  | pending (rest : Bytes)
  | malformed (error : String)

/-- The loop of `push`; every round takes bytes off. -/
def scan (serde : HeaderSerde) (limits : PrivateFrameLimits) : Nat → Bytes → List PrivateFrame × ScanEnd
  | 0, buffer => ([], .pending buffer)
  | rounds + 1, buffer =>
    match parse serde limits buffer with
    | .incomplete => ([], .pending buffer)
    | .malformed error => ([], .malformed error)
    | .frame frame rest =>
      let scanned := scan serde limits rounds rest
      (frame :: scanned.1, scanned.2)

structure PrivateFrameDecoder where
  buffer : Bytes
  limits : PrivateFrameLimits

namespace PrivateFrameDecoder

def new (limits : PrivateFrameLimits) : PrivateFrameDecoder :=
  ⟨[], limits⟩

def push (serde : HeaderSerde) (decoder : PrivateFrameDecoder) (chunk : Bytes) :
    Except String (List PrivateFrame) × PrivateFrameDecoder :=
  let buffer := decoder.buffer ++ chunk
  match scan serde decoder.limits buffer.length buffer with
  | (frames, .pending rest) => (.ok frames, { decoder with buffer := rest })
  | (_, .malformed error) => (.error error, { decoder with buffer })

def finish (decoder : PrivateFrameDecoder) : Except String Unit :=
  if decoder.buffer ≠ [] then
    .error ("Private frame channel ended with " ++ toString decoder.buffer.length ++ " incomplete bytes")
  else .ok ()

def deliver (serde : HeaderSerde) (decoder : PrivateFrameDecoder) :
    List Bytes → List PrivateFrame × Except String PrivateFrameDecoder
  | [] => ([], .ok decoder)
  | chunk :: chunks =>
    match decoder.push serde chunk with
    | (.error error, _) => ([], .error error)
    | (.ok frames, decoder) =>
      let delivered := decoder.deliver serde chunks
      (frames ++ delivered.1, delivered.2)

end PrivateFrameDecoder

/-! ## The reader -/

/-- `reads` is what the stream has still to give, one non-empty chunk for each read, and then its end. -/
structure PrivateFrameReader where
  reads : List Bytes
  decoder : PrivateFrameDecoder
  queue : List PrivateFrame

namespace PrivateFrameReader

def new (limits : PrivateFrameLimits) (reads : List Bytes) : PrivateFrameReader :=
  ⟨reads, .new limits, []⟩

/-- The loop of `read_frame` behind an empty queue. -/
def readLoop (serde : HeaderSerde) (decoder : PrivateFrameDecoder) :
    List Bytes → Except String (Option PrivateFrame) × PrivateFrameReader
  | [] =>
    match decoder.finish with
    | .error error => (.error ("private frame channel ended mid-frame: " ++ error), ⟨[], decoder, []⟩)
    | .ok () => (.ok none, ⟨[], decoder, []⟩)
  | chunk :: reads =>
    match decoder.push serde chunk with
    | (.error error, decoder) => (.error error, ⟨reads, decoder, []⟩)
    | (.ok [], decoder) => readLoop serde decoder reads
    | (.ok (frame :: queue), decoder) => (.ok (some frame), ⟨reads, decoder, queue⟩)

def readFrame (serde : HeaderSerde) (reader : PrivateFrameReader) :
    Except String (Option PrivateFrame) × PrivateFrameReader :=
  match reader.queue with
  | frame :: queue => (.ok (some frame), { reader with queue })
  | [] => readLoop serde reader.decoder reader.reads

end PrivateFrameReader

/-- `read_frame` hands out `frames`, and then `outcome`. -/
inductive Hands (serde : HeaderSerde) :
    PrivateFrameReader → List PrivateFrame → Except String (Option PrivateFrame) → Prop where
  | ended {reader reader' : PrivateFrameReader} {outcome : Except String (Option PrivateFrame)}
      (hRead : reader.readFrame serde = (outcome, reader')) (hEnds : ∀ frame, outcome ≠ .ok (some frame)) :
      Hands serde reader [] outcome
  | frame {reader reader' : PrivateFrameReader} {frame : PrivateFrame} {frames : List PrivateFrame}
      {outcome : Except String (Option PrivateFrame)} (hRead : reader.readFrame serde = (.ok (some frame), reader'))
      (hRest : Hands serde reader' frames outcome) : Hands serde reader (frame :: frames) outcome

end PrimeAgent.Framing

/-! ## The frames of a stream

A stream of bytes begins with well-formed frames, up to its end or to the first malformed one. The decoder and the reader
hand these frames out in any chunking that does not bring the malformed frame together with the end of a frame before it.
-/
namespace PrimeAgent.Framing

variable {serde : HeaderSerde} {limits : PrivateFrameLimits} {buffer rest more : Bytes} {frame : PrivateFrame}
  {frames : List PrivateFrame} {error : String}

/-! ## One frame -/

theorem prefix_append (hPrefix : 8 ≤ buffer.length) (more : Bytes) :
    (buffer ++ more).take 4 = buffer.take 4 ∧ ((buffer ++ more).drop 4).take 4 = (buffer.drop 4).take 4 := by
  constructor
  · rw [List.take_append_of_le_length (by omega)]
  · rw [List.drop_append_of_le_length (by omega), List.take_append_of_le_length (by rw [List.length_drop]; omega)]

def Parsed.followedBy (more : Bytes) : Parsed → Parsed
  | .incomplete => .incomplete
  | .frame frame rest => .frame frame (rest ++ more)
  | .malformed error => .malformed error

theorem parse_append (hSettled : parse serde limits buffer ≠ .incomplete) (more : Bytes) :
    parse serde limits (buffer ++ more) = (parse serde limits buffer).followedBy more := by
  unfold parse at hSettled ⊢
  split at hSettled
  next => exact absurd rfl hSettled
  next hLength =>
    have hPrefix : 8 ≤ buffer.length := Nat.not_lt.mp hLength
    have hLonger : ¬ (buffer ++ more).length < framePrefixBytes := by
      rw [List.length_append]
      exact Nat.not_lt.mpr (Nat.le_add_right_of_le hPrefix)
    rw [if_neg hLength, if_neg hLonger, (prefix_append hPrefix more).1, (prefix_append hPrefix more).2]
    simp only at hSettled ⊢
    generalize fromBeBytes (buffer.take 4) = headerLen at hSettled ⊢
    generalize fromBeBytes ((buffer.drop 4).take 4) = payloadLen at hSettled ⊢
    cases hHeader : assertFrameLength "header length" headerLen limits.maxHeaderBytes with
    | error error => rfl
    | ok done =>
      cases hPayload : assertFrameLength "payload length" payloadLen limits.maxPayloadBytes with
      | error error => rfl
      | ok done' =>
        simp only [hHeader, hPayload] at hSettled ⊢
        split at hSettled
        next hNone => rw [if_pos hNone, if_pos hNone]; rfl
        next hSome =>
          split at hSettled
          next => exact absurd rfl hSettled
          next hShort =>
            have hWhole := Nat.not_lt.mp hShort
            have hWhole' : ¬ (buffer ++ more).length < framePrefixBytes + headerLen + payloadLen := by
              rw [List.length_append]
              omega
            have hBody : framePrefixBytes + headerLen ≤ buffer.length := by omega
            have hStart : framePrefixBytes ≤ buffer.length := by omega
            rw [if_neg hSome, if_neg hSome, if_neg hShort, if_neg hWhole', List.drop_append_of_le_length hStart,
              List.take_append_of_le_length (by rw [List.length_drop]; omega), List.drop_append_of_le_length hBody,
              List.take_append_of_le_length (by rw [List.length_drop]; omega), List.drop_append_of_le_length hWhole]
            cases serde.fromSlice ((buffer.drop framePrefixBytes).take headerLen) with
            | error error => rfl
            | ok header =>
              simp only
              split
              next => rfl
              next => rfl

theorem parse_frame_append (hFrame : parse serde limits buffer = .frame frame rest) (more : Bytes) :
    parse serde limits (buffer ++ more) = .frame frame (rest ++ more) := by
  rw [parse_append (by rw [hFrame]; intro hNone; cases hNone), hFrame]
  rfl

theorem parse_malformed_append (hMalformed : parse serde limits buffer = .malformed error) (more : Bytes) :
    parse serde limits (buffer ++ more) = .malformed error := by
  rw [parse_append (by rw [hMalformed]; intro hNone; cases hNone), hMalformed]
  rfl

theorem parse_frame_length (hFrame : parse serde limits buffer = .frame frame rest) : rest.length < buffer.length := by
  unfold parse at hFrame
  split at hFrame
  next => cases hFrame
  next hLength =>
    simp only at hFrame
    split at hFrame
    next => cases hFrame
    next =>
      split at hFrame
      next => cases hFrame
      next =>
        split at hFrame
        next => cases hFrame
        next =>
          split at hFrame
          next => cases hFrame
          next =>
            split at hFrame
            next => cases hFrame
            next =>
              split at hFrame
              next => cases hFrame
              next =>
                obtain ⟨-, rfl⟩ := Parsed.frame.inj hFrame
                simp only [framePrefixBytes] at hLength
                rw [List.length_drop]
                simp only [framePrefixBytes]
                omega

/-! ## All frames -/

theorem scan_rounds (rounds : Nat) : ∀ (buffer : Bytes) (rounds' : Nat), buffer.length ≤ rounds →
    buffer.length ≤ rounds' → scan serde limits rounds buffer = scan serde limits rounds' buffer := by
  have hEmpty : ∀ rounds, scan serde limits rounds [] = ([], .pending []) := by
    intro rounds
    cases rounds with
    | zero => rfl
    | succ rounds => rfl
  induction rounds with
  | zero =>
    intro buffer rounds' hRounds _
    rw [List.eq_nil_of_length_eq_zero (Nat.le_zero.mp hRounds), hEmpty, hEmpty]
  | succ rounds ih =>
    intro buffer rounds' hRounds hRounds'
    cases rounds' with
    | zero => rw [List.eq_nil_of_length_eq_zero (Nat.le_zero.mp hRounds'), hEmpty, hEmpty]
    | succ rounds' =>
      unfold scan
      cases hParse : parse serde limits buffer with
      | incomplete => rfl
      | malformed error => rfl
      | frame frame rest =>
        have hLength := parse_frame_length hParse
        simp only [ih rest rounds' (by omega) (by omega)]

def framesOf (serde : HeaderSerde) (limits : PrivateFrameLimits) (stream : Bytes) : List PrivateFrame × ScanEnd :=
  scan serde limits stream.length stream

theorem framesOf_incomplete (hParse : parse serde limits buffer = .incomplete) :
    framesOf serde limits buffer = ([], .pending buffer) := by
  unfold framesOf
  cases buffer with
  | nil => rfl
  | cons byte buffer =>
    show scan serde limits (buffer.length + 1) (byte :: buffer) = _
    rw [scan, hParse]

theorem framesOf_malformed (hParse : parse serde limits buffer = .malformed error) :
    framesOf serde limits buffer = ([], .malformed error) := by
  unfold framesOf
  cases buffer with
  | nil => cases hParse
  | cons byte buffer =>
    show scan serde limits (buffer.length + 1) (byte :: buffer) = _
    rw [scan, hParse]

theorem framesOf_frame (hParse : parse serde limits buffer = .frame frame rest) :
    framesOf serde limits buffer = (frame :: (framesOf serde limits rest).1, (framesOf serde limits rest).2) := by
  have hLength := parse_frame_length hParse
  unfold framesOf
  cases buffer with
  | nil => cases hParse
  | cons byte buffer =>
    show scan serde limits (buffer.length + 1) (byte :: buffer) = _
    have hRounds := @scan_rounds serde limits buffer.length rest rest.length (Nat.le_of_lt_succ hLength) (Nat.le_refl _)
    simp only [scan, hParse, hRounds]

theorem framesOf_append (stream more : Bytes) :
    (∀ frames rest, framesOf serde limits stream = (frames, .pending rest) →
      framesOf serde limits rest = ([], .pending rest) ∧
      framesOf serde limits (stream ++ more) =
        (frames ++ (framesOf serde limits (rest ++ more)).1, (framesOf serde limits (rest ++ more)).2)) ∧
    ∀ frames error, framesOf serde limits stream = (frames, .malformed error) →
      framesOf serde limits (stream ++ more) = (frames, .malformed error) := by
  induction hLength : stream.length using Nat.strongRecOn generalizing stream with
  | ind length ih =>
    subst hLength
    cases hParse : parse serde limits stream with
    | incomplete =>
      have hFrames := framesOf_incomplete hParse
      rw [hFrames]
      refine ⟨?_, fun frames error hEnd => (by cases (Prod.mk.inj hEnd).2)⟩
      rintro frames rest hEnd
      obtain ⟨rfl, hRest⟩ := Prod.mk.inj hEnd
      obtain rfl := ScanEnd.pending.inj hRest
      exact ⟨hFrames, rfl⟩
    | malformed error =>
      have hFrames := framesOf_malformed hParse
      rw [hFrames]
      refine ⟨fun frames rest hEnd => (by cases (Prod.mk.inj hEnd).2), ?_⟩
      rintro frames error' hEnd
      rw [framesOf_malformed (parse_malformed_append hParse more)]
      exact hEnd
    | frame frame rest =>
      obtain ⟨hPending, hMalformed⟩ := ih rest.length (parse_frame_length hParse) rest rfl
      rw [framesOf_frame hParse, framesOf_frame (parse_frame_append hParse more)]
      constructor
      · rintro frames left hEnd
        obtain ⟨rfl, hLeft⟩ := Prod.mk.inj hEnd
        obtain ⟨hRest, hNext⟩ := hPending _ left (Prod.ext rfl hLeft)
        exact ⟨hRest, by rw [hNext]; rfl⟩
      · rintro frames error hEnd
        obtain ⟨rfl, hError⟩ := Prod.mk.inj hEnd
        rw [hMalformed _ error (Prod.ext rfl hError)]

/-! ## The decoder -/

namespace PrivateFrameDecoder

theorem push_pending {decoder : PrivateFrameDecoder} {chunk : Bytes}
    (hFrames : framesOf serde decoder.limits (decoder.buffer ++ chunk) = (frames, .pending rest)) :
    decoder.push serde chunk = (.ok frames, { decoder with buffer := rest }) := by
  unfold framesOf at hFrames
  unfold push
  simp only [hFrames]

theorem push_malformed {decoder : PrivateFrameDecoder} {chunk : Bytes}
    (hFrames : framesOf serde decoder.limits (decoder.buffer ++ chunk) = (frames, .malformed error)) :
    decoder.push serde chunk = (.error error, { decoder with buffer := decoder.buffer ++ chunk }) := by
  unfold framesOf at hFrames
  unfold push
  simp only [hFrames]

variable {chunk : Bytes} {decoder decoder' : PrivateFrameDecoder} {before : List Bytes}

theorem deliver_ok (hPush : decoder.push serde chunk = (.ok frames, decoder')) (chunks : List Bytes) :
    decoder.deliver serde (chunk :: chunks) =
      (frames ++ (decoder'.deliver serde chunks).1, (decoder'.deliver serde chunks).2) := by
  rw [deliver, hPush]

theorem deliver_error (hPush : decoder.push serde chunk = (.error error, decoder')) (chunks : List Bytes) :
    decoder.deliver serde (chunk :: chunks) = ([], .error error) := by
  rw [deliver, hPush]

theorem deliver_append (hBefore : decoder.deliver serde before = (frames, .ok decoder')) (after : List Bytes) :
    decoder.deliver serde (before ++ after) =
      (frames ++ (decoder'.deliver serde after).1, (decoder'.deliver serde after).2) := by
  induction before generalizing decoder frames with
  | nil =>
    obtain ⟨rfl, hSame⟩ := Prod.mk.inj hBefore
    obtain rfl := Except.ok.inj hSame
    rfl
  | cons chunk before ih =>
    rw [List.cons_append]
    cases hPush : decoder.push serde chunk with
    | mk pushed next =>
      cases pushed with
      | error error =>
        rw [deliver_error hPush] at hBefore
        cases (Prod.mk.inj hBefore).2
      | ok pushed =>
        rw [deliver_ok hPush] at hBefore
        obtain ⟨rfl, hRest⟩ := Prod.mk.inj hBefore
        rw [deliver_ok hPush, ih (Prod.ext rfl hRest), List.append_assoc]

theorem deliver_pending {start : Bytes} (hStart : framesOf serde limits start = ([], .pending start)) {chunks : List Bytes}
    (hFrames : framesOf serde limits (start ++ chunks.flatten) = (frames, .pending rest)) :
    deliver serde ⟨start, limits⟩ chunks = (frames, .ok ⟨rest, limits⟩) := by
  induction chunks generalizing start frames with
  | nil =>
    rw [List.flatten_nil, List.append_nil, hStart] at hFrames
    obtain ⟨rfl, hRest⟩ := Prod.mk.inj hFrames
    obtain rfl := ScanEnd.pending.inj hRest
    rfl
  | cons chunk chunks ih =>
    rw [List.flatten_cons, ← List.append_assoc] at hFrames
    obtain ⟨hPending, hMalformed⟩ := @framesOf_append serde limits (start ++ chunk) chunks.flatten
    cases hChunk : framesOf serde limits (start ++ chunk) with
    | mk pushed stop =>
      cases stop with
      | malformed error =>
        rw [hMalformed pushed error hChunk] at hFrames
        cases (Prod.mk.inj hFrames).2
      | pending left =>
        obtain ⟨hLeft, hAll⟩ := hPending pushed left hChunk
        rw [hAll] at hFrames
        obtain ⟨rfl, hRest⟩ := Prod.mk.inj hFrames
        rw [deliver_ok (@push_pending serde left pushed ⟨start, limits⟩ chunk hChunk), ih hLeft (Prod.ext rfl hRest)]

theorem deliver_malformed {lost : List PrivateFrame}
    (hBefore : framesOf serde limits before.flatten = (frames, .pending rest))
    (hChunk : framesOf serde limits (rest ++ chunk) = (lost, .malformed error)) (after : List Bytes) :
    (new limits).deliver serde (before ++ chunk :: after) = (frames, .error error) := by
  have hEmpty : framesOf serde limits [] = ([], .pending []) := rfl
  have hPush := @push_malformed serde lost error ⟨rest, limits⟩ chunk hChunk
  show deliver serde ⟨[], limits⟩ (before ++ chunk :: after) = _
  rw [deliver_append (deliver_pending hEmpty hBefore), deliver_error hPush, List.append_nil]

end PrivateFrameDecoder

theorem exists_malformed_chunk {start : Bytes} (hStart : framesOf serde limits start = ([], .pending start))
    {chunks : List Bytes} (hFrames : framesOf serde limits (start ++ chunks.flatten) = (frames, .malformed error)) :
    ∃ before chunk after delivered left lost, chunks = before ++ chunk :: after ∧
      framesOf serde limits (start ++ before.flatten) = (delivered, .pending left) ∧
      framesOf serde limits (left ++ chunk) = (lost, .malformed error) ∧ frames = delivered ++ lost := by
  induction chunks generalizing start frames with
  | nil =>
    rw [List.flatten_nil, List.append_nil, hStart] at hFrames
    cases (Prod.mk.inj hFrames).2
  | cons chunk chunks ih =>
    rw [List.flatten_cons, ← List.append_assoc] at hFrames
    obtain ⟨hPending, hMalformed⟩ := @framesOf_append serde limits (start ++ chunk) chunks.flatten
    cases hChunk : framesOf serde limits (start ++ chunk) with
    | mk pushed stop =>
      cases stop with
      | malformed error' =>
        rw [hMalformed pushed error' hChunk] at hFrames
        obtain ⟨rfl, hError⟩ := Prod.mk.inj hFrames
        obtain rfl := ScanEnd.malformed.inj hError
        refine ⟨[], chunk, chunks, [], start, pushed, rfl, ?_, hChunk, rfl⟩
        rw [List.flatten_nil, List.append_nil, hStart]
      | pending left =>
        obtain ⟨hLeft, hAll⟩ := hPending pushed left hChunk
        rw [hAll] at hFrames
        obtain ⟨rfl, hError⟩ := Prod.mk.inj hFrames
        have hTail : framesOf serde limits (left ++ chunks.flatten) =
            ((framesOf serde limits (left ++ chunks.flatten)).1, .malformed error) := Prod.ext rfl hError
        obtain ⟨before, shows, after, delivered, left', lost, rfl, hBefore, hShows, hLost⟩ := ih hLeft hTail
        refine ⟨chunk :: before, shows, after, pushed ++ delivered, left', lost, rfl, ?_, hShows, ?_⟩
        · rw [List.flatten_cons, ← List.append_assoc,
            ((@framesOf_append serde limits (start ++ chunk) before.flatten).1 pushed left hChunk).2, hBefore]
        · rw [hLost, List.append_assoc]

def ShowsAlone (serde : HeaderSerde) (limits : PrivateFrameLimits) (chunks : List Bytes) : Prop :=
  ∀ before chunk after error, chunks = before ++ chunk :: after →
    (framesOf serde limits (before.flatten ++ chunk)).2 = .malformed error →
    (framesOf serde limits (before.flatten ++ chunk)).1 = (framesOf serde limits before.flatten).1

theorem deliver_iff (chunks : List Bytes) :
    ((PrivateFrameDecoder.new limits).deliver serde chunks).1 = (framesOf serde limits chunks.flatten).1 ↔
      ShowsAlone serde limits chunks := by
  have hEmpty : framesOf serde limits [] = ([], .pending []) := rfl
  cases hFrames : framesOf serde limits chunks.flatten with
  | mk frames stop =>
    cases stop with
    | pending rest =>
      refine iff_of_true ?_ ?_
      · exact congrArg Prod.fst (PrivateFrameDecoder.deliver_pending hEmpty hFrames)
      · rintro before chunk after error rfl hError
        rw [List.flatten_append, List.flatten_cons, ← List.append_assoc,
          (@framesOf_append serde limits (before.flatten ++ chunk) after.flatten).2 _ error (Prod.ext rfl hError)] at hFrames
        cases (Prod.mk.inj hFrames).2
    | malformed error =>
      obtain ⟨before, chunk, after, delivered, left, lost, rfl, hBefore, hShows, rfl⟩ :=
        @exists_malformed_chunk serde limits frames error [] hEmpty chunks hFrames
      rw [List.nil_append] at hBefore
      rw [PrivateFrameDecoder.deliver_malformed hBefore hShows]
      have hChunk : framesOf serde limits (before.flatten ++ chunk) = (delivered ++ lost, .malformed error) := by
        rw [((@framesOf_append serde limits before.flatten chunk).1 delivered left hBefore).2, hShows]
      constructor
      · intro hSame before' chunk' after' error' hChunks hError
        rcases List.append_eq_append_iff.mp hChunks.symm with ⟨between, rfl, hRest⟩ | ⟨between, rfl, hRest⟩
        · cases between with
          | nil =>
            obtain ⟨rfl, -⟩ := List.cons.inj hRest
            rw [List.append_nil] at hChunk hBefore
            rw [hChunk, hBefore]
            exact hSame.symm
          | cons next between =>
            -- the malformed frame would show earlier
            obtain ⟨rfl, -⟩ := List.cons.inj hRest
            rw [List.flatten_append, List.flatten_cons, ← List.append_assoc,
              (@framesOf_append serde limits (before'.flatten ++ chunk') between.flatten).2 _ error' (Prod.ext rfl hError)]
              at hBefore
            cases (Prod.mk.inj hBefore).2
        · cases between with
          | nil =>
            obtain ⟨rfl, -⟩ := List.cons.inj hRest
            rw [List.append_nil] at hError ⊢
            rw [hChunk, hBefore]
            exact hSame.symm
          | cons next between =>
            -- behind the malformed frame nothing is added
            obtain ⟨rfl, -⟩ := List.cons.inj hRest
            have hStays := (@framesOf_append serde limits (before.flatten ++ chunk) between.flatten).2 _ error hChunk
            rw [List.flatten_append, List.flatten_cons, ← List.append_assoc,
              (framesOf_append _ chunk').2 _ error hStays, hStays]
      · intro hAlone
        have hLost := hAlone before chunk after error rfl (congrArg Prod.snd hChunk)
        rw [hChunk, hBefore] at hLost
        exact hLost.symm

end PrimeAgent.Framing
