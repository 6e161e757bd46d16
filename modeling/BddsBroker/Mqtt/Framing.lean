import BddsBroker.Lib.Segments

/-! How the two sessions cut a TCP stream into frames of 1024 bytes. `MQTTSession::read`
hands the whole of `packet_` to `message_process` after every receive, however short;
`BROKERSUB::Session::boost_sync_read` waits until its buffer is full. The second
gives the frames of the stream for every segmentation (`doRead_frames`), the first
one only when every receive is a whole frame (`read_frames_iff`). -/

namespace BddsBroker.Framing

/-- `MAX_PACKET_SIZE`. -/
def maxPacketSize : Nat := 1024

/-- The contents of `packet_`, and of a frame. -/
@[ext] structure Buffer where
  bytes : List UInt8
  length_eq : bytes.length = maxPacketSize
  deriving DecidableEq

/-- What one `async_receive` delivers: some bytes, at most the size of its buffer. -/
structure Receive where
  bytes : List UInt8
  length_pos : 0 < bytes.length
  length_le : bytes.length ≤ maxPacketSize

/-- A receive writes the head of the buffer and leaves the rest of it. -/
def Buffer.receive (packet : Buffer) (r : Receive) : Buffer where
  bytes := r.bytes ++ packet.bytes.drop r.bytes.length
  length_eq := by
    have hle := r.length_le
    simp only [List.length_append, List.length_drop, packet.length_eq]
    omega

/-- `MQTTSession::read`: the buffers handed to `message_process`, one for each receive
that completes without error. -/
def read (packet : Buffer) : List Receive → List Buffer
  | [] => []
  | r :: rs => packet.receive r :: read (packet.receive r) rs

/-- `Session::boost_sync_read`: a full buffer appended to the packet, and the segments
left in the socket. `none` is a call that never returns. -/
def boostSyncRead (packet : List UInt8) (segments : List (List UInt8)) :
    Option (List UInt8 × List (List UInt8)) :=
  (Segments.readFull 1024 segments).map fun (buffer, rest) => (packet ++ buffer, rest)

theorem boostSyncRead_shrinks {segments rest : List (List UInt8)} {packet : List UInt8}
    (h : boostSyncRead [] segments = some (packet, rest)) :
    rest.flatten.length < segments.flatten.length := by
  obtain ⟨⟨buffer, r⟩, hr, heq⟩ := Option.map_eq_some_iff.mp h
  simp only [Prod.mk.injEq] at heq
  obtain ⟨-, rfl⟩ := heq
  obtain ⟨htake, hdrop, hlen⟩ := Segments.readFull_eq_some hr
  rw [htake, List.length_take] at hlen
  rw [hdrop, List.length_drop]
  omega

/-- The loop of `Session::do_read`: the packets handed to `message_process`, until a
read blocks. -/
def doRead (segments : List (List UInt8)) : List (List UInt8) :=
  match _h : boostSyncRead [] segments with
  | none => []
  | some (packet, rest) => packet :: doRead rest
termination_by segments.flatten.length
decreasing_by exact boostSyncRead_shrinks _h

/-! ## Blocking reads -/

theorem doRead_of_block {segments : List (List UInt8)} (h : boostSyncRead [] segments = none) :
    doRead segments = [] := by
  unfold doRead
  split
  · rfl
  · rename_i hs
    rw [h] at hs
    cases hs

theorem doRead_of_read {segments rest : List (List UInt8)} {packet : List UInt8}
    (h : boostSyncRead [] segments = some (packet, rest)) :
    doRead segments = packet :: doRead rest := by
  rw [doRead]
  split
  · rename_i hs
    rw [h] at hs
    cases hs
  · rename_i p r hs
    rw [h] at hs
    simp only [Option.some.injEq, Prod.mk.injEq] at hs
    obtain ⟨rfl, rfl⟩ := hs
    rfl

/-- The blocking loop gives the frames, whatever the segments. -/
theorem doRead_frames {frames : List Buffer} {segments : List (List UInt8)}
    (h : segments.flatten = (frames.map Buffer.bytes).flatten) :
    doRead segments = frames.map Buffer.bytes := by
  induction frames generalizing segments with
  | nil =>
    have hblock := Segments.readFull_nil_of_flatten (n := 1024) (by decide) h
    exact doRead_of_block (by simp [boostSyncRead, hblock])
  | cons f fs ih =>
    have hf : f.bytes.length = 1024 := f.length_eq
    simp only [List.map_cons, List.flatten_cons] at h ⊢
    have hlen : 1024 ≤ segments.flatten.length := by
      rw [h, List.length_append]
      omega
    obtain ⟨buffer, rest, hr⟩ := Segments.readFull_isSome hlen
    have hread : boostSyncRead [] segments = some (buffer, rest) := by simp [boostSyncRead, hr]
    obtain ⟨htake, hdrop, -⟩ := Segments.readFull_eq_some hr
    rw [h, List.take_left' hf] at htake
    rw [h, List.drop_left' hf] at hdrop
    rw [doRead_of_read hread, ih hdrop, htake]

/-! ## Receives -/

@[simp] theorem length_read (packet : Buffer) (rs : List Receive) :
    (read packet rs).length = rs.length := by
  induction rs generalizing packet with
  | nil => rfl
  | cons r rs ih => simp [read, ih]

/-- A full receive leaves nothing of the old buffer. -/
theorem receive_full {packet : Buffer} {r : Receive} (hr : r.bytes.length = maxPacketSize) :
    (packet.receive r).bytes = r.bytes := by
  simp [Buffer.receive, hr, packet.length_eq]

theorem read_full {packet : Buffer} {rs : List Receive}
    (h : ∀ r ∈ rs, r.bytes.length = maxPacketSize) :
    (read packet rs).map Buffer.bytes = rs.map Receive.bytes := by
  induction rs generalizing packet with
  | nil => rfl
  | cons r rs ih =>
    simp only [read, List.map_cons, receive_full (h r (by simp)),
      ih fun q hq => h q (List.mem_cons_of_mem r hq)]

/-- As many pieces as frames, none longer than a frame and together as long: each is
as long as a frame. -/
theorem full_of_length {rs : List Receive}
    (h : (rs.map Receive.bytes).flatten.length = rs.length * maxPacketSize) :
    ∀ r ∈ rs, r.bytes.length = maxPacketSize := by
  have hle : ∀ qs : List Receive,
      (qs.map Receive.bytes).flatten.length ≤ qs.length * maxPacketSize := by
    intro qs
    induction qs with
    | nil => simp
    | cons q qs ih =>
      have hq := q.length_le
      simp only [List.map_cons, List.flatten_cons, List.length_append, List.length_cons,
        Nat.add_mul, Nat.one_mul]
      omega
  induction rs with
  | nil => simp
  | cons r rs ih =>
    have hr := r.length_le
    have hrs := hle rs
    simp only [List.map_cons, List.flatten_cons, List.length_append, List.length_cons,
      Nat.add_mul, Nat.one_mul] at h
    intro q hq
    rcases List.mem_cons.mp hq with rfl | hq
    · omega
    · exact ih (by omega) q hq

theorem length_flatten_frames (frames : List Buffer) :
    (frames.map Buffer.bytes).flatten.length = frames.length * maxPacketSize := by
  induction frames with
  | nil => simp
  | cons f fs ih =>
    simp only [List.map_cons, List.flatten_cons, List.length_append, f.length_eq, ih,
      List.length_cons, Nat.add_mul, Nat.one_mul]
    omega

/-- **Framing.** A stream of frames reaches `message_process` as its frames, and as the
blocking reader would cut it, exactly when every receive is one whole frame. -/
theorem read_frames_iff (packet : Buffer) (frames : List Buffer) (rs : List Receive)
    (h : (rs.map Receive.bytes).flatten = (frames.map Buffer.bytes).flatten) :
    (read packet rs = frames ∧
        (read packet rs).map Buffer.bytes = doRead (rs.map Receive.bytes)) ↔
      ∀ r ∈ rs, r.bytes.length = maxPacketSize := by
  rw [doRead_frames h]
  constructor
  · rintro ⟨hread, -⟩
    have hcount : rs.length = frames.length := by rw [← hread, length_read]
    exact full_of_length (by rw [h, length_flatten_frames, hcount])
  · intro hfull
    have hread : (read packet rs).map Buffer.bytes = rs.map Receive.bytes := read_full hfull
    have hbytes : (read packet rs).map Buffer.bytes = frames.map Buffer.bytes := by
      rw [hread, List.eq_iff_flatten_eq]
      refine ⟨h, ?_⟩
      have hcount : rs.length = frames.length := by
        have hlen := congrArg List.length h
        rw [length_flatten_frames, ← hread, length_flatten_frames, length_read] at hlen
        exact Nat.eq_of_mul_eq_mul_right (by decide) hlen
      have hrs : (rs.map Receive.bytes).map List.length =
          List.replicate rs.length maxPacketSize := by
        rw [List.map_map]
        exact List.map_eq_replicate_iff.mpr hfull
      have hfs : (frames.map Buffer.bytes).map List.length =
          List.replicate frames.length maxPacketSize := by
        rw [List.map_map]
        exact List.map_eq_replicate_iff.mpr fun f _ => f.length_eq
      rw [hrs, hfs, hcount]
    exact ⟨(List.map_inj_right fun _ _ => Buffer.ext).mp hbytes, hbytes⟩

def zeroFrame : Buffer := ⟨List.replicate maxPacketSize 0, List.length_replicate⟩

def zeros (n : Nat) (hpos : 0 < n) (hle : n ≤ maxPacketSize) : Receive :=
  ⟨List.replicate n 0, by simpa using hpos, by simpa using hle⟩

/-- A frame that begins with that byte. -/
def frameOf (byte : UInt8) : Buffer :=
  ⟨byte :: List.replicate 1023 0, by rw [List.length_cons, List.length_replicate]; rfl⟩

/-- It arrives in one piece. -/
def whole (byte : UInt8) : Receive :=
  ⟨(frameOf byte).bytes, by rw [(frameOf byte).length_eq]; decide,
    Nat.le_of_eq (frameOf byte).length_eq⟩

/-- A CONNECT, a PINGREQ and the same PINGREQ again. -/
theorem read_frames_iff_whole :
    read zeroFrame [whole 0x10, whole 0xC0, whole 0xC0] =
        [frameOf 0x10, frameOf 0xC0, frameOf 0xC0] ∧
      (read zeroFrame [whole 0x10, whole 0xC0, whole 0xC0]).map Buffer.bytes =
        doRead ([whole 0x10, whole 0xC0, whole 0xC0].map Receive.bytes) := by
  refine (read_frames_iff zeroFrame [frameOf 0x10, frameOf 0xC0, frameOf 0xC0]
    [whole 0x10, whole 0xC0, whole 0xC0] rfl).mpr ?_
  simp only [List.forall_mem_cons]
  exact ⟨(frameOf _).length_eq, (frameOf _).length_eq, (frameOf _).length_eq, by simp⟩

/-- One frame that arrives as its first byte and the rest is handed over twice. -/
theorem split_frame_read_twice :
    ([zeros 1 (by decide) (by decide), zeros 1023 (by decide) (by decide)].map
        Receive.bytes).flatten = ([zeroFrame].map Buffer.bytes).flatten ∧
      read zeroFrame [zeros 1 (by decide) (by decide), zeros 1023 (by decide) (by decide)] ≠
        [zeroFrame] := by
  refine ⟨?_, fun h => ?_⟩
  · simp only [zeros, zeroFrame, List.map_cons, List.map_nil, List.flatten_cons, List.flatten_nil,
      List.append_nil, List.replicate_append_replicate, maxPacketSize]
  · have hlen := congrArg List.length h
    rw [length_read] at hlen
    cases hlen

end BddsBroker.Framing
