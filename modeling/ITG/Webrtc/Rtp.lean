import ITG.Lib.Buffer

/-!
# The RTP packets of a stream

The loop of the goroutine that `createStream` starts for a stream: it reads a datagram from the
stream's socket, parses it as an RTP packet, and writes it to the video track or to the audio track,
by its payload type.

All datagrams are read into one buffer of 4096 bytes.  A datagram that does not fit is cut, and then
parsed and passed on as if it were whole, so what the loop writes is known of the first 4096 bytes
of each datagram only (`written_relay`).  `relay_iff` says when that makes no difference.

Of `rtp.Packet.Unmarshal` it matters only whether it fails and which payload type it finds; it is
the parameter `unmarshal`.  No read fails here; the end of the loop is part of `ITG.Webrtc.Server`.
-/

namespace ITG.Webrtc

open ITG.Lib

/-- The tracks of a stream. -/
inductive Track where
  | video
  | audio
deriving DecidableEq, Repr

/-- The bytes of a datagram or a packet. -/
abbrev Bytes := List UInt8

/-- The track for packets of this payload type. -/
def Track.ofPayloadType (payloadType : UInt8) : Option Track :=
  if payloadType = 96 then some .video
  else if payloadType = 97 then some .audio
  else none

section Relay

variable (unmarshal : Bytes → Option UInt8)

/-- The track for these bytes, if they parse as a packet for one. -/
def trackOf (packet : Bytes) : Option Track := (unmarshal packet).bind Track.ofPayloadType

/-- The loop body: the buffer after it, and the writes to the tracks. -/
def receive (inbound : Buffer UInt8 4096) (datagram : Bytes) :
    Buffer UInt8 4096 × List (Track × Bytes) :=
  let r := inbound.readFrom datagram
  match unmarshal (r.1.slice r.2) with
  | none => (r.1, [])
  | some payloadType =>
      match Track.ofPayloadType payloadType with
      | some track => (r.1, [(track, r.1.slice r.2)])
      | none => (r.1, [])

/-- The writes of the loop, for the datagrams that arrive. -/
def relay : Buffer UInt8 4096 → List Bytes → List (Track × Bytes)
  | _, [] => []
  | inbound, datagram :: datagrams =>
      let r := receive unmarshal inbound datagram
      r.2 ++ relay r.1 datagrams

/-- What has been written to the track. -/
def written (track : Track) (writes : List (Track × Bytes)) : List Bytes :=
  writes.filterMap fun w ↦ if w.1 = track then some w.2 else none

variable (inbound : Buffer UInt8 4096) (datagram : Bytes) (datagrams : List Bytes) (track : Track)

/-- What earlier datagrams have left in the buffer does not matter. -/
theorem writes_receive : (receive unmarshal inbound datagram).2 =
    ((trackOf unmarshal (datagram.take 4096)).map
      fun track ↦ (track, datagram.take 4096)).toList := by
  rw [receive, Buffer.slice_readFrom, trackOf]
  cases unmarshal (datagram.take 4096) with
  | none => rfl
  | some payloadType =>
      dsimp only [Option.bind_some]
      cases Track.ofPayloadType payloadType <;> rfl

theorem written_append (writes writes' : List (Track × Bytes)) :
    written track (writes ++ writes') = written track writes ++ written track writes' :=
  List.filterMap_append

/-- One round writes a datagram to its track, cut to the buffer. -/
theorem written_receive : written track (receive unmarshal inbound datagram).2 =
    [datagram.take 4096].filter fun packet ↦ trackOf unmarshal packet = some track := by
  rw [writes_receive]
  cases h : trackOf unmarshal (datagram.take 4096) with
  | none => simp [written, h]
  | some track' =>
      by_cases ht : track' = track <;> simp [written, h, ht]

/-- So does the loop. -/
theorem written_relay : written track (relay unmarshal inbound datagrams) =
    (datagrams.map (List.take 4096)).filter fun packet ↦ trackOf unmarshal packet = some track := by
  induction datagrams generalizing inbound with
  | nil => rfl
  | cons datagram datagrams ih =>
      rw [relay, written_append, written_receive, ih, ← List.filter_append, List.map_cons,
        List.singleton_append]

/-- A datagram is written to one track at most. -/
theorem length_receive_le : (receive unmarshal inbound datagram).2.length ≤ 1 := by
  rw [writes_receive]
  cases trackOf unmarshal (datagram.take 4096) <;> simp

/-- **When the relay is faithful.**  No datagram is written to both tracks.  What is written to each
track is the datagrams that parse as packets for it, byte for byte and in the order of their
arrival, if and only if no datagram of more than 4096 bytes parses as a packet for a track, neither
as a whole nor cut to 4096 bytes. -/
theorem relay_iff :
    ((∀ inbound datagram, (receive unmarshal inbound datagram).2.length ≤ 1) ∧
      ∀ track, written track (relay unmarshal inbound datagrams) =
        datagrams.filter fun packet ↦ trackOf unmarshal packet = some track) ↔
    ∀ datagram ∈ datagrams, 4096 < datagram.length →
      trackOf unmarshal datagram = none ∧ trackOf unmarshal (datagram.take 4096) = none := by
  rw [and_iff_right (length_receive_le unmarshal)]
  simp only [written_relay, filter_take_eq_iff, decide_eq_false_iff_not,
    Option.eq_none_iff_forall_ne_some]
  constructor
  · intro h datagram hd hlt
    exact ⟨fun track ↦ (h track datagram hd hlt).1, fun track ↦ (h track datagram hd hlt).2⟩
  · intro h track datagram hd hlt
    exact ⟨(h datagram hd hlt).1 track, (h datagram hd hlt).2 track⟩

end Relay

/-- The payload type of a packet that has neither padding nor an extension nor contributing
sources. -/
def plainPayloadType : Bytes → Option UInt8
  | b₀ :: b₁ :: bs => if b₀ = 0x80 ∧ 10 ≤ bs.length then some (b₁ &&& 0x7F) else none
  | _ => none

/-- A video packet of `n + 2` bytes. -/
def videoPacket (n : ℕ) : Bytes := 0x80 :: 96 :: .replicate n 0

theorem trackOf_videoPacket {n : ℕ} (h : 10 ≤ n) :
    trackOf plainPayloadType (videoPacket n) = some .video := by
  rw [trackOf, videoPacket, plainPayloadType, if_pos ⟨rfl, by rwa [List.length_replicate]⟩]
  rfl

theorem take_videoPacket {m n : ℕ} : (videoPacket n).take (m + 2) = videoPacket (min m n) := by
  simp [videoPacket, List.take_replicate]

/-- A video packet of 4097 bytes is passed on without its last byte. -/
theorem cut_packet :
    trackOf plainPayloadType (videoPacket 4095) = some .video ∧
      written .video (relay plainPayloadType (.make 0) [videoPacket 4095]) = [videoPacket 4094] ∧
      videoPacket 4094 ≠ videoPacket 4095 := by
  refine ⟨trackOf_videoPacket (by decide), ?_, fun h ↦ ?_⟩
  · have hcut : (videoPacket 4095).take 4096 = videoPacket 4094 := take_videoPacket
    rw [written_relay, List.map_singleton, hcut, List.filter_cons_of_pos, List.filter_nil]
    rw [trackOf_videoPacket (by decide)]
    rfl
  · have hlen : 4094 + 2 = 4095 + 2 := by
      simpa only [videoPacket, List.length_cons, List.length_replicate] using congrArg List.length h
    cases hlen

end ITG.Webrtc
