/-
# TradeBroker.Firmware.Delivery — host frames on their way to the device.

The host cuts each frame into packets of 64 bytes, so no packet holds the end of one frame and the start of
the next, and the codec delivers every acceptable frame (`host_frames_reach_device`).  Its own contract is
wider: `feed` takes arbitrary chunks of the transport.  For those it delivers every acceptable frame exactly
when each chunk fits behind what is in the buffer (`delivers_iff_fits`).

The direction that needs an argument is the one from delivery to fitting.  A chunk that does not fit takes
the bytes before it along, and a later frame cannot make up for them: what is handed over is never longer
than what was recognised, and what was recognised is never longer than the bytes that stayed
(`Firmware.Stream`).

The host itself is safe, because its writer begins a new packet with every frame.  The contract of `feed`
is the wider one, and the transport between the two is not part of the repository.
-/
import TradeBroker.Firmware.Stream
import TradeBroker.Firmware.TradeBridge
import TradeBroker.Gba.Serial

namespace TradeBroker.Firmware

open Lib
open Gba (magic headerSize crcSize maxPayload Frame Packet Port SerialTransport)

/-! ## §1 — the handler of the bridge. -/

theorem TradeBridge.codecSend_codec (type : Message) (payload : Bytes) (s : TradeBridge) :
    (codecSend type payload s).1.transactionId = s.1.transactionId ∧
      (codecSend type payload s).1.lastReceivedSequence = s.1.lastReceivedSequence := by
  unfold codecSend Codec.send
  split <;> exact ⟨rfl, rfl⟩

/-- What the handler does to the filter of the codec: nothing, unless the frame is a HELLO. -/
theorem TradeBridge.handle_codec (sha256 : Bytes → Bytes) (frame : ParsedFrame) (s : TradeBridge) :
    (handle sha256 frame s).1.transactionId =
        (if frame.type = .hello then frame.transactionId else s.1.transactionId) ∧
      (handle sha256 frame s).1.lastReceivedSequence =
        (if frame.type = .hello then 0 else s.1.lastReceivedSequence) := by
  rcases handle_cases sha256 frame with ⟨hhello, h⟩ | ⟨hhello, -, h⟩ | ⟨hhello, -, type, payload, -, h⟩
  · rw [h, if_pos hhello, if_pos hhello]
    exact codecSend_codec .hello [] (s.1.setTransaction frame.transactionId, s.2)
  · rw [h, if_neg hhello, if_neg hhello]
    exact codecSend_codec _ _ (offered frame s)
  · rw [h, if_neg hhello, if_neg hhello]
    exact codecSend_codec _ _ s

/-- The bridge is an owner that the codec can rely on: it leaves the buffer alone and touches the filter by a
`HELLO` only. -/
theorem TradeBridge.handle_tame (sha256 : Bytes → Bytes) : Codec.Tame (handle sha256) where
  rx := handle_local sha256
  transaction := by
    intro frame s h
    rw [(handle_codec sha256 frame s).1]
    split
    · exact h
    · rfl
  last := by
    intro frame s
    rw [(handle_codec sha256 frame s).2]
    split
    · exact Nat.zero_le _
    · exact le_refl _

/-! ## §2 — arbitrary chunks. -/

section Deliveries

variable {σ : Type} {receive : ParsedFrame → Codec × σ → Codec × σ}

theorem handed_eq (hl : Codec.Local receive) {c : Codec} (owner : σ) (chunks : List Bytes)
    (hrx : c.rx = []) :
    (Codec.feedAll (Codec.logged receive) chunks (c, owner, [])).2.2 =
      (Codec.deliverAll (Codec.logged receive) (Codec.received chunks []).1 (c, owner, [])).2.2 := by
  rw [Codec.feedAll_eq (Codec.logged_local hl)]
  show (Codec.deliverAll (Codec.logged receive) (Codec.received chunks c.rx).1 (c, owner, [])).2.2 = _
  rw [hrx]

/-- What is handed over is no longer than what was recognised, and a chunk that did not fit was not, so some
frame is missing for good. -/
theorem lost_of_not_fits (hl : Codec.Local receive) {c : Codec} (owner : σ) {fs : List Frame}
    {chunks : List Bytes} (hrx : c.rx = []) (hcut : chunks.flatten = wire Frame.encode fs)
    (hfit : ¬ Fits Frame.encode maxFrame 0 fs chunks) :
    (Codec.feedAll (Codec.logged receive) chunks (c, owner, [])).2.2 ≠ fs.map parsed := by
  rw [handed_eq hl owner chunks hrx]
  intro h
  obtain ⟨handed, hsub, hhanded⟩ :=
    Codec.deliverAll_sublist receive (Codec.received chunks []).1 (c, owner, [])
  rw [List.nil_append] at hhanded
  have hw : wire Frame.encode fs = [] ++ chunks.flatten := hcut.symm
  have hlost := Codec.received_overflow hw (Codec.codec_delimits.short_zero fs) hfit
  have hweight := Codec.totalWeight_sublist hsub
  rw [← hhanded, h, Codec.totalWeight_parsed, ← hcut] at hweight
  simp only [List.length_nil, Nat.zero_add] at hlost
  omega

/-- **Acceptable frames are delivered, each once and in order, exactly when every chunk fits**: the bytes
of the frame under way that came with earlier chunks and the chunk itself are no more than `maxFrame`. -/
theorem delivers_iff_fits (hr : Codec.Tame receive) {c : Codec} (owner : σ) {fs : List Frame}
    {chunks : List Bytes} (hrx : c.rx = []) (ha : Codec.Acceptable c (fs.map parsed))
    (hcut : chunks.flatten = wire Frame.encode fs) :
    (Codec.feedAll (Codec.logged receive) chunks (c, owner, [])).2.2 = fs.map parsed ↔
      Fits Frame.encode maxFrame 0 fs chunks := by
  constructor
  · intro h
    by_contra hfit
    exact lost_of_not_fits hr.rx owner hrx hcut hfit h
  · intro hfit
    have hw : wire Frame.encode fs = [] ++ chunks.flatten := hcut.symm
    rw [handed_eq hr.rx owner chunks hrx,
      Codec.received_stream hw (Codec.codec_delimits.short_zero fs) hfit]
    exact Codec.deliverAll_acceptable hr ha

end Deliveries

namespace Sample

/-- The first 4096 bytes of `a` and then the rest of it and all of `b`, in chunks of 64 bytes: the 65th
chunk holds the end of the one and the beginning of the other. -/
def straddle (a b : Bytes) : List Bytes :=
  Codec.chunked (a.take 4096) ++ [a.drop 4096 ++ b.take 28, b.drop 28]

theorem flatten_straddle (a b : Bytes) : (straddle a b).flatten = a ++ b := by
  simp only [straddle, List.flatten_append, Codec.flatten_chunked, List.flatten_cons,
    List.flatten_nil, List.append_nil]
  rw [List.append_assoc, List.take_append_drop, ← List.append_assoc, List.take_append_drop]

theorem length_straddle {a b : Bytes} (ha : a.length = 4132) (hb : b.length = 36) :
    ∀ chunk ∈ straddle a b, 1 ≤ chunk.length ∧ chunk.length ≤ 64 := by
  intro chunk hchunk
  rcases List.mem_append.mp hchunk with h | h
  · obtain ⟨hne, hle⟩ := Codec.length_chunked h
    exact ⟨List.length_pos_of_ne_nil hne, hle⟩
  · rcases List.mem_pair.mp h with rfl | rfl
    · simp only [List.length_append, List.length_drop, List.length_take]
      omega
    · simp only [List.length_drop]
      omega

/-- The chunk across the two frames finds 4096 bytes in the buffer, and there is no room for another 64. -/
theorem straddle_not_fits {f g : Frame} (hf : f.encode.length = 4132) (hg : g.encode.length = 36) :
    ¬ Fits Frame.encode maxFrame 0 [f, g] (straddle f.encode g.encode) := by
  intro h
  have hchunk := h (Codec.chunked (f.encode.take 4096)) (f.encode.drop 4096 ++ g.encode.take 28)
    [g.encode.drop 28] rfl
  have hbytes : 0 + (Codec.chunked (f.encode.take 4096)).flatten.length = 4096 := by
    rw [Codec.flatten_chunked, List.length_take]
    omega
  have hm : maxFrame = 4132 := rfl
  rw [hbytes, arrive, if_neg (by omega)] at hchunk
  simp only [List.length_append, List.length_drop, List.length_take] at hchunk
  omega

/-- A frame as long as the buffer, and a short one behind it. -/
def longest : Frame := .trimmed .error .nil 1 (List.replicate maxPayload 0)

def behind : Frame := .trimmed .getCapabilities .nil 2 []

def across : List Bytes := straddle longest.encode behind.encode

theorem length_longest : longest.encode.length = 4132 := by
  have hpayload : longest.payload.length = maxPayload := by
    show ((List.replicate maxPayload (0 : UInt8)).take maxPayload).length = maxPayload
    rw [List.length_take, List.length_replicate, Nat.min_self]
  rw [longest.length_encode, hpayload]
  rfl

theorem length_behind : behind.encode.length = 36 := by
  rw [behind.length_encode]
  rfl

theorem flatten_across : across.flatten = wire Frame.encode [longest, behind] := by
  rw [across, flatten_straddle, wire_cons, wire_cons, wire_nil, List.append_nil]

theorem across_acceptable : Codec.Acceptable {} ([longest, behind].map parsed) := by
  have hframes : [longest, behind].map parsed = [parsed longest, parsed behind] := rfl
  rw [hframes]
  refine ⟨?_, List.pairwise_pair.mpr (by decide : (1 : Nat) < 2), ?_⟩
  · intro frame hframe
    rcases List.mem_pair.mp hframe with rfl | rfl
    · rfl
    · rfl
  · intro frame hframe
    rcases List.mem_pair.mp hframe with rfl | rfl
    · exact (by decide : (0 : Nat) < 1)
    · exact (by decide : (0 : Nat) < 2)

/-- **A chunk across two frames is lost**, with what was in the buffer. -/
theorem long_frame_lost :
    across.flatten = wire Frame.encode [longest, behind] ∧
      (∀ chunk ∈ across, 1 ≤ chunk.length ∧ chunk.length ≤ 64) ∧
      Codec.Acceptable {} ([longest, behind].map parsed) ∧
      (Codec.feedAll (Codec.logged (TradeBridge.handle Lib.sha256)) across ({}, {}, [])).2.2 ≠
        [longest, behind].map parsed :=
  ⟨flatten_across, length_straddle length_longest length_behind, across_acceptable,
    lost_of_not_fits (TradeBridge.handle_local Lib.sha256) {} rfl flatten_across
      (straddle_not_fits length_longest length_behind)⟩

theorem delivers_iff_fits_across :
    Codec.Acceptable {} ([longest, behind].map parsed) ∧
      ((Codec.feedAll (Codec.logged (TradeBridge.handle Lib.sha256)) across ({}, {}, [])).2.2 =
        [longest, behind].map parsed ↔ Fits Frame.encode maxFrame 0 [longest, behind] across) :=
  ⟨across_acceptable, delivers_iff_fits (TradeBridge.handle_tame Lib.sha256) {} rfl across_acceptable
    flatten_across⟩

end Sample

/-! ## §3 — the packets of the host. -/

/-- Frames written one after the other by the serial transport of the host, which raises when a write does. -/
def writeFrames : List Frame → SerialTransport → Except Exc Unit × SerialTransport
  | [], t => (.ok (), t)
  | f :: fs, t =>
      match t.write f.encode with
      | (.error e, t) => (.error e, t)
      | (.ok (), t) => writeFrames fs t

theorem writeFrames_ok (fs : List Frame) {port : Port} (hport : port.writes = [])
    {t : SerialTransport} (ht : t.serial = some port) :
    writeFrames fs t = (.ok (), { t with serial := some { port with
      written := port.written ++
        (fs.flatMap fun f => SerialTransport.packets f.encode).map Packet.encode } }) := by
  induction fs generalizing port t with
  | nil =>
      obtain ⟨serial, outer, buffer⟩ := t
      simp only at ht
      subst ht
      simp [writeFrames]
  | cons f fs ih =>
      rw [writeFrames, SerialTransport.write_ok hport ht]
      simp only
      rw [ih (by exact hport) rfl]
      simp

/-- Both sides cut a frame in the same places. -/
theorem pieces_eq (data : Bytes) : SerialTransport.pieces data = Codec.chunked data := by
  rw [SerialTransport.pieces, Codec.chunked]
  refine List.map_congr_left ?_
  intro i _
  rw [slice, Nat.add_sub_cancel_left]
  rfl

section Deliveries

variable {σ : Type} {receive : ParsedFrame → Codec × σ → Codec × σ}

/-- **Every frame that the host writes is delivered.**  The packets that `write` makes of acceptable frames
all go to the data channel; fed to the codec one by one they hand over exactly these frames, in order, never
empty the buffer on the way, and leave it empty. -/
theorem host_frames_reach_device (hr : Codec.Tame receive) {c : Codec} (owner : σ) {fs : List Frame}
    (hrx : c.rx = []) (ha : Codec.Acceptable c (fs.map parsed)) {port : Port} {t : SerialTransport}
    (ht : t.serial = some port) (hport : port.writes = []) :
    ∃ packets : List Packet, (∀ p ∈ packets, p.channel = .data) ∧
      writeFrames fs t = (.ok (), { t with serial := some { port with
        written := port.written ++ packets.map Packet.encode } }) ∧
      (Codec.feedAll (Codec.logged receive) (packets.map Packet.payload) (c, owner, [])).2.2 =
        fs.map parsed ∧
      Codec.overflows (Codec.logged receive) (packets.map Packet.payload) (c, owner, []) = false ∧
      (Codec.feedAll (Codec.logged receive) (packets.map Packet.payload) (c, owner, [])).1.rx = [] := by
  have hpayloads : (fs.flatMap fun f => SerialTransport.packets f.encode).map Packet.payload =
      fs.flatMap fun f => Codec.chunked f.encode := by
    rw [List.map_flatMap]
    simp only [SerialTransport.packets_payload, pieces_eq]
  have hflat : (fs.flatMap fun f => Codec.chunked f.encode).flatten = wire Frame.encode fs := by
    rw [wire, List.flatMap_def, List.flatMap_def, List.flatten_flatten, List.map_map]
    simp only [Function.comp_def, Codec.flatten_chunked]
  have hfit : Fits Frame.encode maxFrame 0 fs (fs.flatMap fun f => Codec.chunked f.encode) := by
    refine fits_wire (fun f : Frame => Codec.flatten_chunked f.encode)
      (fun f piece hp => (Codec.length_chunked hp).1) ?_
    intro f _
    have hpay := f.payload_le
    rw [f.length_encode, maxFrame]
    omega
  have hrec : Codec.received (fs.flatMap fun f => Codec.chunked f.encode) [] = (fs.map parsed, []) := by
    have hw : wire Frame.encode fs = [] ++ (fs.flatMap fun f => Codec.chunked f.encode).flatten :=
      hflat.symm
    exact Codec.received_stream hw (Codec.codec_delimits.short_zero fs) hfit
  refine ⟨fs.flatMap fun f => SerialTransport.packets f.encode, ?_, writeFrames_ok fs hport ht, ?_, ?_, ?_⟩
  · intro p hp
    obtain ⟨f, -, hpf⟩ := List.mem_flatMap.mp hp
    obtain ⟨i, -, rfl⟩ := List.mem_map.mp hpf
    rfl
  · rw [hpayloads, handed_eq hr.rx owner _ hrx, hrec]
    exact Codec.deliverAll_acceptable hr ha
  · rw [hpayloads]
    have hw : wire Frame.encode fs = c.rx ++ (fs.flatMap fun f => Codec.chunked f.encode).flatten := by
      rw [hrx, hflat]
      rfl
    refine Codec.overflows_stream (Codec.logged_local hr.rx) hw ?_ ?_
    · show Short Frame.encode c.rx.length fs
      rw [hrx]
      exact Codec.codec_delimits.short_zero fs
    · show Fits Frame.encode maxFrame c.rx.length fs _
      rw [hrx]
      exact hfit
  · rw [hpayloads, Codec.feedAll_eq (Codec.logged_local hr.rx)]
    show (Codec.received _ c.rx).2 = []
    rw [hrx, hrec]

end Deliveries

theorem host_frames_reach_device_pair :
    ∃ packets : List Packet, (∀ p ∈ packets, p.channel = .data) ∧
      writeFrames [Sample.longest, Sample.behind] { serial := some {} } = (.ok (), {
        serial := some { written := packets.map Packet.encode } }) ∧
      (Codec.feedAll (Codec.logged (TradeBridge.handle Lib.sha256)) (packets.map Packet.payload)
        ({}, {}, [])).2.2 = [Sample.longest, Sample.behind].map parsed ∧
      Codec.overflows (Codec.logged (TradeBridge.handle Lib.sha256)) (packets.map Packet.payload)
        ({}, {}, []) = false ∧
      (Codec.feedAll (Codec.logged (TradeBridge.handle Lib.sha256)) (packets.map Packet.payload)
        ({}, {}, [])).1.rx = [] :=
  host_frames_reach_device (TradeBridge.handle_tame Lib.sha256) {} rfl Sample.across_acceptable
    (rfl : ({ serial := some {} } : SerialTransport).serial = some {}) rfl

end TradeBroker.Firmware
