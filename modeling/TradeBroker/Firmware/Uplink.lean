/-
# TradeBroker.Firmware.Uplink — device frames on their way to the host.

Three layers, in two languages.  The codec of the device writes a frame by hand-made offsets and cuts it
into chunks; the transport below it packs each chunk (`GB`, channel, length), between packets of the other
channels; the host takes the packets apart, and its decoder reads frames off the data bytes.  What comes
out is what went in: the same frames, in order, and all of them new to the replay window
(`device_frames_reach_host`).

⚠ The packing itself is the transport of the upstream firmware and not part of this repository: its format
is taken from `docs/protocol.md`.

Each layer has its own theorem and this module only joins them.  The codec writes the host's encodings,
numbered in order (`sendAll_frames`, `numbered_increasing`); the outer transport conserves the data
channel (`Gba.Fifo`); the decoder of the host finds the frames in any cutting (`Gba.RoundTrip`).  A
refused chunk is excluded, since a transport that drops a part of a frame has not sent it.
-/
import TradeBroker.Firmware.TradeBridge
import TradeBroker.Gba.RoundTrip
import TradeBroker.Gba.Serial

namespace TradeBroker.Firmware

open Lib
open Gba (maxPayload MessageType Frame FrameDecoder ReplayWindow Packet Port SerialTransport dataPayloads)

/-! ## §1 — the codec sends. -/

/-- The calls of `send`, and whether each succeeded; codec and link go from one call to the next. -/
def Codec.sendAll : List (Message × Bytes) → Codec → Link → List Bool × Codec × Link
  | [], c, l => ([], c, l)
  | (type, payload) :: sends, c, l =>
      let r := c.send type payload l
      let rs := sendAll sends r.2.1 r.2.2
      (r.1 :: rs.1, rs.2)

/-- The frames of these calls: numbered from the sequence number `n` on, under one transaction. -/
def numbered (transactionId : Uuid) : Nat → List (Message × Bytes) → List ParsedFrame
  | _, [] => []
  | n, (type, payload) :: sends =>
      ⟨type, transactionId, n + 1, payload⟩ :: numbered transactionId (n + 1) sends

/-- An enumerator is a message type of the host. -/
theorem exists_messageType {m : Message} (h : m ∈ Message.all) : ∃ t : MessageType, m = ⟨t.code⟩ := by
  rw [Message.all_eq] at h
  obtain ⟨t, -, rfl⟩ := List.mem_map.mp h
  exact ⟨t, rfl⟩

/-- **The codec sends the host's own encodings**, with the sequence numbers in order, as long as the numbers
do not wrap. -/
theorem sendAll_frames (sends : List (Message × Bytes)) {c : Codec} {l : Link}
    (hsends : ∀ send ∈ sends, send.1 ∈ Message.all ∧ send.2.length ≤ maxPayload)
    (hseq : c.sendSequence + sends.length < 2 ^ 32) (hanswers : l.answers = []) :
    ∃ fs : List Frame, fs.map parsed = numbered c.transactionId c.sendSequence sends ∧
      Codec.sendAll sends c l = (List.replicate sends.length true,
        { c with sendSequence := c.sendSequence + sends.length },
        { l with
          sent := l.sent ++ fs.flatMap fun f => Codec.chunked f.encode
          frames := l.frames ++ fs.map parsed }) := by
  induction sends generalizing c l with
  | nil => exact ⟨[], rfl, by simp [Codec.sendAll]⟩
  | cons send sends ih =>
      obtain ⟨type, payload⟩ := send
      obtain ⟨htype, hlen⟩ := hsends (type, payload) (by simp)
      obtain ⟨t, rfl⟩ := exists_messageType htype
      rw [List.length_cons] at hseq
      let f : Frame := ⟨t, c.transactionId, c.sendSequence + 1, payload, by omega, hlen⟩
      have hmod : (c.sendSequence + 1) % 2 ^ 32 = f.sequence := Nat.mod_eq_of_lt (by omega)
      have hsend : c.send ⟨t.code⟩ payload l = (true, { c with sendSequence := c.sendSequence + 1 },
          { l with sent := l.sent ++ Codec.chunked f.encode, frames := l.frames ++ [parsed f] }) :=
        TradeBridge.send_frame (f := f) rfl rfl hmod hanswers
      obtain ⟨fs, hfs, hall⟩ := ih (c := { c with sendSequence := c.sendSequence + 1 })
        (l := { l with sent := l.sent ++ Codec.chunked f.encode, frames := l.frames ++ [parsed f] })
        (fun s hs => hsends s (by simp [hs])) (by show c.sendSequence + 1 + sends.length < 2 ^ 32; omega)
        hanswers
      refine ⟨f :: fs, ?_, ?_⟩
      · rw [List.map_cons, hfs]
        rfl
      · simp only [Codec.sendAll, hsend, hall, List.length_cons, List.replicate_succ,
          List.flatMap_cons, List.map_cons, List.append_assoc, List.singleton_append]
        congr 3
        omega

/-- The numbers increase, so none of the frames is a replay. -/
theorem numbered_increasing (transactionId : Uuid) (n : Nat) (sends : List (Message × Bytes)) :
    (∀ frame ∈ numbered transactionId n sends, n < frame.sequence) ∧
      (numbered transactionId n sends).Pairwise fun a b => a.sequence < b.sequence := by
  induction sends generalizing n with
  | nil => exact ⟨by simp [numbered], List.Pairwise.nil⟩
  | cons send sends ih =>
      obtain ⟨type, payload⟩ := send
      obtain ⟨habove, hinc⟩ := ih (n + 1)
      rw [numbered]
      refine ⟨?_, List.pairwise_cons.mpr ⟨?_, hinc⟩⟩
      · intro frame hframe
        rcases List.mem_cons.mp hframe with rfl | hframe
        · exact Nat.lt_succ_self n
        · have := habove frame hframe
          omega
      · intro frame hframe
        exact habove frame hframe

/-! ## §2 — the host receives. -/

/-- The caller has everything: the port is silent and the data buffer empty, so a further read would bring
nothing. -/
def Drained (t : SerialTransport) : Prop :=
  t.dataBuffer = [] ∧ ∃ port, t.serial = some port ∧ port.reads = []

/-- **What the device sends, the host receives.**  The chunks of any calls of `send`, packed for the data
channel between packets of the other channels and cut in any way for the serial port: `read` raises nothing,
calls that go on long enough drain the transport, and once it is drained the decoder has raised nothing and
has returned exactly the frames of the calls, which a fresh replay window all accepts. -/
theorem device_frames_reach_host {c : Codec} {sends : List (Message × Bytes)}
    (hsends : ∀ send ∈ sends, send.1 ∈ Message.all ∧ send.2.length ≤ maxPayload)
    (hseq : c.sendSequence + sends.length < 2 ^ 32) {packets : List Packet}
    (hpack : dataPayloads packets = (Codec.sendAll sends c {}).2.2.sent) {chunks : List Bytes}
    (hcut : chunks.flatten = wire Packet.encode packets) (calls : List (Nat × Nat)) :
    let t : SerialTransport := { serial := some { reads := chunks.map .ok } }
    ∃ (given : List Bytes) (t' : SerialTransport), t.readAll calls = (given.map .ok, t') ∧
      ((∀ call ∈ calls, 0 < call.1 ∧ 0 < call.2) →
        (dataPayloads packets).flatten.length + chunks.length < calls.length → Drained t') ∧
      (Drained t' → ∃ (fs : List Frame) (lists : List (List Frame)),
        (FrameDecoder.feedAll given {}).1 = lists.map .ok ∧ lists.flatten = fs ∧
        fs.map parsed = numbered c.transactionId c.sendSequence sends ∧
        (ReplayWindow.acceptAll fs {}).1 = .ok ()) := by
  intro t
  have hwait : SerialTransport.Waiting t packets chunks.length :=
    ⟨_, rfl, ⟨⟨chunks, rfl, hcut.symm⟩, SerialTransport.outer_delimits.short_zero packets⟩, by simp⟩
  obtain ⟨given, t', left, m, hread, hwait', hgiven, -, hprogress⟩ :=
    SerialTransport.readAll_spec calls hwait
  refine ⟨given, t', hread, ?_, ?_⟩
  · intro hpos hmany
    have hunread : (SerialTransport.unread t packets).length = (dataPayloads packets).flatten.length := rfl
    rcases hprogress hpos with h | ⟨hnil, rfl⟩
    · omega
    · obtain ⟨port, hserial, -, hlen⟩ := hwait'
      exact ⟨(List.append_eq_nil_iff.mp hnil).1, port, hserial, List.length_eq_zero_iff.mp hlen⟩
  · rintro ⟨hdata, port, hserial, hreads⟩
    -- nothing is left, so the bytes given are the bytes of the frames
    obtain ⟨fs, hfs, hall⟩ := sendAll_frames sends hsends hseq (l := {}) rfl
    have hleft : left = [] := by
      obtain ⟨port', hserial', hpend, hlen⟩ := hwait'
      have hport : port' = port := Option.some.inj (hserial'.symm.trans hserial)
      refine SerialTransport.Waiting.silent ⟨port', hserial', hpend, ?_⟩
      rw [hport, hreads]
      rfl
    have hbytes : given.flatten = wire Frame.encode fs := by
      have hnone : SerialTransport.unread t' left = [] := by
        rw [SerialTransport.unread, hdata, hleft]
        rfl
      rw [hnone, List.append_nil] at hgiven
      rw [hgiven]
      show (dataPayloads packets).flatten = _
      rw [hpack, hall]
      show (fs.flatMap fun f => Codec.chunked f.encode).flatten = _
      rw [wire, List.flatMap_def, List.flatMap_def, List.flatten_flatten, List.map_map]
      simp only [Function.comp_def, Codec.flatten_chunked]
    obtain ⟨lists, hlists, hflat⟩ := FrameDecoder.feedAll_wire hbytes
    refine ⟨fs, lists, hlists, hflat, hfs, ?_⟩
    refine ReplayWindow.acceptAll_increasing ?_ (by simp)
    obtain ⟨-, hinc⟩ := numbered_increasing c.transactionId c.sendSequence sends
    rw [← hfs, List.pairwise_map] at hinc
    refine hinc.imp ?_
    intro a b h _
    exact h

namespace Sample

/-- The answer to a HELLO and a report, with a status packet between their chunks. -/
def sends : List (Message × Bytes) := [(.hello, []), (.tradeCommitted, List.replicate 64 7)]

def sentChunks : List Bytes := (Codec.sendAll sends {} {}).2.2.sent

def packed (chunk : Bytes) : Packet := ⟨.data, chunk.take 64, List.length_take_le 64 chunk⟩

def packets : List Packet :=
  (sentChunks.take 2).map packed ++ ⟨.status, [1, 2], by decide⟩ :: (sentChunks.drop 2).map packed

theorem packets_sent : dataPayloads packets = (Codec.sendAll sends {} {}).2.2.sent := by
  decide +kernel

theorem device_frames_reach_host_pair :
    ∃ (given : List Bytes) (lists : List (List Frame)),
      (FrameDecoder.feedAll given {}).1 = lists.map .ok ∧
        lists.flatten.map parsed = numbered .nil 0 sends ∧
        (ReplayWindow.acceptAll lists.flatten {}).1 = .ok () := by
  have hsends : ∀ send ∈ sends, send.1 ∈ Message.all ∧ send.2.length ≤ maxPayload := by decide
  obtain ⟨given, t', -, hdrain, hframes⟩ := device_frames_reach_host hsends (by decide) packets_sent
    (flatten_bytewise (wire Packet.encode packets)) (List.replicate 1000 (3, 1))
  have hcalls : ∀ call ∈ List.replicate 1000 (3, 1), 0 < call.1 ∧ 0 < call.2 := by
    intro call hcall
    rw [List.eq_of_mem_replicate hcall]
    decide
  obtain ⟨fs, lists, hlists, rfl, hfs, haccept⟩ := hframes (hdrain hcalls (by decide +kernel))
  exact ⟨given, lists, hlists, hfs, haccept⟩

end Sample

end TradeBroker.Firmware
