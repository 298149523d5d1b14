/-
# TradeBroker.Firmware.Codec — the frame codec of the device.

`firmware/gb-link/broker_protocol.cpp`.  The receive buffer is a list of at most `maxFrame` bytes,
the four words of `Codec` are its other fields, and the two callbacks are what they do: `receive` is
a function on the codec and the state `σ` of its owner, the transport is a `Link` of the answers it
has still to give and the chunks it took.

`turn` is one pass through the loop of `consume` up to the point where a frame has passed its CRC;
`deliver` is the rest of that pass, the transaction and replay filter and the call of the handler.
The bitwise loop of `crc32` is the division by the IEEE generator (`crc32_eq_remainder`).
The device reads what the host writes (`codec_delimits`), and `consume` delivers what the scan of its
buffer finds, one frame after the other (`consume_eq`).

The list codec is the level at which the firmware is compared with anything else: `Firmware.Buffer` shows
that the array of the source does what the list does, and everything else in `Firmware` is about the list.

The order of the checks is that of the source, since it decides what is skipped: magic, version, length,
CRC, and only then the type.  A frame that passes its CRC is taken off the buffer whatever the filter
makes of it.
-/
import TradeBroker.Gba.Protocol
import TradeBroker.Lib.Remainder

namespace TradeBroker.Firmware

open Lib
open Gba (magic version headerSize crcSize maxPayload Frame Header)

/-! ## §1 — frames. -/

def maxFrame : Nat := headerSize + maxPayload + crcSize

/-- `enum class Message : uint8_t`: any byte can be cast to one, and the source does so with a byte of the
wire. -/
structure Message where
  raw : UInt8
  deriving DecidableEq

namespace Message

def hello : Message := ⟨0x01⟩
def getCapabilities : Message := ⟨0x02⟩
def capabilities : Message := ⟨0x03⟩
def tradeSessionStarted : Message := ⟨0x10⟩
def partnerParty : Message := ⟨0x11⟩
def partnerSelectedSlot : Message := ⟨0x12⟩
def partnerSelectedMon : Message := ⟨0x13⟩
def setOfferMon : Message := ⟨0x20⟩
def offerReady : Message := ⟨0x21⟩
def tradeNegotiation : Message := ⟨0x22⟩
def tradeCommitted : Message := ⟨0x23⟩
def tradeAborted : Message := ⟨0x24⟩
def tradeLinkClosed : Message := ⟨0x25⟩
def abortIfSafe : Message := ⟨0x26⟩
def error : Message := ⟨0x7f⟩

/-- The enumerators, in the order of their values. -/
def all : List Message :=
  [hello, getCapabilities, capabilities, tradeSessionStarted, partnerParty, partnerSelectedSlot,
   partnerSelectedMon, setOfferMon, offerReady, tradeNegotiation, tradeCommitted, tradeAborted,
   tradeLinkClosed, abortIfSafe, error]

/-- **Both sides number the messages alike**, so a type that one of them writes is the type that the other one
reads. -/
theorem all_eq : all = Gba.MessageType.all.map fun t => ⟨t.code⟩ := by
  decide

end Message

structure ParsedFrame where
  type : Message
  transactionId : Uuid
  sequence : Nat
  payload : Bytes
  deriving DecidableEq

/-- One step of the inner loop of `crc32`: the mask is all ones when the low bit is set. -/
def crcShift (crc : UInt32) : UInt32 := (crc >>> 1) ^^^ (0xedb88320 &&& -(crc &&& 1))

/-- `crc32`, the firmware's own loop over the bits. -/
def crc32 (bytes : Bytes) : UInt32 :=
  ~~~ (bytes.foldl (fun crc byte => (List.range 8).foldl (fun c _ => crcShift c) (crc ^^^ byte.toUInt32))
    0xffffffff)

theorem crcShift_eq (crc : UInt32) : crcShift crc = crcBit crc := by
  have hbit : crc &&& 1 = 0 ∨ crc &&& 1 = 1 := by
    have hnat : (crc &&& 1).toNat = crc.toNat % 2 := by
      simp
    rcases Nat.mod_two_eq_zero_or_one crc.toNat with h | h
    · exact Or.inl (UInt32.toNat_inj.mp (by rw [hnat, h]; rfl))
    · exact Or.inr (UInt32.toNat_inj.mp (by rw [hnat, h]; rfl))
  rcases hbit with h | h
  · have hmask : (0xedb88320 : UInt32) &&& -0 = 0 := by decide
    rw [crcShift, crcBit, h, hmask, if_neg (by decide), UInt32.xor_zero]
  · have hmask : (0xedb88320 : UInt32) &&& -1 = 0xEDB88320 := by decide
    rw [crcShift, crcBit, h, hmask, if_pos rfl]

/-- **Both sides compute the same CRC**, although the loop of the firmware has a mask where the other one has
a condition. -/
theorem crc32_eq (bytes : Bytes) : crc32 bytes = Lib.crc32 bytes := by
  have hbyte : (fun (crc : UInt32) (byte : UInt8) =>
      (List.range 8).foldl (fun c _ => crcShift c) (crc ^^^ byte.toUInt32)) = crcByte := by
    funext crc byte
    simp only [crcByte, crcShift_eq]
  rw [crc32, hbyte, Lib.crc32]

/-- **The loop is polynomial division.**  With the bits of each byte taken lowest first, `crc32` is the
reflected remainder of the message times `X ^ 32`, the first 32 bits complemented, modulo the IEEE generator,
and complemented at the end. -/
theorem crc32_eq_remainder (bytes : Bytes) :
    crc32 bytes =
      ~~~ reflected ((bitsPoly (complementFirst 32
        (bitsOf bytes ++ List.replicate 32 false))).modByMonic ieee) := by
  rw [crc32_eq, Lib.crc32, foldl_crcByte, feedBits_eq_remainder]

/-! ## §2 — the codec. -/

/-- The fields of `Codec`; `rx` is the used part of the receive buffer, and the rest are the transaction and
the two counters. -/
structure Codec where
  rx : Bytes := []
  transactionId : Uuid := .nil
  sendSequence : Nat := 0
  lastReceivedSequence : Nat := 0

namespace Codec

/-- `setTransaction`: another id, and both counters start over. -/
def setTransaction (transactionId : Uuid) (c : Codec) : Codec :=
  { c with transactionId := transactionId, sendSequence := 0, lastReceivedSequence := 0 }

def read16 (rx : Bytes) (i : Nat) : Nat := leNat (slice rx i (i + 2))

def read32 (rx : Bytes) (i : Nat) : Nat := leNat (slice rx i (i + 4))

/-- One pass through the loop of `consume`, up to the frame that passed its CRC; it looks at the buffer only,
and it never fails. -/
def turn (rx : Bytes) : Turn ParsedFrame Empty :=
  if rx.length < magic.length then .wait rx
  else if rx.take magic.length ≠ magic then .skip (rx.drop 1)
  else if rx.length < headerSize then .wait rx
  else
    let frameVersion := rx.getD 4 0
    let flags := read16 rx 6
    let payloadSize := read32 rx 8
    if frameVersion ≠ version ∨ flags ≠ 0 ∨ maxPayload < payloadSize then .skip (rx.drop magic.length)
    else
      let frameSize := headerSize + payloadSize + crcSize
      if rx.length < frameSize then .wait rx
      else
        let expected := read32 rx (headerSize + payloadSize)
        if (crc32 (slice rx 0 (headerSize + payloadSize))).toNat ≠ expected then
          .skip (rx.drop magic.length)
        else
          .emit
            { type := ⟨rx.getD 5 0⟩
              transactionId := Uuid.ofBytes (slice rx 12 28)
              sequence := read32 rx 28
              payload := slice rx headerSize (headerSize + payloadSize) }
            (rx.drop frameSize)

section Receive

variable {σ : Type} (receive : ParsedFrame → Codec × σ → Codec × σ)

/-- The filter and the call of the handler: a frame of another transaction is dropped, and so is one whose
number is not above the last one that was received. -/
def deliver (frame : ParsedFrame) (s : Codec × σ) : Codec × σ :=
  if frame.transactionId ≠ s.1.transactionId ∨ frame.sequence ≤ s.1.lastReceivedSequence then s
  else receive frame ({ s.1 with lastReceivedSequence := frame.sequence }, s.2)

/-- `consume`, at most `n` passes of its loop. -/
def consume : Nat → Codec × σ → Codec × σ
  | 0, s => s
  | n + 1, s =>
      match turn s.1.rx with
      | .wait _ => s
      | .skip rest => consume n ({ s.1 with rx := rest }, s.2)
      | .emit frame rest =>
          -- the frame is discarded after the handler, which leaves the receive buffer alone
          let s := deliver receive frame s
          consume n ({ s.1 with rx := rest }, s.2)

/-- `feed`: a chunk that does not fit empties the buffer, any other chunk is put behind it and the buffer is
consumed. -/
def feed (bytes : Bytes) (s : Codec × σ) : Codec × σ :=
  if maxFrame - s.1.rx.length < bytes.length then ({ s.1 with rx := [] }, s.2)
  else
    let rx := s.1.rx ++ bytes
    consume receive (rx.length + 1) ({ s.1 with rx := rx }, s.2)

/-- The chunks of a transport, in order, each by a call of `feed`. -/
def feedAll (chunks : List Bytes) (s : Codec × σ) : Codec × σ :=
  chunks.foldl (fun s bytes => feed receive bytes s) s

end Receive

end Codec

/-- The transport below the codec: whether it takes the chunks to come (all, once the list is exhausted), and
the chunks it took. -/
structure Link where
  answers : List Bool := []
  sent : List Bytes := []
  /-- The frames that `send` built, in order; the transport sees their chunks only. -/
  frames : List ParsedFrame := []

/-- `Transport::sendData`: the next answer of the transport, and the chunk if it was taken. -/
def Link.sendData (chunk : Bytes) (l : Link) : Bool × Link :=
  match l.answers with
  | [] => (true, { l with sent := l.sent ++ [chunk] })
  | true :: rest => (true, { l with answers := rest, sent := l.sent ++ [chunk] })
  | false :: rest => (false, { l with answers := rest })

namespace Codec

/-- The loop over the chunks of a frame: it stops at the first that the transport refuses. -/
def sendChunks : List Bytes → Link → Bool × Link
  | [], l => (true, l)
  | chunk :: chunks, l =>
      match l.sendData chunk with
      | (false, l) => (false, l)
      | (true, l) => sendChunks chunks l

/-- The bytes of a frame, `m_tx`: the header, the payload and the CRC of both. -/
def encode (c : Codec) (type : Message) (payload : Bytes) : Bytes :=
  let body := magic ++ ([version] ++ ([type.raw] ++ (leBytes 2 0 ++ (leBytes 4 payload.length ++
    (c.transactionId.bytes ++ leBytes 4 c.sendSequence))))) ++ payload
  body ++ leBytes 4 (crc32 body).toNat

/-- Pieces of 64 bytes, the last one what is left. -/
def chunked (bs : Bytes) : List Bytes :=
  (List.range ((bs.length + 63) / 64)).map fun i => (bs.drop (64 * i)).take 64

/-- `send`: the counter goes up for a frame that could be built, whether the transport takes all of it or not. -/
def send (type : Message) (payload : Bytes) (c : Codec) (l : Link) : Bool × Codec × Link :=
  if maxPayload < payload.length then (false, c, l)
  else
    let c := { c with sendSequence := (c.sendSequence + 1) % 2 ^ 32 }
    let frame : ParsedFrame := ⟨type, c.transactionId, c.sendSequence, payload⟩
    let r := sendChunks (chunked (c.encode type payload)) { l with frames := l.frames ++ [frame] }
    (r.1, c, r.2)

end Codec

namespace Codec

theorem flatten_chunked (bs : Bytes) : (chunked bs).flatten = bs := flatten_pieces (by omega)

/-- No piece is empty or too long for a packet. -/
theorem length_chunked {bs piece : Bytes} (h : piece ∈ chunked bs) :
    piece ≠ [] ∧ piece.length ≤ 64 := by
  obtain ⟨i, hi, rfl⟩ := List.mem_map.mp h
  rw [List.mem_range] at hi
  refine ⟨?_, List.length_take_le _ _⟩
  apply List.ne_nil_of_length_pos
  rw [List.length_take, List.length_drop]
  omega

end Codec

/-! ## §3 — the device reads what the host writes. -/

/-- A host frame as the device parses it, field by field. -/
def parsed (f : Frame) : ParsedFrame := ⟨⟨f.messageType.code⟩, f.transactionId, f.sequence, f.payload⟩

namespace Codec

theorem turn_encode (f : Frame) (tail : Bytes) : turn (f.encode ++ tail) = .emit (parsed f) tail := by
  have hpay : f.payload.length ≤ maxPayload := f.payload_le
  have hlen : (f.encode ++ tail).length = headerSize + f.payload.length + crcSize + tail.length := by
    rw [List.length_append, f.length_encode]
  have hmlen : magic.length = 4 := rfl
  have hh : headerSize = 32 := rfl
  have hmagic : (f.encode ++ tail).take magic.length = magic := by
    obtain ⟨bs, hbs⟩ := f.encode_eq_magic
    rw [hbs, List.append_assoc, List.take_left]
  -- the fields, read where the header has them
  have hunpack := f.unpackFrom_encode tail
  have hversion : (f.encode ++ tail).getD 4 0 = version := congrArg Header.version hunpack
  have htype : (f.encode ++ tail).getD 5 0 = f.messageType.code := congrArg Header.rawType hunpack
  have hflags : read16 (f.encode ++ tail) 6 = 0 := congrArg Header.flags hunpack
  have hsize : read32 (f.encode ++ tail) 8 = f.payload.length := congrArg Header.size hunpack
  have htxid : slice (f.encode ++ tail) 12 28 = f.transactionId.bytes := congrArg Header.txid hunpack
  have hseq : read32 (f.encode ++ tail) 28 = f.sequence := congrArg Header.sequence hunpack
  have hcrc : read32 (f.encode ++ tail) (headerSize + f.payload.length) = (Lib.crc32 f.body).toNat :=
    f.leNat_slice_crc tail
  have hpayload : slice (f.encode ++ tail) headerSize (headerSize + f.payload.length) = f.payload := by
    have e : f.encode ++ tail = f.header.pack ++ (f.payload ++
        (leBytes crcSize (Lib.crc32 f.body).toNat ++ tail)) := by
      simp only [Frame.encode, Frame.body, List.append_assoc]
    rw [e]
    exact slice_append f.header_fits.length_pack rfl
  simp only [turn, hmagic, hversion, htype, hflags, hsize, htxid, hseq, hcrc, hpayload, hlen,
    f.slice_body tail, f.drop_encode tail, crc32_eq, Uuid.ofBytes_bytes, ne_eq, not_true_eq_false,
    if_false, false_or]
  rw [if_neg (by omega), if_neg (by omega), if_neg (by omega), if_neg (by omega)]
  rfl

theorem turn_part {f : Frame} {p q : Bytes} (h : f.encode = p ++ q) (hq : q ≠ []) :
    turn p = .wait p := by
  have hqpos := List.length_pos_of_ne_nil hq
  have hsum : p.length + q.length = headerSize + f.payload.length + crcSize := by
    rw [← f.length_encode, h, List.length_append]
  have hmlen : magic.length = 4 := rfl
  by_cases hshort : p.length < magic.length
  · rw [turn, if_pos hshort]
  · obtain ⟨p', hp'⟩ := Frame.part_magic h (by omega)
    have hmagic : p.take magic.length = magic := by
      rw [hp', List.take_left]
    by_cases hhead : p.length < headerSize
    · simp only [turn, hmagic, ne_eq, not_true_eq_false, if_false]
      rw [if_neg hshort, if_pos hhead]
    · have hunpack := Frame.part_header h (by omega)
      have hversion : p.getD 4 0 = version := congrArg Header.version hunpack
      have hflags : read16 p 6 = 0 := congrArg Header.flags hunpack
      have hsize : read32 p 8 = f.payload.length := congrArg Header.size hunpack
      have hpay : f.payload.length ≤ maxPayload := f.payload_le
      simp only [turn, hmagic, hversion, hflags, hsize, ne_eq, not_true_eq_false, if_false, false_or]
      rw [if_neg hshort, if_neg hhead, if_neg (by omega), if_pos (by omega)]

/-- **The device reads what the host encodes**: a whole frame is taken off the buffer, and a part of one is
left alone. -/
theorem codec_delimits : Delimits turn Frame.encode parsed where
  nonempty := Frame.encode_ne_nil
  idle := rfl
  emit := turn_encode
  wait := by
    intro f p q h hq
    exact turn_part h hq

/-- **What a pass can do**: leave the buffer alone, skip some of it, or take a frame off it. -/
theorem turn_cases (rx : Bytes) :
    turn rx = .wait rx ∨
      (∃ n, 0 < n ∧ n ≤ rx.length ∧ turn rx = .skip (rx.drop n)) ∨
      ∃ size frame, headerSize + size + crcSize ≤ rx.length ∧
        frame.payload = slice rx headerSize (headerSize + size) ∧
        turn rx = .emit frame (rx.drop (headerSize + size + crcSize)) := by
  have hmlen : magic.length = 4 := rfl
  unfold turn
  simp only
  split
  · exact Or.inl rfl
  · split
    · exact Or.inr (Or.inl ⟨1, by omega, by omega, rfl⟩)
    · split
      · exact Or.inl rfl
      · split
        · exact Or.inr (Or.inl ⟨magic.length, by omega, by omega, rfl⟩)
        · split
          · exact Or.inl rfl
          · split
            · exact Or.inr (Or.inl ⟨magic.length, by omega, by omega, rfl⟩)
            · exact Or.inr (Or.inr ⟨read32 rx 8, _, by omega, rfl, rfl⟩)

theorem turn_wait {rx rest : Bytes} (h : turn rx = .wait rest) : rest = rx := by
  rcases turn_cases rx with hc | ⟨n, -, -, hc⟩ | ⟨size, frame, -, -, hc⟩
  · rw [hc] at h
    injection h with h
    exact h.symm
  · rw [hc] at h
    cases h
  · rw [hc] at h
    cases h

/-! ## §4 — the scan and the deliveries. -/

section Stream

variable {σ : Type} {receive : ParsedFrame → Codec × σ → Codec × σ}

/-- The state with another receive buffer. -/
def withRx (rx : Bytes) (s : Codec × σ) : Codec × σ := ({ s.1 with rx := rx }, s.2)

/-- The handler neither reads nor writes the receive buffer, which holds of the handler of the source, as it
only gets the frame. -/
def Local (receive : ParsedFrame → Codec × σ → Codec × σ) : Prop :=
  ∀ frame s rx, receive frame (withRx rx s) = withRx rx (receive frame s)

theorem deliver_withRx (hl : Local receive) (frame : ParsedFrame) (s : Codec × σ) (rx : Bytes) :
    deliver receive frame (withRx rx s) = withRx rx (deliver receive frame s) := by
  unfold deliver
  show (if frame.transactionId ≠ s.1.transactionId ∨ frame.sequence ≤ s.1.lastReceivedSequence
    then withRx rx s
    else receive frame (withRx rx ({ s.1 with lastReceivedSequence := frame.sequence }, s.2))) = _
  split
  · rfl
  · exact hl frame _ rx

/-- Frames delivered one after the other, each through the filter as it stands. -/
def deliverAll (receive : ParsedFrame → Codec × σ → Codec × σ) (frames : List ParsedFrame)
    (s : Codec × σ) : Codec × σ :=
  frames.foldl (fun s frame => deliver receive frame s) s

theorem deliverAll_withRx (hl : Local receive) (frames : List ParsedFrame) (s : Codec × σ)
    (rx : Bytes) :
    deliverAll receive frames (withRx rx s) = withRx rx (deliverAll receive frames s) := by
  induction frames generalizing s with
  | nil => rfl
  | cons frame frames ih =>
      show deliverAll receive frames (deliver receive frame (withRx rx s)) = _
      rw [deliver_withRx hl]
      exact ih _

/-- **`consume` delivers what the scan of its buffer finds**, one frame after the other, and keeps what the
scan keeps. -/
theorem consume_eq (hl : Local receive) (n : Nat) (s : Codec × σ) :
    consume receive n s =
      withRx (scan turn n s.1.rx).rest (deliverAll receive (scan turn n s.1.rx).found s) := by
  induction n generalizing s with
  | zero => rfl
  | succ n ih =>
      rw [consume, scan]
      cases ht : turn s.1.rx with
      | wait rest =>
          have := turn_wait ht
          subst this
          rfl
      | skip rest =>
          show consume receive n (withRx rest s) = _
          rw [ih]
          show withRx _ (deliverAll receive _ (withRx rest s)) = _
          rw [deliverAll_withRx hl]
          rfl
      | emit frame rest =>
          show consume receive n (withRx rest (deliver receive frame s)) = _
          rw [ih]
          show withRx _ (deliverAll receive _ (withRx rest (deliver receive frame s))) = _
          rw [deliverAll_withRx hl]
          rfl
      | fail e rest => exact e.elim

end Stream

end Codec

end TradeBroker.Firmware
