/-
# TradeBroker.Gba.Protocol — the framed v1 protocol of the GB-Link, host side.

`broker/gba/protocol.py`.  A frame is a 32-byte header (`struct` layout `<4sBBHI16sI`), a payload of
at most 4096 bytes and the CRC-32 of both.  `Frame` carries the two bounds that `__post_init__`
checks, so an encoding always fits its fields.

`FrameDecoder.turn` is one pass through the loop of `feed`, every refusal included, and `feed` is the
loop.  The decoder reads the format that `encode` writes (`decoder_delimits`): a whole encoding at
the front of the buffer is taken off as the frame it encodes, and a proper part of one stays where it
is.  What a decoder makes of a stream of frames, however it is cut, is then `Lib.scan_stream`.

The header is packed and unpacked field by field (`Header`), so that `Fits.unpackFrom_pack` is one
statement about the layout and every reader of a header uses it.  The checks come in the order of the
source: the length as soon as the header is there, then the CRC, the version, the flags and the type, and
at last the checks of `Frame` itself.  The replay window at the end is a map from transactions to numbers;
its size is not bounded by the source either.
-/
import TradeBroker.Lib.Scan
import TradeBroker.Domain

namespace TradeBroker.Gba

open Lib

/-! ## §1 — frames. -/

def magic : Bytes := [0x46, 0x47, 0x42, 0x52]

def version : UInt8 := 1

def maxPayload : Nat := 4096

/-- `HEADER.size`: 32 bytes. -/
def headerSize : Nat := 32

/-- `CRC.size`: 4 bytes. -/
def crcSize : Nat := 4

/-- `MessageType`, the commands of the host and the announcements of the device. -/
inductive MessageType where
  | hello
  | getCapabilities
  | capabilities
  | tradeSessionStarted
  | partnerParty
  | partnerSelectedSlot
  | partnerSelectedMon
  | setOfferMon
  | offerReady
  | tradeNegotiation
  | tradeCommitted
  | tradeAborted
  | tradeLinkClosed
  | abortIfSafe
  | error
  deriving DecidableEq

namespace MessageType

def all : List MessageType :=
  [hello, getCapabilities, capabilities, tradeSessionStarted, partnerParty, partnerSelectedSlot,
   partnerSelectedMon, setOfferMon, offerReady, tradeNegotiation, tradeCommitted, tradeAborted,
   tradeLinkClosed, abortIfSafe, error]

/-- The value of the enumeration member, as it stands in the header. -/
def code : MessageType → UInt8
  | hello => 0x01
  | getCapabilities => 0x02
  | capabilities => 0x03
  | tradeSessionStarted => 0x10
  | partnerParty => 0x11
  | partnerSelectedSlot => 0x12
  | partnerSelectedMon => 0x13
  | setOfferMon => 0x20
  | offerReady => 0x21
  | tradeNegotiation => 0x22
  | tradeCommitted => 0x23
  | tradeAborted => 0x24
  | tradeLinkClosed => 0x25
  | abortIfSafe => 0x26
  | error => 0x7F

/-- The `name` of the enumeration member, as error texts show it. -/
def name : MessageType → PyStr
  | hello => "HELLO"
  | getCapabilities => "GET_CAPABILITIES"
  | capabilities => "CAPABILITIES"
  | tradeSessionStarted => "TRADE_SESSION_STARTED"
  | partnerParty => "PARTNER_PARTY"
  | partnerSelectedSlot => "PARTNER_SELECTED_SLOT"
  | partnerSelectedMon => "PARTNER_SELECTED_MON"
  | setOfferMon => "SET_OFFER_MON"
  | offerReady => "OFFER_READY"
  | tradeNegotiation => "TRADE_NEGOTIATION"
  | tradeCommitted => "TRADE_COMMITTED"
  | tradeAborted => "TRADE_ABORTED"
  | tradeLinkClosed => "TRADE_LINK_CLOSED"
  | abortIfSafe => "ABORT_IF_SAFE"
  | error => "ERROR"

/-- `MessageType(raw)`; `none` is the `ValueError` of a number that is no member. -/
def ofCode (raw : UInt8) : Option MessageType := all.find? (·.code = raw)

theorem ofCode_code (t : MessageType) : ofCode t.code = some t := by
  cases t <;> decide

end MessageType

def protocolError (text : PyStr) : Exc := ⟨.protocolError, text⟩

/-- A frame that `__post_init__` lets through: its bounds are fields.  `flags` is none: only zero passes. -/
structure Frame where
  messageType : MessageType
  transactionId : Uuid
  sequence : Nat
  payload : Bytes
  sequence_le : sequence ≤ 0xFFFFFFFF
  payload_le : payload.length ≤ maxPayload
  deriving DecidableEq

/-- `HEADER`, field by field, before anything is checked. -/
structure Header where
  magic : Bytes
  version : UInt8
  rawType : UInt8
  flags : Nat
  size : Nat
  txid : Bytes
  sequence : Nat

namespace Header

/-- `HEADER.pack`: the fields one behind the other, numbers with their low byte first. -/
def pack (h : Header) : Bytes :=
  h.magic ++ ([h.version] ++ ([h.rawType] ++ (leBytes 2 h.flags ++ (leBytes 4 h.size ++
    (h.txid ++ leBytes 4 h.sequence)))))

/-- `HEADER.unpack_from`, on a buffer of at least 32 bytes. -/
def unpackFrom (buf : Bytes) : Header where
  magic := slice buf 0 4
  version := buf.getD 4 0
  rawType := buf.getD 5 0
  flags := leNat (slice buf 6 8)
  size := leNat (slice buf 8 12)
  txid := slice buf 12 28
  sequence := leNat (slice buf 28 32)

/-- The values fit the layout: the magic and the transaction id have their lengths, the numbers their bits. -/
structure Fits (h : Header) : Prop where
  magic : h.magic.length = 4
  flags : h.flags < 256 ^ 2
  size : h.size < 256 ^ 4
  txid : h.txid.length = 16
  sequence : h.sequence < 256 ^ 4

theorem Fits.length_pack {h : Header} (hf : h.Fits) : h.pack.length = 32 := by
  simp [pack, hf.magic, hf.txid]

/-- **Unpacking reads back what was packed**, whatever follows it. -/
theorem Fits.unpackFrom_pack {h : Header} (hf : h.Fits) (tail : Bytes) :
    unpackFrom (h.pack ++ tail) = h := by
  have hm := hf.magic
  have ht := hf.txid
  obtain ⟨m, v, t, fl, sz, tx, sq⟩ := h
  simp only at hm ht
  have hflags := leNat_leBytes_of_lt hf.flags
  have hsize := leNat_leBytes_of_lt hf.size
  have hseq := leNat_leBytes_of_lt hf.sequence
  simp only at hflags hsize hseq
  -- the buffer, cut in front of each field
  have cut : ∀ {a b c : Bytes} {i j : Nat}, pack ⟨m, v, t, fl, sz, tx, sq⟩ ++ tail = a ++ (b ++ c) →
      a.length = i → i + b.length = j →
      slice (pack ⟨m, v, t, fl, sz, tx, sq⟩ ++ tail) i j = b := by
    intro a b c i j e hi hj
    rw [e]
    exact slice_append hi hj
  have h0 : slice (pack ⟨m, v, t, fl, sz, tx, sq⟩ ++ tail) 0 4 = m :=
    cut (a := []) (by simp only [pack, List.append_assoc, List.nil_append]; rfl) rfl (by simp [hm])
  have h4 : (pack ⟨m, v, t, fl, sz, tx, sq⟩ ++ tail).getD 4 0 = v := by
    simp only [pack, List.append_assoc]
    exact getD_append hm
  have h5 : (pack ⟨m, v, t, fl, sz, tx, sq⟩ ++ tail).getD 5 0 = t := by
    have hv : (m ++ [v]).length = 5 := by simp [hm]
    have e : pack ⟨m, v, t, fl, sz, tx, sq⟩ ++ tail = (m ++ [v]) ++ ([t] ++ (leBytes 2 fl ++
        (leBytes 4 sz ++ (tx ++ (leBytes 4 sq ++ tail))))) := by
      simp only [pack, List.append_assoc]
    rw [e]
    exact getD_append hv
  have h6 : slice (pack ⟨m, v, t, fl, sz, tx, sq⟩ ++ tail) 6 8 = leBytes 2 fl :=
    cut (a := m ++ [v] ++ [t]) (by simp only [pack, List.append_assoc]; rfl) (by simp [hm])
      (by simp)
  have h8 : slice (pack ⟨m, v, t, fl, sz, tx, sq⟩ ++ tail) 8 12 = leBytes 4 sz :=
    cut (a := m ++ [v] ++ [t] ++ leBytes 2 fl) (by simp only [pack, List.append_assoc]; rfl)
      (by simp [hm]) (by simp)
  have h12 : slice (pack ⟨m, v, t, fl, sz, tx, sq⟩ ++ tail) 12 28 = tx :=
    cut (a := m ++ [v] ++ [t] ++ leBytes 2 fl ++ leBytes 4 sz)
      (by simp only [pack, List.append_assoc]; rfl) (by simp [hm]) (by simp [ht])
  have h28 : slice (pack ⟨m, v, t, fl, sz, tx, sq⟩ ++ tail) 28 32 = leBytes 4 sq :=
    cut (a := m ++ [v] ++ [t] ++ leBytes 2 fl ++ leBytes 4 sz ++ tx)
      (by simp only [pack, List.append_assoc]; rfl) (by simp [hm, ht]) (by simp)
  simp only [unpackFrom, h0, h4, h5, h6, h8, h12, h28, hflags, hsize, hseq]

end Header

namespace Frame

/-- `Frame(...)`: the checks of `__post_init__`, in order, each with its text. -/
def create (messageType : MessageType) (transactionId : Uuid) (sequence : Nat) (payload : Bytes)
    (flags : Nat) : Except Exc Frame :=
  if hs : sequence ≤ 0xFFFFFFFF then
    if flags ≠ 0 then .error (protocolError "v1 frame flags must be zero")
    else if hp : payload.length ≤ maxPayload then
      .ok ⟨messageType, transactionId, sequence, payload, hs, hp⟩
    else .error (protocolError "payload exceeds 4096 bytes")
  else .error (protocolError "frame sequence does not fit u32")

/-- A frame of these fields, cut to size: for values that are known to fit. -/
def trimmed (messageType : MessageType) (transactionId : Uuid) (sequence : Nat) (payload : Bytes) :
    Frame where
  messageType := messageType
  transactionId := transactionId
  sequence := sequence % 0x100000000
  payload := payload.take maxPayload
  sequence_le := by omega
  payload_le := List.length_take_le maxPayload payload

/-- The header that `encode` packs: the current version, no flags, and the length of the payload. -/
def header (f : Frame) : Header where
  magic := magic
  version := version
  rawType := f.messageType.code
  flags := 0
  size := f.payload.length
  txid := f.transactionId.bytes
  sequence := f.sequence

/-- Header and payload, the bytes that the CRC is taken of. -/
def body (f : Frame) : Bytes := f.header.pack ++ f.payload

/-- `encode()`: the body and its CRC. -/
def encode (f : Frame) : Bytes := f.body ++ leBytes crcSize (crc32 f.body).toNat

theorem header_fits (f : Frame) : f.header.Fits := by
  have hs := f.sequence_le
  have hp : f.payload.length ≤ 4096 := f.payload_le
  refine ⟨rfl, ?_, ?_, f.transactionId.size_eq, ?_⟩
  · show 0 < 256 ^ 2
    omega
  · show f.payload.length < 256 ^ 4
    omega
  · show f.sequence < 256 ^ 4
    omega

theorem length_body (f : Frame) : f.body.length = headerSize + f.payload.length := by
  rw [body, List.length_append, f.header_fits.length_pack, headerSize]

theorem length_encode (f : Frame) : f.encode.length = headerSize + f.payload.length + crcSize := by
  rw [encode, List.length_append, f.length_body, length_leBytes]

theorem encode_ne_nil (f : Frame) : f.encode ≠ [] := by
  intro h
  have := f.length_encode
  rw [h, headerSize, crcSize] at this
  simp at this

/-! What a reader finds in a buffer that starts with an encoding, or with a part of one. -/

/-- What is at the front of an encoding: the magic. -/
theorem encode_eq_magic (f : Frame) : ∃ bs, f.encode = magic ++ bs := by
  refine ⟨?_, ?_⟩
  rotate_left
  · simp only [encode, body, Header.pack, header, List.append_assoc]
    rfl

theorem unpackFrom_encode (f : Frame) (tail : Bytes) :
    Header.unpackFrom (f.encode ++ tail) = f.header := by
  have e : f.encode ++ tail =
      f.header.pack ++ (f.payload ++ (leBytes crcSize (crc32 f.body).toNat ++ tail)) := by
    simp only [encode, body, List.append_assoc]
  rw [e]
  exact f.header_fits.unpackFrom_pack _

theorem slice_body (f : Frame) (tail : Bytes) :
    slice (f.encode ++ tail) 0 (headerSize + f.payload.length) = f.body := by
  have e : f.encode ++ tail = [] ++ (f.body ++ (leBytes crcSize (crc32 f.body).toNat ++ tail)) := by
    simp only [encode, List.append_assoc, List.nil_append]
  rw [e]
  exact slice_append rfl (by rw [f.length_body, Nat.zero_add])

theorem leNat_slice_crc (f : Frame) (tail : Bytes) :
    leNat (slice (f.encode ++ tail) (headerSize + f.payload.length)
      (headerSize + f.payload.length + crcSize)) = (crc32 f.body).toNat := by
  have e : slice (f.encode ++ tail) (headerSize + f.payload.length)
      (headerSize + f.payload.length + crcSize) = leBytes crcSize (crc32 f.body).toNat := by
    rw [encode, List.append_assoc]
    exact slice_append f.length_body (by rw [length_leBytes])
  rw [e]
  exact leNat_leBytes_of_lt (crc32 f.body).toNat_lt

theorem drop_encode (f : Frame) (tail : Bytes) :
    (f.encode ++ tail).drop (headerSize + f.payload.length + crcSize) = tail := by
  rw [← f.length_encode, List.drop_left]

theorem drop_body (f : Frame) : f.body.drop headerSize = f.payload := by
  have h32 : headerSize = f.header.pack.length := f.header_fits.length_pack.symm
  rw [body, h32, List.drop_left]

theorem part_magic {f : Frame} {p q : Bytes} (h : f.encode = p ++ q) (hlen : 4 ≤ p.length) :
    ∃ p', p = magic ++ p' := by
  obtain ⟨bs, hbs⟩ := encode_eq_magic f
  rw [hbs] at h
  exact starts_with h hlen

theorem part_header {f : Frame} {p q : Bytes} (h : f.encode = p ++ q) (hlen : headerSize ≤ p.length) :
    Header.unpackFrom p = f.header := by
  have h' : f.header.pack ++ (f.payload ++ leBytes crcSize (crc32 f.body).toNat) = p ++ q := by
    rw [← h]
    simp only [encode, body, List.append_assoc]
  obtain ⟨r, hr⟩ := starts_with h' (by rw [f.header_fits.length_pack]; exact hlen)
  rw [hr]
  exact f.header_fits.unpackFrom_pack r

/-- The fields of a frame pass the checks again, and give the frame. -/
theorem create_eq (f : Frame) :
    create f.messageType f.transactionId f.sequence f.payload 0 = .ok f := by
  rw [create, dif_pos f.sequence_le, if_neg (by simp), dif_pos f.payload_le]

end Frame

/-! ## §2 — the decoder. -/

/-- `FrameDecoder`: the bytes not used yet, and nothing else. -/
structure FrameDecoder where
  buffer : Bytes := []

namespace FrameDecoder

/-- `f"{value:0{2 * n}x}"`: the hexadecimal digits, with zeros up to `n` bytes. -/
def hexWord (n value : Nat) : PyStr := hex (leBytes n value).reverse

/-- The checks on a complete frame whose header is `h`, in order: CRC, version, flags, type, and those of
`Frame`. -/
def validate (h : Header) (encoded : Bytes) (expectedCrc : Nat) : Except Exc Frame :=
  let actualCrc := (crc32 encoded).toNat
  if actualCrc ≠ expectedCrc then
    .error (protocolError ("frame CRC mismatch: expected " ++ hexWord 4 expectedCrc ++ ", got " ++
      hexWord 4 actualCrc))
  else if h.version ≠ version then
    .error (protocolError ("unsupported protocol version " ++ lit (toString h.version.toNat)))
  else if h.flags ≠ 0 then
    .error (protocolError ("unsupported v1 flags 0x" ++ hexWord 2 h.flags))
  else
    match MessageType.ofCode h.rawType with
    | none => .error (protocolError ("unknown message type 0x" ++ hex [h.rawType]))
    | some messageType =>
        Frame.create messageType (Uuid.ofBytes h.txid) h.sequence (encoded.drop headerSize) h.flags

/-- The rest of a pass once the buffer starts at the magic: wait, refuse, or take a frame off. -/
def turnAt (buf : Bytes) : Turn Frame Exc :=
  if buf.length < headerSize then .wait buf
  else
    let h := Header.unpackFrom buf
    if h.magic ≠ magic then .fail (protocolError "internal frame resynchronization failure") buf
    else if maxPayload < h.size then
      .fail (protocolError "declared payload exceeds 4096 bytes") (buf.drop magic.length)
    else
      let total := headerSize + h.size + crcSize
      if buf.length < total then .wait buf
      else
        let encoded := slice buf 0 (headerSize + h.size)
        let expectedCrc := leNat (slice buf (headerSize + h.size) total)
        -- the frame leaves the buffer before it is checked
        match validate h encoded expectedCrc with
        | .error e => .fail e (buf.drop total)
        | .ok frame => .emit frame (buf.drop total)

/-- One pass through the loop of `feed`: find the magic, drop what is in front of it, and look at the frame. -/
def turn (buf : Bytes) : Turn Frame Exc :=
  match find magic buf with
  | none =>
      -- a partial magic at the end is kept for the next read
      .wait (buf.drop (buf.length - min buf.length (magic.length - 1)))
  | some magicAt => turnAt (buf.drop magicAt)

/-- `feed(data)`: passes until one waits or raises.  When it raises, the frames found before in the same call
are not returned. -/
def feed (d : FrameDecoder) (data : Bytes) : Except Exc (List Frame) × FrameDecoder :=
  let buf := d.buffer ++ data
  let s := scan turn (buf.length + 1) buf
  match s.failure with
  | some e => (.error e, ⟨s.rest⟩)
  | none => (.ok s.found, ⟨s.rest⟩)

theorem turn_magic (bs : Bytes) : turn (magic ++ bs) = turnAt (magic ++ bs) := by
  rw [turn, find_append (by simp [magic])]
  rfl

theorem validate_body (f : Frame) : validate f.header f.body (crc32 f.body).toNat = .ok f := by
  have hdrop := f.drop_body
  have htype : MessageType.ofCode f.header.rawType = some f.messageType :=
    MessageType.ofCode_code f.messageType
  have htxid : Uuid.ofBytes f.header.txid = f.transactionId := Uuid.ofBytes_bytes f.transactionId
  have hver : f.header.version = version := rfl
  have hflags : f.header.flags = 0 := rfl
  have hseq : f.header.sequence = f.sequence := rfl
  simp only [validate, ne_eq, not_true_eq_false, if_false, hver, hflags, htype, htxid, hdrop, hseq]
  exact f.create_eq

/-- A whole encoding at the front is taken off as the frame it encodes, whatever follows. -/
theorem turnAt_encode (f : Frame) (tail : Bytes) : turnAt (f.encode ++ tail) = .emit f tail := by
  have hpay : f.payload.length ≤ maxPayload := f.payload_le
  have hfull : (f.encode ++ tail).length = headerSize + f.payload.length + crcSize + tail.length := by
    rw [List.length_append, f.length_encode]
  have hsize : f.header.size = f.payload.length := rfl
  have hmagic : f.header.magic = magic := rfl
  simp only [turnAt, f.unpackFrom_encode tail, hsize, hmagic, f.slice_body tail,
    f.leNat_slice_crc tail, f.drop_encode tail, hfull, ne_eq, not_true_eq_false, if_false,
    validate_body]
  rw [if_neg (by omega), if_neg (by omega), if_neg (by omega)]

/-- A proper part of an encoding is left alone, until the rest arrives. -/
theorem turn_part {f : Frame} {p q : Bytes} (h : f.encode = p ++ q) (hq : q ≠ []) :
    turn p = .wait p := by
  have hqpos := List.length_pos_of_ne_nil hq
  have hsum : p.length + q.length = headerSize + f.payload.length + crcSize := by
    rw [← f.length_encode, h, List.length_append]
  have hmlen : magic.length = 4 := rfl
  by_cases hshort : p.length < 4
  · -- no magic yet, and three bytes at most are all kept
    rw [turn, find_eq_none_of_short (by rw [hmlen]; exact hshort)]
    have hkeep : p.length - min p.length (magic.length - 1) = 0 := by
      rw [hmlen]
      omega
    rw [hkeep]
    rfl
  · obtain ⟨p', rfl⟩ := Frame.part_magic h (by omega)
    rw [turn_magic]
    by_cases hhead : (magic ++ p').length < headerSize
    · rw [turnAt, if_pos hhead]
    · -- the header is complete and names a length that is not there
      have hunpack := Frame.part_header h (by omega)
      have hsize : f.header.size = f.payload.length := rfl
      have hmagic : f.header.magic = magic := rfl
      have hpay : f.payload.length ≤ maxPayload := f.payload_le
      simp only [turnAt, hunpack, hsize, hmagic, ne_eq, not_true_eq_false, if_false]
      rw [if_neg hhead, if_neg (by omega), if_pos (by omega)]

/-- **The decoder reads what `encode` writes**: whole encodings are taken off, parts are waited for.  It is
what `Lib.Scan` asks of a decoder for streams without noise. -/
theorem decoder_delimits : Delimits turn Frame.encode id where
  nonempty := Frame.encode_ne_nil
  idle := rfl
  emit := by
    intro f tail
    obtain ⟨bs, hbs⟩ := f.encode_eq_magic
    have hturn : turn (f.encode ++ tail) = turnAt (f.encode ++ tail) := by
      rw [hbs, List.append_assoc]
      exact turn_magic _
    rw [hturn]
    exact turnAt_encode f tail
  wait := by
    intro f p q h hq
    exact turn_part h hq

/-- **A read in the middle of a stream of frames.**  With `p` kept from the reads before, the decoder
returns the frames that the new bytes complete and keeps the rest. -/
theorem feed_stream {fs : List Frame} {p data q : Bytes} (h : wire Frame.encode fs = p ++ (data ++ q)) :
    ∃ rest, feed ⟨p⟩ data = (.ok (arrive Frame.encode (p.length + data.length) fs).1, ⟨rest⟩) ∧
      rest.length = (arrive Frame.encode (p.length + data.length) fs).2.1 ∧
      wire Frame.encode (arrive Frame.encode (p.length + data.length) fs).2.2 = rest ++ q := by
  rw [← List.append_assoc] at h
  obtain ⟨rest, hscan, hrest, hwire⟩ :=
    scan_stream decoder_delimits h (Nat.lt_succ_self (p ++ data).length)
  rw [List.length_append] at hscan hrest hwire
  rw [List.map_id] at hscan
  refine ⟨rest, ?_, hrest, hwire⟩
  simp only [feed, List.length_append, hscan]

end FrameDecoder

/-! ## §3 — the replay window. -/

/-- `ReplayWindow`: the last sequence accepted for each transaction. -/
structure ReplayWindow where
  last : Uuid → Option Nat := fun _ => none

namespace ReplayWindow

/-- `accept(frame)`: a frame whose sequence is not above the last one of its transaction is refused. -/
def accept (r : ReplayWindow) (f : Frame) : Except Exc Unit × ReplayWindow :=
  match r.last f.transactionId with
  | none => (.ok (), ⟨Function.update r.last f.transactionId (some f.sequence)⟩)
  | some previous =>
      if f.sequence ≤ previous then
        (.error (protocolError ("replayed/out-of-order frame " ++ lit (toString f.sequence) ++
          "; last accepted was " ++ lit (toString previous))), r)
      else (.ok (), ⟨Function.update r.last f.transactionId (some f.sequence)⟩)

/-- Frames in order, up to the first that is refused. -/
def acceptAll : List Frame → ReplayWindow → Except Exc Unit × ReplayWindow
  | [], r => (.ok (), r)
  | f :: fs, r =>
      match r.accept f with
      | (.error e, r) => (.error e, r)
      | (.ok (), r) => acceptAll fs r

/-- **Frames whose sequence numbers increase within each transaction are all accepted**, by a window that has
accepted none above them. -/
theorem acceptAll_increasing {fs : List Frame} {r : ReplayWindow}
    (hinc : fs.Pairwise fun a b => a.transactionId = b.transactionId → a.sequence < b.sequence)
    (hnew : ∀ f ∈ fs, ∀ previous, r.last f.transactionId = some previous → previous < f.sequence) :
    (acceptAll fs r).1 = .ok () := by
  induction fs generalizing r with
  | nil => rfl
  | cons f fs ih =>
      obtain ⟨hlater, hrest⟩ := List.pairwise_cons.mp hinc
      have haccept : r.accept f =
          (.ok (), ⟨Function.update r.last f.transactionId (some f.sequence)⟩) := by
        rw [accept]
        cases hlast : r.last f.transactionId with
        | none => rfl
        | some previous =>
            have := hnew f (by simp) previous hlast
            simp only
            rw [if_neg (by omega)]
      rw [acceptAll, haccept]
      refine ih hrest ?_
      intro g hg previous hprevious
      by_cases hsame : g.transactionId = f.transactionId
      · rw [hsame] at hprevious
        simp only [Function.update_self, Option.some.injEq] at hprevious
        have := hlater g hg hsame.symm
        omega
      · simp only [Function.update_of_ne hsame] at hprevious
        exact hnew g (by simp [hg]) previous hprevious

end ReplayWindow

end TradeBroker.Gba
