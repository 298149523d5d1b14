/-
# TradeBroker.Firmware.TradeBridge — the command handler of the device.

`firmware/gb-link/broker_trade_bridge.cpp`: the handler that answers the host, and the events that the
link layer reports.  The bridge owns the codec; its other fields and the transport are the state `Bridge`
that the codec's callbacks work on.

The source leaves SHA-256 to the firmware it will be built into (`sha256Placeholder`, which does not
compile), so the digest is a parameter of everything that uses it.

Every function of the class is here under its name, as a function on the bridge with its codec.  A member
that returns a value beside its effect is a pair.  The transport below is a `Link`: what it took, and
whether it will take the next chunk, so that a refused send is a possible run.

The bridge checks little, and that is kept.  An offer is taken up in any state, the session is not asked
for by `committed`, and `linkClosed` reports whatever came before it; which of this matters is said in
`Firmware.Session` and `Firmware.Commit`.
-/
import TradeBroker.Firmware.Codec

namespace TradeBroker.Firmware

open Lib
open Gba (Frame)

/-- The fields of `TradeBridge` besides its codec, and the transport it sends to.  Offer and selection are raw
bytes, as in the source. -/
structure Bridge where
  link : Link := {}
  offer : Bytes := List.replicate 100 0
  selected : Bytes := List.replicate 100 0
  offerSlot : UInt8 := 0
  partnerSlot : UInt8 := 0
  offerReady : Bool := false

/-- `std::span<const uint8_t, 600>`: six records of a hundred bytes. -/
structure Party where
  bytes : Bytes
  size_eq : bytes.length = 600

/-- A codec and the bridge that owns it. -/
abbrev TradeBridge : Type := Codec × Bridge

namespace TradeBridge

/-- `m_codec.send(type, payload)`; the handler does not look at what it returns. -/
def codecSend (type : Message) (payload : Bytes) (s : TradeBridge) : TradeBridge :=
  let r := s.1.send type payload s.2.link
  (r.2.1, { s.2 with link := r.2.2 })

/-- `sendError(code)`: an `ERROR` frame whose payload is the code as two bytes, the low one first. -/
def sendError (code : Nat) (s : TradeBridge) : TradeBridge :=
  codecSend .error [UInt8.ofNat (code % 256), UInt8.ofNat (code / 256 % 256)] s

/-- `handle(frame)`: the switch over the type of the command, with the checks of each case in their order. -/
def handle (sha256 : Bytes → Bytes) (frame : ParsedFrame) (s : TradeBridge) : TradeBridge :=
  if frame.type = .hello then
    codecSend .hello [] (s.1.setTransaction frame.transactionId, s.2)
  else if frame.type = .getCapabilities then
    codecSend .capabilities [0x3f, 0, 0, 0] s
  else if frame.type = .setOfferMon then
    if frame.payload.length ≠ 101 ∨ 5 < frame.payload.getD 0 0 then sendError 1 s
    else
      let slot := frame.payload.getD 0 0
      let offer := frame.payload.drop 1
      let s : TradeBridge := (s.1, { s.2 with offerSlot := slot, offer := offer, offerReady := true })
      codecSend .offerReady (slot :: sha256 offer) s
  else if frame.type = .abortIfSafe then sendError 2 s
  else sendError 3 s

/-- The bridge with the codec's callbacks bound: bytes in, chunk by chunk, through `feed` with `handle` behind
it. -/
def receiveData (sha256 : Bytes → Bytes) (chunks : List Bytes) (s : TradeBridge) : TradeBridge :=
  Codec.feedAll (handle sha256) chunks s

/-- A bridge as its constructor leaves it: the nil transaction, no offer, nothing selected. -/
def fresh : TradeBridge := ({}, {})

/-! ## The link events -/

/-- `sessionStarted()`: announce the session; nothing of an earlier one is reset. -/
def sessionStarted (s : TradeBridge) : TradeBridge := codecSend .tradeSessionStarted [] s

/-- `partnerPartyReady(party)`: send the party as it is. -/
def partnerPartyReady (party : Party) (s : TradeBridge) : TradeBridge :=
  codecSend .partnerParty party.bytes s

/-- `select(party, partnerSlot)`: the offer slot, or zero behind an error, which is a slot as well. -/
def select (party : Party) (partnerSlot : UInt8) (s : TradeBridge) : UInt8 × TradeBridge :=
  if s.2.offerReady = false ∨ 5 < partnerSlot then (0, sendError 4 s)
  else
    let selected := slice party.bytes (partnerSlot.toNat * 100) ((partnerSlot.toNat + 1) * 100)
    let s : TradeBridge := (s.1, { s.2 with partnerSlot := partnerSlot, selected := selected })
    let s := codecSend .partnerSelectedSlot [partnerSlot] s
    let s := codecSend .partnerSelectedMon selected s
    (s.2.offerSlot, s)

/-- `committed()`. -/
def committed (sha256 : Bytes → Bytes) (s : TradeBridge) : TradeBridge :=
  codecSend .tradeCommitted (sha256 s.2.offer ++ sha256 s.2.selected) s

/-- `linkClosed()`: announce the end, with a zero for an orderly one. -/
def linkClosed (s : TradeBridge) : TradeBridge := codecSend .tradeLinkClosed [0] s

/-- The bridge with the selection of `select` in place. -/
def chosen (party : Party) (partnerSlot : UInt8) (s : TradeBridge) : TradeBridge :=
  (s.1, { s.2 with
    partnerSlot := partnerSlot
    selected := slice party.bytes (partnerSlot.toNat * 100) ((partnerSlot.toNat + 1) * 100) })

theorem select_refused (party : Party) {partnerSlot : UInt8} {s : TradeBridge}
    (h : s.2.offerReady = false ∨ 5 < partnerSlot) :
    s.select party partnerSlot = (0, sendError 4 s) := by
  rw [select, if_pos h]

theorem select_taken (party : Party) {partnerSlot : UInt8} {s : TradeBridge}
    (h : ¬ (s.2.offerReady = false ∨ 5 < partnerSlot)) :
    (s.select party partnerSlot).2 =
      codecSend .partnerSelectedMon (chosen party partnerSlot s).2.selected
        (codecSend .partnerSelectedSlot [partnerSlot] (chosen party partnerSlot s)) := by
  rw [select, if_neg h]
  rfl

/-! ## The handler -/

theorem handle_hello (sha256 : Bytes → Bytes) {frame : ParsedFrame} (s : TradeBridge)
    (h : frame.type = .hello) :
    handle sha256 frame s = codecSend .hello [] (s.1.setTransaction frame.transactionId, s.2) := by
  rw [handle, if_pos h]

theorem handle_getCapabilities (sha256 : Bytes → Bytes) {frame : ParsedFrame} (s : TradeBridge)
    (h : frame.type = .getCapabilities) :
    handle sha256 frame s = codecSend .capabilities [0x3f, 0, 0, 0] s := by
  have hne : frame.type ≠ .hello := by
    rw [h]
    decide
  rw [handle, if_neg hne, if_pos h]

theorem codecSend_withRx (type : Message) (payload : Bytes) (s : TradeBridge) (rx : Bytes) :
    codecSend type payload (Codec.withRx rx s) = Codec.withRx rx (codecSend type payload s) := by
  by_cases h : Gba.maxPayload < payload.length
  · simp only [codecSend, Codec.send, if_pos h, Codec.withRx]
  · simp only [codecSend, Codec.send, if_neg h]
    rfl

/-- An offer that the handler takes up: a `SET_OFFER_MON` of the right length, with a slot of the party. -/
def ValidOffer (frame : ParsedFrame) : Prop :=
  frame.type = .setOfferMon ∧ frame.payload.length = 101 ∧ frame.payload.getD 0 0 ≤ 5

/-- The bridge with the offer of the frame in place. -/
def offered (frame : ParsedFrame) (s : TradeBridge) : TradeBridge :=
  (s.1, { s.2 with
    offerSlot := frame.payload.getD 0 0, offer := frame.payload.drop 1, offerReady := true })

theorem sendError_eq (code : Nat) :
    ∃ payload, payload.length = 2 ∧ ∀ s, sendError code s = codecSend .error payload s :=
  ⟨_, rfl, fun _ => rfl⟩

/-- **What the handler can do**: start the transaction afresh, take up an offer, or only answer.  Every
theorem about commands goes by these three cases. -/
theorem handle_cases (sha256 : Bytes → Bytes) (frame : ParsedFrame) :
    (frame.type = .hello ∧ ∀ s, handle sha256 frame s =
        codecSend .hello [] (s.1.setTransaction frame.transactionId, s.2)) ∨
      (frame.type ≠ .hello ∧ ValidOffer frame ∧ ∀ s, handle sha256 frame s =
        codecSend .offerReady (frame.payload.getD 0 0 :: sha256 (frame.payload.drop 1))
          (offered frame s)) ∨
      (frame.type ≠ .hello ∧ ¬ ValidOffer frame ∧
        ∃ type payload, (type = .capabilities ∨ type = .error) ∧
          ∀ s, handle sha256 frame s = codecSend type payload s) := by
  by_cases h1 : frame.type = .hello
  · refine Or.inl ⟨h1, ?_⟩
    intro s
    rw [handle, if_pos h1]
  · by_cases h2 : frame.type = .getCapabilities
    · refine Or.inr (Or.inr ⟨h1, ?_, .capabilities, [0x3f, 0, 0, 0], Or.inl rfl, ?_⟩)
      · rintro ⟨hoffer, -⟩
        rw [h2] at hoffer
        exact absurd hoffer (by decide)
      · intro s
        rw [handle, if_neg h1, if_pos h2]
    · by_cases h3 : frame.type = .setOfferMon
      · by_cases h4 : frame.payload.length ≠ 101 ∨ 5 < frame.payload.getD 0 0
        · obtain ⟨payload, -, herror⟩ := sendError_eq 1
          refine Or.inr (Or.inr ⟨h1, ?_, .error, payload, Or.inr rfl, ?_⟩)
          · rintro ⟨-, hlen, hslot⟩
            rcases h4 with h4 | h4
            · exact h4 hlen
            · exact absurd h4 (UInt8.not_lt.mpr hslot)
          · intro s
            rw [handle, if_neg h1, if_neg h2, if_pos h3, if_pos h4, herror]
        · rw [not_or, not_not, UInt8.not_lt] at h4
          refine Or.inr (Or.inl ⟨h1, ⟨h3, h4⟩, ?_⟩)
          intro s
          rw [handle, if_neg h1, if_neg h2, if_pos h3, if_neg (by
            rw [not_or, not_not, UInt8.not_lt]
            exact h4)]
          rfl
      · have hnot : ¬ ValidOffer frame := fun h => h3 h.1
        by_cases h5 : frame.type = .abortIfSafe
        · obtain ⟨payload, -, herror⟩ := sendError_eq 2
          refine Or.inr (Or.inr ⟨h1, hnot, .error, payload, Or.inr rfl, ?_⟩)
          intro s
          rw [handle, if_neg h1, if_neg h2, if_neg h3, if_pos h5, herror]
        · obtain ⟨payload, -, herror⟩ := sendError_eq 3
          refine Or.inr (Or.inr ⟨h1, hnot, .error, payload, Or.inr rfl, ?_⟩)
          intro s
          rw [handle, if_neg h1, if_neg h2, if_neg h3, if_neg h5, herror]

/-- The handler leaves the receive buffer alone: it can be run beside any buffer. -/
theorem handle_local (sha256 : Bytes → Bytes) : Codec.Local (handle sha256) := by
  intro frame s rx
  rcases handle_cases sha256 frame with ⟨-, h⟩ | ⟨-, -, h⟩ | ⟨-, -, type, payload, -, h⟩
  · rw [h, h]
    exact codecSend_withRx _ _ (s.1.setTransaction frame.transactionId, s.2) rx
  · rw [h, h]
    exact codecSend_withRx _ _ (offered frame s) rx
  · rw [h, h]
    exact codecSend_withRx _ _ s rx

/-! ## Sending -/

/-- A transport that takes every chunk takes them in order, and the send reports success. -/
theorem sendChunks_sent (chunks : List Bytes) (l : Link) (h : l.answers = []) :
    Codec.sendChunks chunks l = (true, { l with sent := l.sent ++ chunks }) := by
  induction chunks generalizing l with
  | nil =>
      simp [Codec.sendChunks]
  | cons chunk chunks ih =>
      obtain ⟨answers, sent, frames⟩ := l
      simp only at h
      subst h
      show Codec.sendChunks chunks ⟨[], sent ++ [chunk], frames⟩ = _
      rw [ih _ rfl]
      simp

/-- Whatever the transport takes, the frames are recorded as they were before the chunks. -/
theorem sendChunks_frames (chunks : List Bytes) (l : Link) :
    (Codec.sendChunks chunks l).2.frames = l.frames := by
  induction chunks generalizing l with
  | nil => rfl
  | cons chunk chunks ih =>
      obtain ⟨answers, sent, frames⟩ := l
      rcases answers with _ | ⟨_ | _, answers⟩
      · exact ih _
      · rfl
      · exact ih _

/-- **The bytes of a frame the device sends are those of the host's own encoding**, written by hand-made
offsets here and by `struct` there. -/
theorem encode_eq (c : Codec) (f : Frame) (type : Message) (htype : type.raw = f.messageType.code)
    (htx : c.transactionId = f.transactionId) (hseq : c.sendSequence = f.sequence) :
    c.encode type f.payload = f.encode := by
  simp only [Codec.encode, Frame.encode, Frame.body, Frame.header, Gba.Header.pack, htype, htx, hseq,
    crc32_eq, Gba.crcSize]

/-- **Sending a frame that the host can name**, on a transport that takes every chunk. -/
theorem send_frame {f : Frame} {type : Message} {c : Codec} {l : Link}
    (htype : type.raw = f.messageType.code) (htx : c.transactionId = f.transactionId)
    (hseq : (c.sendSequence + 1) % 2 ^ 32 = f.sequence) (hanswers : l.answers = []) :
    c.send type f.payload l = (true, { c with sendSequence := f.sequence },
      { l with sent := l.sent ++ Codec.chunked f.encode, frames := l.frames ++ [parsed f] }) := by
  have hnot : ¬ Gba.maxPayload < f.payload.length := Nat.not_lt.mpr f.payload_le
  have htype' : type = ⟨f.messageType.code⟩ := by
    rw [← htype]
  simp only [Codec.send, if_neg hnot, hseq]
  rw [sendChunks_sent _ _ (by exact hanswers),
    encode_eq { c with sendSequence := f.sequence } f type htype htx rfl, htype']
  simp only [parsed, htx]

theorem codecSend_frame {f : Frame} {type : Message} {s : TradeBridge}
    (htype : type.raw = f.messageType.code) (htx : s.1.transactionId = f.transactionId)
    (hseq : (s.1.sendSequence + 1) % 2 ^ 32 = f.sequence) (hanswers : s.2.link.answers = []) :
    codecSend type f.payload s = ({ s.1 with sendSequence := f.sequence },
      { s.2 with link :=
        { s.2.link with
          sent := s.2.link.sent ++ Codec.chunked f.encode
          frames := s.2.link.frames ++ [parsed f] } }) := by
  rw [codecSend, send_frame htype htx hseq hanswers]

end TradeBridge

end TradeBroker.Firmware
