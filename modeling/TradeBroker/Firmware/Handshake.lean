/-
# TradeBroker.Firmware.Handshake — host and device, connected.

`connect` on the host writes HELLO and GET_CAPABILITIES under the transaction id it drew and waits for
CAPABILITIES under that id; the device adopts the id of a HELLO and answers.  Joined, they do not
meet: the codec filters by the id it already has BEFORE the handler that would adopt another one
runs, and a fresh codec has the id of sixteen zero bytes.  So a HELLO is dropped unless it carries that
id, and `uuid4` never draws it (`handshake_completes_iff`).

The condition is on the id and on nothing else: neither the chunks in which the greeting arrives nor the
reads in which the answer does can help.  It is proved by running both parties.  Under the nil id the
device adopts it, its answers are computed, and the host takes them; under any other id `greeting_dropped`
shows that the device does not change at all, so the host has nothing to read.
-/
import TradeBroker.Firmware.Stream
import TradeBroker.Firmware.TradeBridge
import TradeBroker.Gba.Cutting

namespace TradeBroker.Firmware

open Lib Gba
open Gba.GbLinkEndpoint

/-! ## §1 — what the host writes and how it reads the answer. -/

/-- An endpoint that drew `txid`, not connected yet and with nothing sent. -/
def newEndpoint (txid : Uuid) (offerSlot : Fin 6) : GbLinkEndpoint where
  transport := { reads := [] }
  offerSlot := offerSlot
  txid := txid

/-- The HELLO that `connect` writes, numbered one, with the greeting for its payload. -/
def helloFrame (txid : Uuid) : Frame :=
  ⟨.hello, txid, 1, greeting, by omega, by decide⟩

/-- The request behind it, numbered two. -/
def getCapabilitiesFrame (txid : Uuid) : Frame :=
  ⟨.getCapabilities, txid, 2, [], by omega, by decide⟩

/-- The endpoint when it starts to wait for the capabilities: two frames sent, numbered one and two. -/
def greeted (txid : Uuid) (offerSlot : Fin 6) (reads : List Bytes) : GbLinkEndpoint where
  transport :=
    { reads := reads.map .ok
      written := [(helloFrame txid).encode, (getCapabilitiesFrame txid).encode] }
  offerSlot := offerSlot
  txid := txid
  outSequence := 2
  connected := true

/-- The rest of `connect` from its wait on: the answer and the two checks on it. -/
def awaitCapabilities : LinkM Unit := do
  let capabilities ← waitFor [.capabilities]
  require (capabilities.payload.length = 4) (protocolError "CAPABILITIES payload must be u32")
  let value := leNat capabilities.payload
  require (value &&& required = required) (endpointError ("GB-Link broker capabilities 0x" ++
    FrameDecoder.hexWord 4 value ++ " lack required 0x" ++ FrameDecoder.hexWord 4 required))

theorem call_send_ok {ep : GbLinkEndpoint} {f : Frame} {messageType : MessageType} {payload : Bytes}
    (hf : Frame.create messageType ep.txid (ep.outSequence + 1) payload 0 = .ok f)
    (hw : ep.transport.writes = []) :
    ep.call (send messageType payload) = (.ok (), { ep with
      outSequence := ep.outSequence + 1
      transport.written := ep.transport.written ++ [f.encode] }) := by
  rw [call_send, hf]
  show GbLinkEndpoint.call _ (write f.encode) = _
  rw [call_write _ (by simp [hw])]
  simp only [hw, List.tail_nil]

/-- **`connect` writes its two frames and waits**, on a transport that opens and takes everything. -/
theorem call_connect (txid : Uuid) (offerSlot : Fin 6) (reads : List Bytes) :
    (withReads (newEndpoint txid offerSlot) reads).call GbLinkEndpoint.connect =
      (greeted txid offerSlot reads).call awaitCapabilities := by
  have hhello : Frame.create .hello txid (0 + 1) greeting 0 = .ok (helloFrame txid) := rfl
  have hcaps : Frame.create .getCapabilities txid (0 + 1 + 1) [] 0 =
      .ok (getCapabilitiesFrame txid) := rfl
  show ({ withReads (newEndpoint txid offerSlot) reads with connected := true } : GbLinkEndpoint).call
    (send .hello greeting >>= fun _ => send .getCapabilities [] >>= fun _ => awaitCapabilities) = _
  rw [call_bind, call_send_ok hhello rfl]
  simp only
  rw [call_bind, call_send_ok hcaps rfl]
  rfl

/-- A wait writes nothing, whatever the reads bring. -/
theorem written_waitLoop (wanted : List MessageType) (reads : List (Except Exc Bytes))
    (ep : GbLinkEndpoint) :
    (waitLoop wanted reads ep).2.transport.written = ep.transport.written := by
  induction reads generalizing ep with
  | nil => rfl
  | cons r reads ih =>
      cases r with
      | error e => rfl
      | ok data =>
          rw [waitLoop]
          split
          · exact ih ep
          · rcases ep.decoder.feed data with ⟨res, d⟩
            cases res with
            | error e => rfl
            | ok frames =>
                simp only
                rcases sift ep.txid wanted frames ep.replay with ⟨res, r⟩
                cases res with
                | error e => rfl
                | ok found =>
                    cases found with
                    | some f => rfl
                    | none => exact ih _

theorem written_connect (txid : Uuid) (offerSlot : Fin 6) (reads : List Bytes) :
    ((withReads (newEndpoint txid offerSlot) reads).call GbLinkEndpoint.connect).2.transport.written.flatten =
      wire Frame.encode [helloFrame txid, getCapabilitiesFrame txid] := by
  have hwait : (waitLoop [.capabilities] (reads.map .ok) (greeted txid offerSlot reads)).2.transport.written =
      [(helloFrame txid).encode, (getCapabilitiesFrame txid).encode] :=
    written_waitLoop _ _ _
  have hcall : (greeted txid offerSlot reads).call (waitFor [.capabilities]) =
      waitLoop [.capabilities] (reads.map .ok) (greeted txid offerSlot reads) := rfl
  rw [call_connect, awaitCapabilities, call_bind, hcall]
  generalize waitLoop [.capabilities] (reads.map .ok) (greeted txid offerSlot reads) = w at hwait ⊢
  obtain ⟨res, ep⟩ := w
  have hflat : ep.transport.written.flatten =
      wire Frame.encode [helloFrame txid, getCapabilitiesFrame txid] := by
    rw [hwait]
    simp
  cases res with
  | error e => exact hflat
  | ok f =>
      simp only [require]
      split
      · split <;> exact hflat
      · exact hflat

/-- The first heeded frame does not depend on the cuts, only on the frames and their order. -/
theorem heed_first (wanted : List MessageType) (reads : List (List Frame)) :
    (heed wanted reads).map Prod.fst = (heeded wanted reads.flatten).head? := by
  induction reads with
  | nil => rfl
  | cons read reads ih =>
      have hflat : heeded wanted (read :: reads).flatten =
          if (heeded wanted read).isEmpty then heeded wanted reads.flatten
          else heeded wanted read ++ reads.flatten := by
        rw [List.flatten_cons]
        exact List.dropWhile_append
      rw [hflat, heed]
      cases hh : heeded wanted read with
      | nil => simpa using ih
      | cons f behind => simp

/-- **A host that is answered connects**: HELLO is passed over, CAPABILITIES is taken, in however many
reads they come. -/
theorem connect_of_answer {txid : Uuid} {offerSlot : Fin 6} {reads : List Bytes} {hello caps : Frame}
    (hwire : reads.flatten = wire Frame.encode [hello, caps])
    (htx : hello.transactionId = txid ∧ caps.transactionId = txid)
    (hseq : hello.sequence < caps.sequence) (hhello : hello.messageType = .hello)
    (hcaps : caps.messageType = .capabilities) (hpayload : caps.payload = [0x3f, 0, 0, 0]) :
    ((withReads (newEndpoint txid offerSlot) reads).call GbLinkEndpoint.connect).1 = .ok () := by
  have hlisten : Listening (greeted txid offerSlot reads) [hello, caps] reads := by
    refine ⟨⟨hwire.symm, FrameDecoder.decoder_delimits.short_zero _⟩, ⟨?_, ?_⟩, ?_⟩
    · simp [greeted, htx]
    · simp [Increasing, hseq]
    · intro f _ n hn
      exact absurd hn (by simp [greeted])
  have hfirst : (heed [.capabilities] (arrivals (greeted txid offerSlot reads) [hello, caps] reads)).map
      Prod.fst = some caps := by
    rw [heed_first, flatten_arrivals hlisten.toStreaming]
    simp [heeded, heeds, hhello, hcaps]
  have hwait := waitLoop_heed [.capabilities] hlisten
  obtain ⟨⟨f, rest⟩, hheed, hf⟩ := Option.map_eq_some_iff.mp hfirst
  simp only at hf
  subst hf
  rw [hheed] at hwait
  simp only [Waited, hcaps, List.mem_singleton, if_true] at hwait
  obtain ⟨ep', -, -, hloop, -, -, -⟩ := hwait
  have hcall : (greeted txid offerSlot reads).call (waitFor [.capabilities]) = (.ok f, ep') := hloop
  rw [call_connect, awaitCapabilities, call_bind, hcall]
  simp only [require, hpayload]
  rfl

/-! ## §2 — what the device does with it. -/

/-- The answers of the device under the transaction id it has, numbered from one, since a `HELLO` starts its
counter afresh. -/
def helloAnswer : Frame := ⟨.hello, .nil, 1, [], by omega, by decide⟩

def capabilitiesAnswer : Frame := ⟨.capabilities, .nil, 2, [0x3f, 0, 0, 0], by omega, by decide⟩

/-- The bytes of `connect` are two frames for the device, wherever the chunks end, because both fit its buffer
together. -/
theorem receive_greeting (sha256 : Bytes → Bytes) {txid : Uuid} {chunks : List Bytes}
    (hbytes : chunks.flatten = wire Frame.encode [helloFrame txid, getCapabilitiesFrame txid])
    (hsize : ∀ chunk ∈ chunks, chunk.length ≤ 64) :
    TradeBridge.receiveData sha256 chunks TradeBridge.fresh = Codec.withRx []
      (Codec.deliverAll (TradeBridge.handle sha256)
        [parsed (helloFrame txid), parsed (getCapabilitiesFrame txid)] TradeBridge.fresh) := by
  have hfits : Fits Frame.encode maxFrame 0 [helloFrame txid, getCapabilitiesFrame txid] chunks := by
    refine fits_of_room hsize ?_ (by rw [hbytes, Nat.zero_add])
    intro f hf
    rw [f.length_encode]
    simp only [List.mem_cons, List.not_mem_nil, or_false] at hf
    rcases hf with rfl | rfl
    · show headerSize + greeting.length + crcSize + 64 ≤ maxFrame + 1
      decide
    · show headerSize + 0 + crcSize + 64 ≤ maxFrame + 1
      decide
  have hw : wire Frame.encode [helloFrame txid, getCapabilitiesFrame txid] = [] ++ chunks.flatten :=
    hbytes.symm
  have hrec : Codec.received chunks [] = ([parsed (helloFrame txid), parsed (getCapabilitiesFrame txid)], []) :=
    Codec.received_stream hw (Codec.codec_delimits.short_zero _) hfits
  rw [TradeBridge.receiveData, Codec.feedAll_eq (TradeBridge.handle_local sha256)]
  show Codec.withRx (Codec.received chunks []).2 (Codec.deliverAll _ (Codec.received chunks []).1 _) = _
  rw [hrec]

/-- A HELLO under another id than the codec's is dropped, and so is what follows it: the filter comes before
the handler. -/
theorem greeting_dropped (sha256 : Bytes → Bytes) {txid : Uuid} (h : txid ≠ .nil) :
    Codec.deliverAll (TradeBridge.handle sha256)
      [parsed (helloFrame txid), parsed (getCapabilitiesFrame txid)] TradeBridge.fresh =
        TradeBridge.fresh := by
  have hdrop : ∀ f : Frame, f.transactionId = txid →
      Codec.deliver (TradeBridge.handle sha256) (parsed f) TradeBridge.fresh = TradeBridge.fresh := by
    intro f hf
    rw [Codec.deliver, if_pos]
    refine Or.inl ?_
    show f.transactionId ≠ Uuid.nil
    rw [hf]
    exact h
  rw [Codec.deliverAll, List.foldl_cons, List.foldl_cons, List.foldl_nil, hdrop (helloFrame txid) rfl,
    hdrop (getCapabilitiesFrame txid) rfl]

/-- The device after `n` answers under the id of sixteen zero bytes, and what they were. -/
def answered (n lastReceived : Nat) (fs : List Frame) : TradeBridge :=
  ({ sendSequence := n, lastReceivedSequence := lastReceived },
    { link := ⟨[], fs.flatMap fun f => Codec.chunked f.encode, fs.map parsed⟩ })

theorem deliver_hello (sha256 : Bytes → Bytes) :
    Codec.deliver (TradeBridge.handle sha256) (parsed (helloFrame .nil)) TradeBridge.fresh =
      answered 1 0 [helloAnswer] := by
  rw [Codec.deliver, if_neg (by decide), TradeBridge.handle_hello sha256 _ rfl]
  exact TradeBridge.codecSend_frame (f := helloAnswer) rfl rfl rfl rfl

theorem deliver_getCapabilities (sha256 : Bytes → Bytes) :
    Codec.deliver (TradeBridge.handle sha256) (parsed (getCapabilitiesFrame .nil))
        (answered 1 0 [helloAnswer]) = answered 2 2 [helloAnswer, capabilitiesAnswer] := by
  have hfilter : ¬ ((parsed (getCapabilitiesFrame .nil)).transactionId ≠
        (answered 1 0 [helloAnswer]).1.transactionId ∨
      (parsed (getCapabilitiesFrame .nil)).sequence ≤
        (answered 1 0 [helloAnswer]).1.lastReceivedSequence) := by
    show ¬ (Uuid.nil ≠ Uuid.nil ∨ 2 ≤ 0)
    simp
  rw [Codec.deliver, if_neg hfilter, TradeBridge.handle_getCapabilities sha256 _ rfl]
  exact TradeBridge.codecSend_frame (f := capabilitiesAnswer) rfl rfl rfl rfl

/-! ## §3 — the handshake. -/

/-- The handshake completes: the device has adopted the id, and the host, however the answer of the device is
cut into reads, connects.  Both halves are asked for. -/
structure Completes (sha256 : Bytes → Bytes) (txid : Uuid) (offerSlot : Fin 6)
    (chunks : List Bytes) : Prop where
  adopted : (TradeBridge.receiveData sha256 chunks TradeBridge.fresh).1.transactionId = txid
  connects : ∀ reads : List Bytes,
    reads.flatten = (TradeBridge.receiveData sha256 chunks TradeBridge.fresh).2.link.sent.flatten →
    (∀ data ∈ reads, data.length ≤ 512) →
    ((withReads (newEndpoint txid offerSlot) reads).call GbLinkEndpoint.connect).1 = .ok ()

/-- **The handshake completes for the id of sixteen zero bytes only**, and that is none that `uuid4`
draws.  `chunks` is any way of cutting the bytes that `connect` writes into chunks for the device. -/
theorem handshake_completes_iff (sha256 : Bytes → Bytes) (txid : Uuid) (offerSlot : Fin 6)
    (reads chunks : List Bytes)
    (hbytes : chunks.flatten =
      ((withReads (newEndpoint txid offerSlot) reads).call GbLinkEndpoint.connect).2.transport.written.flatten)
    (hsize : ∀ chunk ∈ chunks, chunk.length ≤ 64) :
    (Completes sha256 txid offerSlot chunks ↔ txid = .nil) ∧
      (txid.isV4 = true → ¬ Completes sha256 txid offerSlot chunks) := by
  rw [written_connect] at hbytes
  have hrun := receive_greeting sha256 hbytes hsize
  have hiff : Completes sha256 txid offerSlot chunks ↔ txid = .nil := by
    constructor
    · intro h
      by_contra hne
      rw [greeting_dropped sha256 hne] at hrun
      have hadopted := h.adopted
      rw [hrun] at hadopted
      exact hne hadopted.symm
    · intro hnil
      subst hnil
      rw [Codec.deliverAll, List.foldl_cons, List.foldl_cons, List.foldl_nil, deliver_hello,
        deliver_getCapabilities] at hrun
      refine ⟨by rw [hrun]; rfl, ?_⟩
      intro reads hflat _
      rw [hrun] at hflat
      have hsent : reads.flatten = wire Frame.encode [helloAnswer, capabilitiesAnswer] := by
        rw [hflat]
        show (Codec.chunked helloAnswer.encode ++ Codec.chunked capabilitiesAnswer.encode).flatten = _
        rw [List.flatten_append, Codec.flatten_chunked, Codec.flatten_chunked]
        simp
      exact connect_of_answer hsent ⟨rfl, rfl⟩ (by decide) rfl rfl rfl
  refine ⟨hiff, ?_⟩
  intro hv4 h
  rw [hiff.mp h, Uuid.not_isV4_nil] at hv4
  exact absurd hv4 (by simp)

/-! An id that `uuid4` may draw, and the bytes of `connect` in chunks of 64. -/

namespace Sample

def txid : Uuid := .ofBytes [0, 0, 0, 0, 0, 0, 0x40, 0, 0x80, 0, 0, 0, 0, 0, 0, 1]

def chunks : List Bytes :=
  Codec.chunked (wire Frame.encode [helloFrame txid, getCapabilitiesFrame txid])

theorem flatten_chunks :
    chunks.flatten =
      ((withReads (newEndpoint txid 0) []).call GbLinkEndpoint.connect).2.transport.written.flatten := by
  rw [written_connect]
  exact Codec.flatten_chunked _

/-- **The greeting is dropped.**  The device keeps its id, sends nothing, and the host times out. -/
theorem greeting_unanswered :
    txid.isV4 = true ∧
      chunks.flatten =
        ((withReads (newEndpoint txid 0) []).call GbLinkEndpoint.connect).2.transport.written.flatten ∧
      (∀ chunk ∈ chunks, chunk.length ≤ 64) ∧
      (TradeBridge.receiveData Lib.sha256 chunks TradeBridge.fresh).1.transactionId = .nil ∧
      (TradeBridge.receiveData Lib.sha256 chunks TradeBridge.fresh).2.link.sent = [] ∧
      outcome ((withReads (newEndpoint txid 0) []).call GbLinkEndpoint.connect).1 = .error .endpointError ∧
      ¬ Completes Lib.sha256 txid 0 chunks := by
  have hid : (TradeBridge.receiveData Lib.sha256 chunks TradeBridge.fresh).1.transactionId = .nil := by
    decide +kernel
  refine ⟨by decide, flatten_chunks, by decide +kernel, hid, by decide +kernel,
    by decide +kernel, ?_⟩
  intro h
  have hadopted := h.adopted
  rw [hid] at hadopted
  exact absurd hadopted (by decide)

theorem handshake_fails :
    txid.isV4 = true ∧ ¬ Completes Lib.sha256 txid 0 chunks :=
  ⟨by decide, (handshake_completes_iff Lib.sha256 txid 0 [] chunks flatten_chunks
    (by decide +kernel)).2 (by decide)⟩

end Sample

end TradeBroker.Firmware
