/-
# TradeBroker.Gba.GbLink — the GB-Link endpoint.

`broker/gba/gb_link.py`.  The endpoint owns its transport, its decoder and its replay window, and
its methods are programs that may raise and keep what they did to the endpoint when they do.

The transport is what it answers: one entry for each `open`, `write` and `read` to come.  The clock
shows only as the END of `reads`: a wait that finds no further entry is one whose deadline has
passed.  A wait that times out raises, and nothing in `connect` or `trade_once` catches it, so one
list of reads covers every way in which data and deadlines can interleave in such a call.

`connect`, `trade_once` and `abort_if_safe` are the methods that talk to the device; `close` only closes
the transport.  The loop of `_wait_for` is modelled read by read and frame by frame, because what happens
to the frames behind the awaited one is what the modules on cuttings, on testimony and on contradictions
are about: the `return` in the inner loop leaves them behind.  The order of the checks is that of the
source, the exception of each with its full text.
-/
import Mathlib.Data.List.Lex
import Mathlib.Data.List.Sort
import Mathlib.Order.Fin.Basic
import TradeBroker.Gba.Protocol

namespace TradeBroker.Gba

open Lib

/-! ## §1 — the transport and the endpoint. -/

/-- `ByteTransport`, by its answers: what each `open`, `write` and `read` to come returns or raises.  A
`write` without an entry succeeds. -/
structure Transport where
  reads : List (Except Exc Bytes)
  writes : List (Except Exc Unit) := []
  opened : Except Exc Unit := .ok ()
  /-- The bytes of the `write` calls that succeeded, oldest first. -/
  written : List Bytes := []

structure GbLinkEndpoint where
  transport : Transport
  offerSlot : Fin 6
  decoder : FrameDecoder := {}
  replay : ReplayWindow := {}
  txid : Uuid
  outSequence : Nat := 0
  connected : Bool := false

/-- A method of the endpoint: a program that reads and changes the endpoint and may raise, and what it changed
stays changed when it does. -/
abbrev LinkM (α : Type) : Type := ExceptT Exc (StateM GbLinkEndpoint) α

namespace GbLinkEndpoint

/-- Call a method on an endpoint: what it returns or raises, and the endpoint behind it. -/
def call {α : Type} (ep : GbLinkEndpoint) (x : LinkM α) : Except Exc α × GbLinkEndpoint := x.run ep

/-- A call outside the endpoint that answered with `r`, a value or an exception. -/
def answer {α : Type} (r : Except Exc α) : LinkM α := ExceptT.mk (pure r)

def endpointError (text : PyStr) : Exc := ⟨.endpointError, text⟩

/-- `if not condition: raise e`, the way in which the methods check what they were told. -/
def require (condition : Prop) [Decidable condition] (e : Exc) : LinkM Unit :=
  if condition then pure () else throw e

/-! ## §2 — sending and waiting. -/

/-- `self.transport.write(data)`: the next answer of the transport is used up. -/
def write (data : Bytes) : LinkM Unit := ExceptT.mk fun ep =>
  match ep.transport.writes with
  | [] => (.ok (), { ep with transport.written := ep.transport.written ++ [data] })
  | .ok () :: rest =>
      (.ok (), { ep with
        transport.writes := rest, transport.written := ep.transport.written ++ [data] })
  | .error e :: rest => (.error e, { ep with transport.writes := rest })

/-- `_send`: count the sequence number up, make the frame, which may refuse it, and write its encoding. -/
def send (messageType : MessageType) (payload : Bytes) : LinkM Unit := do
  modify fun ep => { ep with outSequence := ep.outSequence + 1 }
  let ep ← get
  let frame ← answer (Frame.create messageType ep.txid ep.outSequence payload 0)
  write frame.encode

/-- The `for` loop of `_wait_for` over the frames of one read: the frame to return, if any. -/
def sift (txid : Uuid) (wanted : List MessageType) :
    List Frame → ReplayWindow → Except Exc (Option Frame) × ReplayWindow
  | [], r => (.ok none, r)
  | f :: fs, r =>
      if f.transactionId ≠ txid then
        (.error (protocolError "event transaction id does not match active transaction"), r)
      else
        match r.accept f with
        | (.error e, r) => (.error e, r)
        | (.ok (), r) =>
            if f.messageType ∈ wanted then (.ok (some f), r)
            else if f.messageType = .error then
              (.error (endpointError ("GB-Link error: " ++ bytesRepr f.payload)), r)
            else sift txid wanted fs r

/-- `", ".join(sorted(item.name for item in wanted))`. -/
def wantedNames (wanted : List MessageType) : PyStr :=
  List.intercalate (lit ", ") ((wanted.map MessageType.name).insertionSort (· ≤ ·))

def timeoutError (wanted : List MessageType) : Exc :=
  endpointError ("timeout waiting for GB-Link event(s): " ++ wantedNames wanted)

/-- The `while` loop of `_wait_for`, read by read: data goes through the decoder and the `for` loop, silence
goes on, and the end of the list is the deadline. -/
def waitLoop (wanted : List MessageType) :
    List (Except Exc Bytes) → GbLinkEndpoint → Except Exc Frame × GbLinkEndpoint
  | [], ep => (.error (timeoutError wanted), { ep with transport.reads := [] })
  | .error e :: reads, ep => (.error e, { ep with transport.reads := reads })
  | .ok data :: reads, ep =>
      if data = [] then waitLoop wanted reads ep
      else
        match ep.decoder.feed data with
        | (.error e, d) => (.error e, { ep with decoder := d, transport.reads := reads })
        | (.ok frames, d) =>
            match sift ep.txid wanted frames ep.replay with
            | (.error e, r) =>
                (.error e, { ep with decoder := d, replay := r, transport.reads := reads })
            -- the frames behind the one returned are dropped with the list that held them
            | (.ok (some f), r) =>
                (.ok f, { ep with decoder := d, replay := r, transport.reads := reads })
            | (.ok none, r) => waitLoop wanted reads { ep with decoder := d, replay := r }

/-- `_wait_for(wanted)`: the loop on the reads to come. -/
def waitFor (wanted : List MessageType) : LinkM Frame :=
  ExceptT.mk fun ep => waitLoop wanted ep.transport.reads ep

/-! ## §3 — the conversations. -/

/-- `self.transport.open()`: the next answer to an `open` is used up. -/
def openTransport : LinkM Unit := ExceptT.mk fun ep => (ep.transport.opened, ep)

/-- The greeting `b"frlg-trade-broker/0.1"`, the payload of the HELLO. -/
def greeting : Bytes :=
  [0x66, 0x72, 0x6c, 0x67, 0x2d, 0x74, 0x72, 0x61, 0x64, 0x65, 0x2d, 0x62, 0x72, 0x6f, 0x6b, 0x65,
   0x72, 0x2f, 0x30, 0x2e, 0x31]

/-- Export party and mon, inject, abort, commit, close: the capabilities without which `connect` refuses the
device. -/
def required : Nat := 0x3f

/-- `connect()`: open the transport, greet the device and ask for its capabilities in one go, and check the
answer: its length, and that it has all that is required. -/
def connect : LinkM Unit := do
  openTransport
  modify fun ep => { ep with connected := true }
  send .hello greeting
  send .getCapabilities []
  let capabilities ← waitFor [.capabilities]
  require (capabilities.payload.length = 4) (protocolError "CAPABILITIES payload must be u32")
  let value := leNat capabilities.payload
  require (value &&& required = required) (endpointError ("GB-Link broker capabilities 0x" ++
    FrameDecoder.hexWord 4 value ++ " lack required 0x" ++ FrameDecoder.hexWord 4 required))

/-- The payload of `OFFER_READY` that acknowledges the offer; the hexadecimal digest of the source
is decoded again before it is compared. -/
def expectedReady (offerSlot : Fin 6) (offered : Pokemon100) : Bytes :=
  UInt8.ofNat offerSlot :: Lib.sha256 offered.raw

/-- The payload of `TRADE_COMMITTED` that confirms the exchange: the hashes of what is given and what is
taken. -/
def expectedCommit (offered selected : Pokemon100) : Bytes :=
  Lib.sha256 offered.raw ++ Lib.sha256 selected.raw

/-- `trade_once(offered_mon)`: send the offer and wait seven times, each announcement with its checks. -/
def tradeOnce (offered : Pokemon100) : LinkM GbaTradeResult := do
  let ep ← get
  require ep.connected (endpointError "GB-Link endpoint is not connected")
  answer offered.refuseMail
  send .setOfferMon (UInt8.ofNat ep.offerSlot :: offered.raw)
  let ready ← waitFor [.offerReady]
  require (ready.payload = expectedReady ep.offerSlot offered)
    (protocolError "OFFER_READY slot/hash does not match requested record")
  let _ ← waitFor [.tradeSessionStarted]
  let party ← waitFor [.partnerParty]
  require (party.payload.length = 600) (protocolError "PARTNER_PARTY must be exactly 600 bytes")
  let slotFrame ← waitFor [.partnerSelectedSlot]
  require (slotFrame.payload.length = 1 ∧ slotFrame.payload.getD 0 0 ≤ 5)
    (protocolError "PARTNER_SELECTED_SLOT must be one byte in 0..5")
  let selectedSlot := (slotFrame.payload.getD 0 0).toNat
  let monFrame ← waitFor [.partnerSelectedMon]
  let selected ← answer (Pokemon100.ofBytes monFrame.payload)
  let partySlice := slice party.payload (selectedSlot * 100) ((selectedSlot + 1) * 100)
  require (selected.raw = partySlice)
    (protocolError "selected-mon event contradicts captured partner party")
  let committed ← waitFor [.tradeCommitted, .tradeAborted, .error]
  require (committed.messageType = .tradeCommitted)
    ⟨.commitNotConfirmed, "GBA trade ended with " ++ committed.messageType.name⟩
  require (committed.payload = expectedCommit offered selected)
    (protocolError "TRADE_COMMITTED hashes do not match offered/selected records")
  let closed ← waitFor [.tradeLinkClosed, .error]
  let linkClosed := decide (closed.messageType = .tradeLinkClosed ∧ closed.payload = [0])
  return ⟨⟨offered, selected, true⟩, selectedSlot, linkClosed⟩

/-- `abort_if_safe()`: ask for the abort, and say whether the device answered that it aborted. -/
def abortIfSafe : LinkM Bool := do
  let ep ← get
  if !ep.connected then return true
  send .abortIfSafe []
  let result ← waitFor [.tradeAborted, .error]
  return decide (result.messageType = .tradeAborted)

/-! ## §4 — calls. -/

theorem call_bind {α β : Type} (ep : GbLinkEndpoint) (x : LinkM α) (f : α → LinkM β) :
    ep.call (x >>= f) =
      match ep.call x with
      | (.ok a, ep') => ep'.call (f a)
      | (.error e, ep') => (.error e, ep') := by
  show (x.run >>= ExceptT.bindCont f) ep = _
  unfold call
  show ExceptT.bindCont f (x.run ep).1 (x.run ep).2 = _
  rcases x.run ep with ⟨r, ep'⟩
  cases r <;> rfl

/-- A sequence that returned: its first part returned, and the second did on the endpoint behind that. -/
theorem call_bind_ok {α β : Type} {ep ep'' : GbLinkEndpoint} {x : LinkM α} {f : α → LinkM β} {b : β}
    (h : ep.call (x >>= f) = (.ok b, ep'')) :
    ∃ a ep', ep.call x = (.ok a, ep') ∧ ep'.call (f a) = (.ok b, ep'') := by
  rw [call_bind] at h
  rcases hx : ep.call x with ⟨res, ep'⟩
  rw [hx] at h
  cases res with
  | error e => cases h
  | ok a => exact ⟨a, ep', rfl, h⟩

theorem call_get_bind {α : Type} (ep : GbLinkEndpoint) (k : GbLinkEndpoint → LinkM α) :
    ep.call (get >>= k) = ep.call (k ep) := rfl

theorem call_answer_bind {α β : Type} (ep : GbLinkEndpoint) (r : Except Exc α) (k : α → LinkM β) :
    ep.call (answer r >>= k) =
      match r with
      | .ok a => ep.call (k a)
      | .error e => (.error e, ep) := by
  cases r <;> rfl

theorem call_require_bind {α : Type} (ep : GbLinkEndpoint) (condition : Prop) [Decidable condition]
    (e : Exc) (k : Unit → LinkM α) :
    ep.call (require condition e >>= k) = if condition then ep.call (k ()) else (.error e, ep) := by
  unfold require
  split <;> rfl

/-- A `write` that is not refused uses up its answer, and changes nothing else. -/
theorem call_write (ep : GbLinkEndpoint) (h : ∀ e, ep.transport.writes.head? ≠ some (.error e))
    (data : Bytes) :
    ep.call (write data) = (.ok (), { ep with
      transport.writes := ep.transport.writes.tail
      transport.written := ep.transport.written ++ [data] }) := by
  obtain ⟨⟨reads, writes, opened, written⟩, slot, decoder, replay, txid, out, connected⟩ := ep
  cases writes with
  | nil => rfl
  | cons a rest =>
      cases a with
      | error e => exact absurd rfl (h e)
      | ok u => rfl

theorem call_write_error (ep : GbLinkEndpoint) {e : Exc} {rest : List (Except Exc Unit)}
    (h : ep.transport.writes = .error e :: rest) (data : Bytes) :
    (ep.call (write data)).1 = .error e := by
  obtain ⟨⟨reads, writes, opened, written⟩, slot, decoder, replay, txid, out, connected⟩ := ep
  simp only at h
  subst h
  rfl

theorem call_send (ep : GbLinkEndpoint) (messageType : MessageType) (payload : Bytes) :
    ep.call (send messageType payload) =
      match Frame.create messageType ep.txid (ep.outSequence + 1) payload 0 with
      | .ok frame =>
          ({ ep with outSequence := ep.outSequence + 1 } : GbLinkEndpoint).call (write frame.encode)
      | .error e => (.error e, { ep with outSequence := ep.outSequence + 1 }) := by
  show ({ ep with outSequence := ep.outSequence + 1 } : GbLinkEndpoint).call
    (answer (Frame.create messageType ep.txid (ep.outSequence + 1) payload 0) >>= fun frame =>
      write frame.encode) = _
  rw [call_bind]
  cases Frame.create messageType ep.txid (ep.outSequence + 1) payload 0 <;> rfl

end GbLinkEndpoint

end TradeBroker.Gba
