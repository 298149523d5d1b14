/-
# TradeBroker.Broker.Lifecycle — which serial transports `execute` closes.

The endpoints of a real run: `GbLinkEndpoint` over a transport that answers as it likes, and
`SwitchTradeSession` (`broker/switch/session.py`) over a driver that does.  `RigStep` is `Step` with the
endpoint calls answered by these two, so every run of it is a run of `Step` (`RigStep.forget`), and it keeps
what was done to the transport.

Three flags record that the GBA side is connected.  The endpoint sets its own as soon as the transport is
open, the coordinator sets its own when `connect` has RETURNED, and the `finally` clause goes by the
coordinator's.  A handshake that raises after `open` falls between the two: the transport is open and nobody
closes it.  `serial_closed_iff` says that this is the only way, run by run, with the handshake read off the
transport (`Handshake`); `silent_adapter_left_open` is a run that takes it.

The condition is one on the adapter, not on the run.  `Handshake` looks at the bytes that the transport
will answer and at nothing that the endpoint computes: both frames of `connect` are accepted, and the
first frame that the wait behind them takes is a `CAPABILITIES` with every bit.  `connect_ok_iff` says
that this is what it takes for `connect` to return.

The rest of `execute` is shown to spare the transport (`Spares`), statement by statement and once for each
kind of statement.  So the history of the transport has three forms only, and `Ending` lists them.
-/
import TradeBroker.Broker.Script
import TradeBroker.Gba.GbLink

namespace TradeBroker

open Lib
open Gba (GbLinkEndpoint Transport LinkM)

-- Programs are compared by running them: keep the bytes of a record out of that.
attribute [local irreducible] Pokemon100.heldItem

/-! ## §1 — the endpoints. -/

/-- `close()`; the argument is what `transport.close()` answers.  A close that raises leaves the flag of the
endpoint up. -/
def Gba.GbLinkEndpoint.close (closed : Except Exc Unit) : LinkM Unit := do
  GbLinkEndpoint.answer closed
  modify fun ep => { ep with connected := false }

structure SwitchTradeSession where
  connected : Bool := false

namespace SwitchTradeSession

def runtimeError (text : PyStr) : Exc := ⟨.foreign "RuntimeError" true, text⟩

/-- `connect()`, with the answer of the driver. -/
def connect (self : SwitchTradeSession) (driver : Except Exc Unit) : Except Exc Unit × SwitchTradeSession :=
  if self.connected then (.error (runtimeError "Switch session is already connected"), self)
  else
    match driver with
    | .error e => (.error e, self)
    | .ok () => (.ok (), { connected := true })

def waitForTradeMenu (self : SwitchTradeSession) (driver : Except Exc Unit) : Except Exc Unit :=
  if !self.connected then .error (runtimeError "Switch session is not connected") else driver

/-- `trade_once(offered_mon)`, with what the driver answers to `set_offer_mon` and `trade_once`. -/
def tradeOnce (self : SwitchTradeSession) (offered : Pokemon100) (setOffer : Except Exc Unit)
    (driver : Except Exc (Bytes × Bytes × Bool)) : Except Exc TradeResult := do
  if !self.connected then throw (runtimeError "Switch session is not connected")
  offered.refuseMail
  setOffer
  let (offeredRaw, receivedRaw, committed) ← driver
  let offeredMon ← Pokemon100.ofBytes offeredRaw
  let receivedMon ← Pokemon100.ofBytes receivedRaw
  return ⟨offeredMon, receivedMon, committed⟩

def close (self : SwitchTradeSession) (driver : Except Exc Unit) : Except Exc Unit × SwitchTradeSession :=
  if self.connected then
    match driver with
    | .error e => (.error e, self)
    | .ok () => (.ok (), { connected := false })
  else (.ok (), self)

end SwitchTradeSession

/-- What is done to a serial transport: `open()`, behind which the device is open or not, and `close()`,
whatever it answers. -/
inductive SerialCall where
  | openCalled (device : Bool)
  | closeCalled
  deriving DecidableEq

/-- The `open()` returns. -/
def Gba.Transport.opens (t : Transport) : Bool :=
  match t.opened with
  | .ok () => true
  | .error _ => false

/-- The two endpoints, and the history of the serial transport: which calls reached it and how they ended. -/
structure Endpoints where
  gba : GbLinkEndpoint
  switch : SwitchTradeSession := {}
  serial : List SerialCall := []

namespace Endpoints

/-- What an operation of the broker may answer, for some behaviour of the driver and of `transport.close()`;
one that is no endpoint call leaves the endpoints alone.  An `open()` that raises may have opened the
device before. -/
def Answers (m : Endpoints) : (op : Op) → Ret op → Endpoints → Prop
  | .connect .gba, r, m' =>
      ∃ device, (m.gba.transport.opens = true → device = true) ∧
        r = (m.gba.call GbLinkEndpoint.connect).1 ∧
        m' = { m with
          gba := (m.gba.call GbLinkEndpoint.connect).2
          serial := m.serial ++ [.openCalled device] }
  | .connect .switch, r, m' =>
      ∃ driver, r = (m.switch.connect driver).1 ∧ m' = { m with switch := (m.switch.connect driver).2 }
  | .waitForTradeMenu, r, m' => ∃ driver, r = m.switch.waitForTradeMenu driver ∧ m' = m
  | .switchTrade offered, r, m' =>
      ∃ setOffer driver, r = m.switch.tradeOnce offered setOffer driver ∧ m' = m
  | .gbaTrade offered, r, m' =>
      r = (m.gba.call (GbLinkEndpoint.tradeOnce offered)).1 ∧
        m' = { m with gba := (m.gba.call (GbLinkEndpoint.tradeOnce offered)).2 }
  | .close .gba, r, m' =>
      ∃ closed, r = (m.gba.call (GbLinkEndpoint.close closed)).1 ∧
        m' = { m with
          gba := (m.gba.call (GbLinkEndpoint.close closed)).2
          serial := m.serial ++ [.closeCalled] }
  | .close .switch, r, m' =>
      ∃ driver, r = (m.switch.close driver).1 ∧ m' = { m with switch := (m.switch.close driver).2 }
  | _, _, m' => m' = m

/-- Every serial transport that was opened has had its `close` called, whether that call returned or raised. -/
def Closed (m : Endpoints) : Prop := .openCalled true ∈ m.serial → .closeCalled ∈ m.serial

end Endpoints

/-- The world of the broker, and the endpoints in it. -/
structure Rig where
  world : World
  endpoints : Endpoints

/-- A step of the world in which these endpoints answer: a step of the broker's world, and an answer that the
endpoints can give. -/
def RigStep (w : Rig) (op : Op) (r : Ret op) (w' : Rig) : Prop :=
  Step w.world op r w'.world ∧ w.endpoints.Answers op r w'.endpoints

/-- With the endpoints left out, it is a run of the broker. -/
theorem RigStep.forget {α : Type} {p q : Prog Op Ret α} {w v : Rig} (h : Prog.Reach RigStep p w q v) :
    Prog.Reach Step p w.world q v.world :=
  h.map Rig.world fun _ _ _ _ hs => hs.1

/-! ## §2 — what a step leaves alone. -/

/-- The operation is a call of the GBA endpoint, so it may change it. -/
def Op.onGba : Op → Bool
  | .connect .gba => true
  | .gbaTrade _ => true
  | .close .gba => true
  | _ => false

/-- The operation opens or closes the transport. -/
def Op.onSerial : Op → Bool
  | .connect .gba => true
  | .close .gba => true
  | _ => false

namespace RigStep

variable {w w' : Rig} {op : Op} {r : Ret op}

/-- Only the calls of the GBA endpoint change it and its transport. -/
theorem gba (h : RigStep w op r w') (hop : ¬ op.onGba = true) :
    w'.endpoints.gba = w.endpoints.gba ∧ w'.endpoints.serial = w.endpoints.serial := by
  obtain ⟨-, h⟩ := h
  cases op with
  | connect c =>
      cases c with
      | gba => exact absurd rfl hop
      | switch =>
          obtain ⟨driver, -, hm⟩ := h
          rw [hm]
          exact ⟨rfl, rfl⟩
  | close c =>
      cases c with
      | gba => exact absurd rfl hop
      | switch =>
          obtain ⟨driver, -, hm⟩ := h
          rw [hm]
          exact ⟨rfl, rfl⟩
  | waitForTradeMenu =>
      obtain ⟨driver, -, hm⟩ := h
      rw [hm]
      exact ⟨rfl, rfl⟩
  | switchTrade offered =>
      obtain ⟨setOffer, driver, -, hm⟩ := h
      rw [hm]
      exact ⟨rfl, rfl⟩
  | gbaTrade offered => exact absurd rfl hop
  | _ =>
      have hm : w'.endpoints = w.endpoints := h
      rw [hm]
      exact ⟨rfl, rfl⟩

/-- Only `connect` and `close` of the GBA endpoint reach the transport's `open` and `close`. -/
theorem serial (h : RigStep w op r w') (hop : ¬ op.onSerial = true) :
    w'.endpoints.serial = w.endpoints.serial := by
  by_cases hgba : op.onGba = true
  · obtain ⟨-, h⟩ := h
    cases op with
    | gbaTrade offered =>
        obtain ⟨-, hm⟩ := h
        rw [hm]
    | connect c =>
        cases c with
        | gba => exact absurd rfl hop
        | switch => exact absurd hgba Bool.false_ne_true
    | close c =>
        cases c with
        | gba => exact absurd rfl hop
        | switch => exact absurd hgba Bool.false_ne_true
    | _ => exact absurd hgba Bool.false_ne_true
  · exact (h.gba hgba).2

end RigStep

/-! ## §3 — programs that leave the transport alone. -/

/-- The operations of the journal store are not among `bad`. -/
structure SparesJournal (bad : Op → Prop) : Prop where
  pathExists : ¬ bad .pathExists
  readText : ¬ bad .readText
  file : ∀ c t, ¬ bad (.file c t)
  replace : ∀ t, ¬ bad (.replace t)
  now : ¬ bad .now
  uuid4 : ¬ bad .uuid4

namespace JournalStore

variable (self : JournalStore) {bad : Op → Prop}

theorem transition_avoids (h : SparesJournal bad) (record : JournalRecord) (state : JournalState) (u : Update) :
    (self.transition record state u).Avoids bad := by
  unfold transition
  split
  · trivial
  · refine ⟨h.now, ?_⟩
    intro now
    exact Prog.Avoids.bind (write_avoids self h.file (fun _ => h.replace _) _) fun _ => trivial

theorem requireNewTransaction_avoids (h : SparesJournal bad) : self.requireNewTransaction.Avoids bad := by
  unfold requireNewTransaction
  refine Act.Avoids.bind (.perform _ h.pathExists) ?_
  intro present
  cases present with
  | false => exact Act.Avoids.pure ()
  | true =>
      refine Act.Avoids.bind (load_avoids self h.readText) ?_
      intro record
      refine Act.Avoids.bind (markRestart_avoids self h.file (fun _ => h.replace _) h.now record) ?_
      intro _
      refine Act.Avoids.bind (load_avoids self h.readText) ?_
      intro again
      exact Act.Avoids.throw _

theorem create_avoids (h : SparesJournal bad) (P : Pokemon100) : (self.create P).Avoids bad := by
  unfold create
  refine Act.Avoids.bind (.perform _ h.pathExists) ?_
  intro present
  cases present with
  | true =>
      refine Act.Avoids.bind (load_avoids self h.readText) ?_
      intro old
      exact Act.Avoids.throw _
  | false =>
      refine Act.Avoids.bind (.perform _ h.now) ?_
      intro now
      refine Act.Avoids.bind (.perform _ h.uuid4) ?_
      intro txid
      refine Act.Avoids.bind (saveArtifact_avoids self h.file (fun _ _ => h.replace _) _ _ _) ?_
      intro _
      refine Act.Avoids.bind (write_avoids self h.file (fun _ => h.replace _) _) ?_
      intro _
      exact Act.Avoids.pure _

end JournalStore

theorem sparesJournal_onGba : SparesJournal fun op => op.onGba = true :=
  ⟨Bool.false_ne_true, Bool.false_ne_true, fun _ _ => Bool.false_ne_true, fun _ => Bool.false_ne_true,
    Bool.false_ne_true, Bool.false_ne_true⟩

theorem sparesJournal_onSerial : SparesJournal fun op => op.onSerial = true :=
  ⟨Bool.false_ne_true, Bool.false_ne_true, fun _ _ => Bool.false_ne_true, fun _ => Bool.false_ne_true,
    Bool.false_ne_true, Bool.false_ne_true⟩

/-- The handshake flag and the history of the transport are as they were, which is all that the `finally`
clause depends on. -/
def Steady (l : Locals) (w : Rig) (l' : Locals) (v : Rig) : Prop :=
  l'.gbaConnected = l.gbaConnected ∧ v.endpoints.serial = w.endpoints.serial

namespace TradeCoordinator

variable (journal : JournalStore)

/-- The method neither opens nor closes the transport, nor does it touch the flag of the GBA side. -/
def Spares {α : Type} (x : Coordinator α) : Prop :=
  ∀ l w, Method.Sat RigStep (fun _ => True) x l w (fun _ l' v => Steady l w l' v)
    (fun _ l' v => Steady l w l' v)

namespace Spares

variable {α β : Type}

theorem pure (a : α) : Spares (Pure.pure a) := fun _ _ => Method.Sat.pure trivial ⟨rfl, rfl⟩

theorem get : Spares MonadState.get := fun _ _ => ⟨trivial, rfl, rfl⟩

theorem bind {x : Coordinator α} {f : α → Coordinator β} (hx : Spares x) (hf : ∀ a, Spares (f a)) :
    Spares (x >>= f) := by
  intro l w
  refine Method.Sat.bind (hx l w) ?_
  intro a l' v _ h
  have htrans : ∀ {l'' : Locals} {u : Rig}, Steady l' v l'' u → Steady l w l'' u :=
    fun h' => ⟨h'.1.trans h.1, h'.2.trans h.2⟩
  exact (hf a l' v).mono (fun _ hv => hv) (fun _ _ _ _ h' => htrans h') fun _ _ _ _ h' => htrans h'

theorem lift {x : Broker α} (h : x.Avoids fun op => op.onSerial = true) : Spares (Method.lift x) := by
  intro l w
  have hsat := h.sat (S := RigStep) (I := fun _ => True)
    (J := fun v : Rig => v.endpoints.serial = w.endpoints.serial)
    (fun _ _ _ _ hop hw hs => (hs.serial hop).trans hw) (fun _ _ => trivial) rfl
  exact Method.Sat.lift (hsat.mono (fun _ hv => hv) (fun _ _ _ hv => ⟨rfl, hv⟩) fun _ _ _ hv => ⟨rfl, hv⟩)

/-- One call that does not reach the transport. -/
theorem perform {op : Op} (k : Ret op → Except Exc α) (h : op.onSerial = false) :
    Spares (Method.lift (ExceptT.mk (.call op fun r => .done (k r)) : Broker α)) :=
  lift (.perform k (by rw [h]; exact Bool.false_ne_true))

theorem ofExcept (r : Except Exc α) : Spares (Method.lift (TradeBroker.ofExcept r)) := lift (.ofExcept r)

theorem transition (state : JournalState) (u : Update) : Spares (transition journal state u) := by
  intro l w
  have havoid := journal.transition_avoids sparesJournal_onSerial l.record state u
  have hsat := havoid.sat (S := RigStep) (I := fun v : Rig => v.endpoints.serial = w.endpoints.serial)
    (fun _ _ _ _ hop hw hs => (hs.serial hop).trans hw) rfl
  refine Prog.Sat.bind (R := fun _ v => v.endpoints.serial = w.endpoints.serial)
    (hsat.mono (fun _ _ => trivial) fun _ _ hv _ => hv) ?_
  rintro ⟨written, record⟩ v _ hv
  refine ⟨trivial, ?_⟩
  cases written with
  | ok u => exact ⟨rfl, hv⟩
  | error e => exact ⟨rfl, hv⟩

theorem hook (boundary : Boundary) : Spares (hook boundary) := by
  intro l w
  have hlift : Spares (Method.lift (faultHook boundary l.record)) := perform _ rfl
  exact hlift l w

theorem saveArtifact (label : PyStr) (mon : Pokemon100) : Spares (saveArtifact journal label mon) := by
  intro l w
  have hlift : Spares (Method.lift (journal.saveArtifact l.record label mon)) :=
    lift (journal.saveArtifact_avoids (fun _ _ => Bool.false_ne_true) (fun _ _ => Bool.false_ne_true) _ _ _)
  exact hlift l w

theorem switchStage1 (P : Pokemon100) : Spares (switchStage1 journal P) := by
  unfold TradeCoordinator.switchStage1
  refine .bind (.transition journal _ _) fun _ => .bind (.hook _) fun _ => ?_
  refine .bind (.perform _ rfl) fun _ => .bind (.perform _ rfl) fun first => ?_
  refine .bind (.hook _) fun _ => .bind (.ofExcept _) fun _ => ?_
  refine .bind (.ofExcept _) fun _ => .bind (.saveArtifact journal _ _) fun _ => ?_
  refine .bind (.transition journal _ _) fun _ => .bind (.transition journal _ _) fun _ => ?_
  exact .bind (.hook _) fun _ => .pure _

theorem gbaStage (b : Pokemon100) : Spares (gbaStage journal b) := by
  unfold TradeCoordinator.gbaStage
  refine .bind (.transition journal _ _) fun _ => .bind (.hook _) fun _ => ?_
  refine .bind (.perform _ rfl) fun result => .bind (.hook _) fun _ => ?_
  refine .bind (.ofExcept _) fun _ => .bind (.ofExcept _) fun _ => ?_
  refine .bind (.saveArtifact journal _ _) fun _ => .bind (.transition journal _ _) fun _ => ?_
  refine .bind (.transition journal _ _) fun _ => ?_
  exact .bind (.hook _) fun _ => .pure _

theorem switchStage2 (P b a : Pokemon100) : Spares (switchStage2 journal P b a) := by
  unfold TradeCoordinator.switchStage2
  refine .bind (.transition journal _ _) fun _ => .bind (.hook _) fun _ => ?_
  refine .bind (.perform _ rfl) fun _ => .bind (.perform _ rfl) fun second => ?_
  refine .bind (.hook _) fun _ => .bind (.ofExcept _) fun _ => ?_
  refine .bind (.saveArtifact journal _ _) fun _ => .bind (.transition journal _ _) fun _ => ?_
  refine .bind (.hook _) fun _ => .bind (.ofExcept _) fun _ => ?_
  refine .bind (.transition journal _ _) fun _ => ?_
  exact .bind .get fun _ => .pure _

end Spares

theorem handle_avoids (record : JournalRecord) (ended : Except Exc TransactionOutcome) :
    (handle journal record ended).Avoids fun op => op.onSerial = true := by
  unfold handle
  split
  · exact Act.Avoids.pure _
  · split
    · refine Act.Avoids.bind ?_ fun _ => Act.Avoids.throw _
      unfold markRecovery
      split
      · exact Act.Avoids.pure _
      · refine Prog.Avoids.bind (journal.transition_avoids sparesJournal_onSerial _ _ _) ?_
        rintro ⟨written, _⟩
        cases written with
        | ok u => exact trivial
        | error e => exact trivial
    · exact Act.Avoids.throw _

end TradeCoordinator

/-! ## §4 — when `connect` succeeds. -/

namespace Gba.GbLinkEndpoint

/-- The transport accepts both frames of `connect`, and the first answer to the wait behind them is a
`CAPABILITIES` of four bytes with every bit that the broker needs.  It is a fact about the transport
alone. -/
structure Handshake (ep : GbLinkEndpoint) : Prop where
  sequence : ep.outSequence + 2 ≤ 0xFFFFFFFF
  hello : ∀ e, ep.transport.writes.head? ≠ some (.error e)
  getCapabilities : ∀ e, ep.transport.writes.tail.head? ≠ some (.error e)
  answered : ∃ f, (waitLoop [.capabilities] ep.transport.reads ep).1 = .ok f ∧ f.payload.length = 4 ∧
    leNat f.payload &&& required = required

/-- What a wait answers depends on the decoder, the replay window and the transaction id, not on what was sent
before it; so the wait of `connect` can be judged by itself. -/
theorem waitLoop_answer {wanted : List MessageType} {reads : List (Except Exc Bytes)} {ep ep' : GbLinkEndpoint}
    (hd : ep'.decoder = ep.decoder) (hr : ep'.replay = ep.replay) (ht : ep'.txid = ep.txid) :
    (waitLoop wanted reads ep').1 = (waitLoop wanted reads ep).1 := by
  induction reads generalizing ep ep' with
  | nil => rfl
  | cons read reads ih =>
      cases read with
      | error e => rfl
      | ok data =>
          rw [waitLoop, waitLoop, hd, hr, ht]
          by_cases hempty : data = []
          · rw [if_pos hempty, if_pos hempty]
            exact ih hd hr ht
          · rw [if_neg hempty, if_neg hempty]
            rcases ep.decoder.feed data with ⟨fed, d⟩
            cases fed with
            | error e => rfl
            | ok frames =>
                rcases hsift : sift ep.txid wanted frames ep.replay with ⟨found, r⟩
                simp only [hsift]
                cases found with
                | error e => rfl
                | ok found =>
                    cases found with
                    | some f => rfl
                    | none => exact ih rfl rfl rfl

/-- The frame was sent: only the counter and the transport have changed. -/
structure Sent (ep ep' : GbLinkEndpoint) : Prop where
  writes : ep'.transport.writes = ep.transport.writes.tail
  reads : ep'.transport.reads = ep.transport.reads
  sequence : ep'.outSequence = ep.outSequence + 1
  decoder : ep'.decoder = ep.decoder
  replay : ep'.replay = ep.replay
  txid : ep'.txid = ep.txid

/-- `_send` of a payload that fits: it was sent, or it raised, and which of the two is a matter of the counter
and of the transport's next answer. -/
theorem send_cases (ep : GbLinkEndpoint) (messageType : MessageType) {payload : Bytes}
    (hp : payload.length ≤ maxPayload) :
    (∃ ep', ep.call (send messageType payload) = (.ok (), ep') ∧ ep.Sent ep' ∧
        ep.outSequence + 1 ≤ 0xFFFFFFFF ∧ ∀ e, ep.transport.writes.head? ≠ some (.error e)) ∨
      (∃ e, (ep.call (send messageType payload)).1 = .error e) ∧
        ¬ (ep.outSequence + 1 ≤ 0xFFFFFFFF ∧ ∀ e, ep.transport.writes.head? ≠ some (.error e)) := by
  rw [call_send, Frame.create]
  by_cases hs : ep.outSequence + 1 ≤ 0xFFFFFFFF
  · rw [dif_pos hs, if_neg (by simp), dif_pos hp]
    simp only
    by_cases hw : ∀ e, ep.transport.writes.head? ≠ some (.error e)
    · left
      have hcall := call_write { ep with outSequence := ep.outSequence + 1 } hw
      exact ⟨_, hcall _, ⟨rfl, rfl, rfl, rfl, rfl, rfl⟩, hs, hw⟩
    · right
      simp only [not_forall, not_not] at hw
      obtain ⟨e, he⟩ := hw
      obtain ⟨rest, hrest⟩ := List.head?_eq_some_iff.mp he
      have hcall := call_write_error { ep with outSequence := ep.outSequence + 1 } hrest
      refine ⟨⟨e, hcall _⟩, ?_⟩
      rintro ⟨_, hno⟩
      exact hno e he
  · right
    rw [dif_neg hs]
    exact ⟨⟨_, rfl⟩, fun h => hs h.1⟩

/-- What follows a call that raised is not run. -/
theorem call_bind_raises {α β : Type} {ep : GbLinkEndpoint} {x : LinkM α} {e : Exc}
    (h : (ep.call x).1 = .error e) (f : α → LinkM β) : (ep.call (x >>= f)).1 = .error e := by
  rw [call_bind]
  rcases hx : ep.call x with ⟨r, ep'⟩
  rw [hx] at h
  obtain rfl : r = .error e := h
  rfl

/-- The rest of `connect`, from its wait on: the answer and the checks on it. -/
def checkCapabilities : LinkM Unit := do
  let capabilities ← waitFor [.capabilities]
  require (capabilities.payload.length = 4) (protocolError "CAPABILITIES payload must be u32")
  let value := leNat capabilities.payload
  require (value &&& required = required) (endpointError ("GB-Link broker capabilities 0x" ++
    FrameDecoder.hexWord 4 value ++ " lack required 0x" ++ FrameDecoder.hexWord 4 required))

theorem capabilities_ok_iff (ep : GbLinkEndpoint) :
    (∃ u, (ep.call checkCapabilities).1 = .ok u) ↔
      ∃ f, (waitLoop [.capabilities] ep.transport.reads ep).1 = .ok f ∧ f.payload.length = 4 ∧
        leNat f.payload &&& required = required := by
  have hwait : ep.call (waitFor [.capabilities]) = waitLoop [.capabilities] ep.transport.reads ep := rfl
  unfold checkCapabilities
  rw [call_bind, hwait]
  rcases waitLoop [.capabilities] ep.transport.reads ep with ⟨r, ep'⟩
  cases r with
  | error e => simp
  | ok f =>
      simp only [call_require_bind]
      by_cases hlen : f.payload.length = 4
      · rw [if_pos hlen]
        unfold require
        by_cases hbits : leNat f.payload &&& required = required
        · rw [if_pos hbits]
          exact ⟨fun _ => ⟨f, rfl, hlen, hbits⟩, fun _ => ⟨(), rfl⟩⟩
        · rw [if_neg hbits]
          refine iff_of_false ?_ ?_
          · rintro ⟨u, hu⟩
            cases hu
          · rintro ⟨g, hg, -, hno⟩
            obtain rfl := Except.ok.inj hg
            exact hbits hno
      · rw [if_neg hlen]
        refine iff_of_false ?_ ?_
        · rintro ⟨u, hu⟩
          cases hu
        · rintro ⟨g, hg, hno, -⟩
          obtain rfl := Except.ok.inj hg
          exact hlen hno

/-- What `connect` does once the transport is open: two frames, then the wait. -/
def greet : LinkM Unit := do
  send .hello greeting
  send .getCapabilities []
  checkCapabilities

theorem handshake_ok_iff (ep : GbLinkEndpoint) :
    (∃ u, (ep.call greet).1 = .ok u) ↔ ep.Handshake := by
  unfold greet
  rcases send_cases ep .hello (show greeting.length ≤ maxPayload by decide) with
    ⟨ep1, h1, hsent1, hseq1, hw1⟩ | ⟨⟨e, he⟩, hno⟩
  · rcases send_cases ep1 .getCapabilities (show ([] : Bytes).length ≤ maxPayload by decide) with
      ⟨ep2, h2, hsent2, hseq2, hw2⟩ | ⟨⟨e, he⟩, hno⟩
    · have hanswer : (waitLoop [.capabilities] ep2.transport.reads ep2).1 =
          (waitLoop [.capabilities] ep.transport.reads ep).1 := by
        rw [hsent2.reads, hsent1.reads]
        exact waitLoop_answer (hsent2.decoder.trans hsent1.decoder) (hsent2.replay.trans hsent1.replay)
          (hsent2.txid.trans hsent1.txid)
      rw [call_bind, h1]
      simp only
      rw [call_bind, h2]
      refine (capabilities_ok_iff ep2).trans ?_
      rw [hanswer]
      constructor
      · intro hanswered
        refine ⟨?_, hw1, ?_, hanswered⟩
        · rw [hsent1.sequence] at hseq2
          exact hseq2
        · rw [hsent1.writes] at hw2
          exact hw2
      · exact Handshake.answered
    · -- the second frame is refused
      refine iff_of_false ?_ ?_
      · rintro ⟨u, hu⟩
        rw [call_bind, h1] at hu
        exact absurd ((call_bind_raises he _).symm.trans hu) (by simp)
      · intro h
        refine hno ⟨?_, ?_⟩
        · rw [hsent1.sequence]
          exact h.sequence
        · rw [hsent1.writes]
          exact h.getCapabilities
  · refine iff_of_false ?_ ?_
    · rintro ⟨u, hu⟩
      exact absurd ((call_bind_raises he _).symm.trans hu) (by simp)
    · intro h
      have hseq := h.sequence
      exact hno ⟨by omega, h.hello⟩

/-- **`connect` returns exactly when** the transport opens and the handshake succeeds; after a raise of the
handshake the device stays open. -/
theorem connect_ok_iff (ep : GbLinkEndpoint) :
    (∃ u, (ep.call connect).1 = .ok u) ↔ ep.transport.opens = true ∧ ep.Handshake := by
  have hopen : ep.call openTransport = (ep.transport.opened, ep) := rfl
  unfold Transport.opens
  cases hopened : ep.transport.opened with
  | error e =>
      rw [hopened] at hopen
      refine iff_of_false ?_ (by simp)
      rintro ⟨u, hu⟩
      have hraised : (ep.call connect).1 = .error e := call_bind_raises (congrArg Prod.fst hopen) _
      exact absurd (hraised.symm.trans hu) (by simp)
  | ok u =>
      have hcall : (ep.call connect).1 = ({ ep with connected := true }.call greet).1 := by
        unfold connect
        rw [call_bind, hopen, hopened]
        rfl
      rw [hcall, handshake_ok_iff]
      have hanswer : (waitLoop [.capabilities] ep.transport.reads { ep with connected := true }).1 =
          (waitLoop [.capabilities] ep.transport.reads ep).1 := waitLoop_answer rfl rfl rfl
      constructor
      · rintro ⟨hseq, hhello, hcaps, f, hf, hrest⟩
        exact ⟨rfl, hseq, hhello, hcaps, f, hanswer.symm.trans hf, hrest⟩
      · rintro ⟨-, hseq, hhello, hcaps, f, hf, hrest⟩
        exact ⟨hseq, hhello, hcaps, f, hanswer.trans hf, hrest⟩

end Gba.GbLinkEndpoint

/-! ## §5 — every run. -/

/-- The history of the transport while the coordinator runs, beside the coordinator's flag: nothing yet,
opened and flagged, or opened without a flag. -/
inductive Midway (ep : GbLinkEndpoint) : Bool → List SerialCall → Prop
  | before : Midway ep false []
  | raised (device : Bool) :
      ¬ (ep.transport.opens = true ∧ ep.Handshake) → Midway ep false [.openCalled device]
  | returned : ep.transport.opens = true → ep.Handshake → Midway ep true [.openCalled true]

/-- The history of the transport when `execute` is over: it was not called; `open` was called, `connect`
raised and nobody closed it; or it was opened and closed. -/
inductive Ending (ep : GbLinkEndpoint) : List SerialCall → Prop
  | before : Ending ep []
  | raised (device : Bool) :
      ¬ (ep.transport.opens = true ∧ ep.Handshake) → Ending ep [.openCalled device]
  | closed : ep.transport.opens = true → ep.Handshake → Ending ep [.openCalled true, .closeCalled]

/-- Only the third history closes, and only the second may leave open what it opened; in the first there was
nothing to close. -/
theorem Ending.closed_iff {ep : GbLinkEndpoint} {m : Endpoints} (h : Ending ep m.serial) :
    m.Closed ↔ (.openCalled true ∈ m.serial → ep.transport.opens = true ∧ ep.Handshake) := by
  unfold Endpoints.Closed
  generalize m.serial = serial at h ⊢
  cases h with
  | before => simp
  | raised device hno =>
      have hclosed : SerialCall.closeCalled ∉ [.openCalled device] := by simp
      exact ⟨fun hclose hopen => absurd (hclose hopen) hclosed, fun hhands hopen => absurd (hhands hopen) hno⟩
  | closed hopens hhands => exact iff_of_true (fun _ => by simp) fun _ => ⟨hopens, hhands⟩

namespace TradeCoordinator

variable (journal : JournalStore) {ep : GbLinkEndpoint} {l : Locals} {w : Rig}

/-- Before `connect`: the endpoint and its transport as they were given. -/
def Untouched (ep : GbLinkEndpoint) (w : Rig) : Prop := w.endpoints.gba = ep ∧ w.endpoints.serial = []

theorem untouched_sat {α : Type} {x : Broker α} (h : x.Avoids fun op => op.onGba = true)
    (hw : Untouched ep w) :
    Act.Sat RigStep (fun _ => True) x w (fun _ v => Untouched ep v) (fun _ v => Untouched ep v) :=
  h.sat (fun _ _ _ _ hop hw hs => ⟨(hs.gba hop).1.trans hw.1, (hs.gba hop).2.trans hw.2⟩)
    (fun _ _ => trivial) hw

/-- What `self.gba.connect()` does to the transport: it opens it, and does not close it when it raises. -/
theorem connectGba_sat (hw : Untouched ep w) :
    Act.Sat RigStep (fun _ => True) (connect .gba) w
      (fun _ v => Midway ep true v.endpoints.serial)
      (fun _ v => Midway ep false v.endpoints.serial) := by
  obtain ⟨hep, hserial⟩ := hw
  refine ⟨trivial, ?_⟩
  rintro answer v ⟨-, device, hdevice, hanswer, hm⟩
  have hiff := ep.connect_ok_iff
  rw [hep] at hanswer hdevice
  rw [← hanswer] at hiff
  have hv : v.endpoints.serial = [.openCalled device] := by
    rw [hm, hserial]
    rfl
  refine ⟨trivial, ?_⟩
  cases answer with
  | ok u =>
      obtain ⟨hopens, hhands⟩ := hiff.mp ⟨u, rfl⟩
      show Midway ep true v.endpoints.serial
      rw [hv, hdevice hopens]
      exact .returned hopens hhands
  | error e =>
      show Midway ep false v.endpoints.serial
      rw [hv]
      refine .raised device fun h => ?_
      obtain ⟨u, hu⟩ := hiff.mpr h
      cases hu

theorem Spares.midway {α : Type} {x : Coordinator α} (h : Spares x)
    (hw : Midway ep l.gbaConnected w.endpoints.serial) :
    Method.Sat RigStep (fun _ => True) x l w (fun _ l' v => Midway ep l'.gbaConnected v.endpoints.serial)
      (fun _ l' v => Midway ep l'.gbaConnected v.endpoints.serial) := by
  have hsteady : ∀ {l' : Locals} {v : Rig}, Steady l w l' v → Midway ep l'.gbaConnected v.endpoints.serial := by
    rintro l' v ⟨hl, hv⟩
    rw [hl, hv]
    exact hw
  exact (h l w).mono (fun _ hv => hv) (fun _ _ _ _ hv => hsteady hv) fun _ _ _ _ hv => hsteady hv

/-- The coordinator's flag goes up when `connect` has returned, and at no other point. -/
theorem body_serial_sat (P : Pokemon100) (record : JournalRecord) (hw : Untouched ep w) :
    Method.Sat RigStep (fun _ => True) (body journal P) ⟨record, false, false⟩ w
      (fun _ l v => Midway ep l.gbaConnected v.endpoints.serial)
      (fun _ l v => Midway ep l.gbaConnected v.endpoints.serial) := by
  have hbefore : ∀ {v : Rig}, Untouched ep v → Midway ep false v.endpoints.serial := by
    intro v hv
    rw [hv.2]
    exact .before
  have hswitch := untouched_sat (x := connect .switch) (.perform _ Bool.false_ne_true) hw
  unfold body
  refine Method.Sat.bind (R := fun _ l v => l = ⟨record, false, false⟩ ∧ Untouched ep v)
    (Method.Sat.lift (hswitch.mono (fun _ hv => hv) (fun _ _ _ hv => ⟨rfl, hv⟩)
      fun _ _ _ hv => hbefore hv)) ?_
  rintro _ _ v _ ⟨rfl, hv⟩
  refine Method.Sat.bind (R := fun _ l v => l = ⟨record, false, true⟩ ∧ Untouched ep v)
    (Method.Sat.assign trivial ⟨rfl, hv⟩) ?_
  rintro _ _ v _ ⟨rfl, hv⟩
  refine Method.Sat.bind (R := fun _ l v => l = ⟨record, false, true⟩ ∧ Midway ep true v.endpoints.serial)
    (Method.Sat.lift ((connectGba_sat hv).mono (fun _ hv => hv) (fun _ _ _ hv => ⟨rfl, hv⟩)
      fun _ _ _ hv => hv)) ?_
  rintro _ _ v _ ⟨rfl, hv⟩
  refine Method.Sat.bind (R := fun _ l v => Midway ep l.gbaConnected v.endpoints.serial)
    (Method.Sat.assign trivial hv) ?_
  intro _ l v _ hv
  have hstages : Spares (do
      let bMon ← switchStage1 journal P
      let aMon ← gbaStage journal bMon
      switchStage2 journal P bMon aMon) := by
    refine .bind (.switchStage1 journal P) fun bMon => ?_
    refine .bind (.gbaStage journal bMon) fun aMon => ?_
    exact .switchStage2 journal P bMon aMon
  exact hstages.midway hv

/-- The close of the GBA side: called when the flag is up, whatever it answers. -/
theorem closeGba_sat {connected : Bool} (hw : Midway ep connected w.endpoints.serial) :
    Act.Sat RigStep (fun _ => True) (closeIf connected .gba) w (fun _ v => Ending ep v.endpoints.serial)
      (fun _ v => Ending ep v.endpoints.serial) := by
  unfold closeIf
  cases connected with
  | false =>
      refine Act.Sat.pure trivial ?_
      generalize w.endpoints.serial = serial at hw ⊢
      cases hw with
      | before => exact .before
      | raised device hno => exact .raised device hno
  | true =>
      have hclose : Act.Sat RigStep (fun _ => True) (Act.attempt (close .gba)) w
          (fun _ v => Ending ep v.endpoints.serial) (fun _ v => Ending ep v.endpoints.serial) := by
        refine ⟨trivial, ?_⟩
        rintro answer v ⟨-, closed, -, hm⟩
        refine ⟨trivial, ?_⟩
        show Ending ep v.endpoints.serial
        rw [hm]
        show Ending ep (w.endpoints.serial ++ [.closeCalled])
        generalize w.endpoints.serial = serial at hw ⊢
        cases hw with
        | returned hopens hhands => exact .closed hopens hhands
      refine Act.Sat.bind hclose ?_
      intro answer v _ hv
      cases answer with
      | ok u => exact Act.Sat.pure trivial hv
      | error e =>
          show Act.Sat RigStep _ (if e.isException then _ else _) _ _ _
          by_cases he : e.isException = true
          · rw [if_pos he]
            exact Act.Sat.pure trivial hv
          · rw [if_neg he]
            exact Act.Sat.throw trivial hv

/-- An operation list that spares the transport leaves its history as it is. -/
theorem ending_sat {α : Type} {x : Broker α} (h : x.Avoids fun op => op.onSerial = true)
    (hw : Ending ep w.endpoints.serial) :
    Act.Sat RigStep (fun _ => True) x w (fun _ v => Ending ep v.endpoints.serial)
      (fun _ v => Ending ep v.endpoints.serial) := by
  refine h.sat (J := fun v : Rig => Ending ep v.endpoints.serial) ?_ (fun _ _ => trivial) hw
  intro w op r w' hop hw hs
  rw [hs.serial hop]
  exact hw

theorem handle_serial_sat {ended : Except Exc TransactionOutcome}
    (hw : Midway ep l.gbaConnected w.endpoints.serial) :
    Act.Sat RigStep (fun _ => True) (handle journal l.record ended) w
      (fun _ v => Midway ep l.gbaConnected v.endpoints.serial)
      (fun _ v => Midway ep l.gbaConnected v.endpoints.serial) := by
  refine (handle_avoids journal l.record ended).sat
    (J := fun v : Rig => Midway ep l.gbaConnected v.endpoints.serial) ?_ (fun _ _ => trivial) hw
  intro w op r w' hop hw hs
  rw [hs.serial hop]
  exact hw

theorem closeSwitch_avoids (connected : Bool) :
    (closeIf connected .switch).Avoids fun op => op.onSerial = true := by
  unfold closeIf
  cases connected with
  | false => exact Act.Avoids.pure _
  | true =>
      refine Act.Avoids.bind (.attempt (.perform _ Bool.false_ne_true)) ?_
      intro closed
      cases closed with
      | ok u => exact Act.Avoids.pure _
      | error e =>
          show Act.Avoids _ (if e.isException then _ else _)
          split
          · exact Act.Avoids.pure _
          · exact Act.Avoids.throw _

/-- **Every history of the transport** is one of the three, wherever `execute` raises. -/
theorem execute_ending_sat (P : Pokemon100) (hw : Untouched ep w) :
    Act.Sat RigStep (fun _ => True) (execute journal P) w (fun _ v => Ending ep v.endpoints.serial)
      (fun _ v => Ending ep v.endpoints.serial) := by
  have hbefore : ∀ {v : Rig}, Untouched ep v → Ending ep v.endpoints.serial := by
    intro v hv
    rw [hv.2]
    exact .before
  have hspared : ∀ {α : Type} {x : Broker α} {v : Rig}, x.Avoids (fun op => op.onGba = true) →
      Untouched ep v → Act.Sat RigStep (fun _ => True) x v (fun _ v => Untouched ep v)
        (fun _ v => Ending ep v.endpoints.serial) :=
    fun h hv => (untouched_sat h hv).mono (fun _ hv => hv) (fun _ _ _ hv => hv) fun _ _ _ hv => hbefore hv
  unfold execute
  refine Act.Sat.bind (hspared (.ofExcept _) hw) ?_
  intro _ v _ hv
  refine Act.Sat.bind (hspared (journal.requireNewTransaction_avoids sparesJournal_onGba) hv) ?_
  intro _ v _ hv
  refine Act.Sat.bind (hspared (journal.create_avoids sparesJournal_onGba P) hv) ?_
  intro record v _ hv
  refine Act.Sat.bind (R := fun ended v => Midway ep ended.2.gbaConnected v.endpoints.serial)
    (Prog.Sat.bind (body_serial_sat journal P record hv) ?_) ?_
  · rintro ⟨ended, l⟩ v hI hend
    refine ⟨hI, ?_⟩
    cases ended with
    | ok outcome => exact hend
    | error e => exact hend
  rintro ⟨ended, l⟩ v _ hv
  refine Act.Sat.bind (R := fun _ v => Midway ep l.gbaConnected v.endpoints.serial)
    ((Act.Sat.attempt (handle_serial_sat journal hv)).mono (fun _ hv => hv) ?_ fun _ _ hv hno => hno) ?_
  · intro answer v _ hend
    cases answer with
    | ok outcome => exact hend
    | error e => exact hend
  intro answer v _ hv
  refine Act.Sat.bind (closeGba_sat hv) ?_
  intro _ v _ hv
  refine Act.Sat.bind (ending_sat (closeSwitch_avoids _) hv) ?_
  intro _ v _ hv
  exact ending_sat (.ofExcept answer) hv

/-- **A transport that was opened has been closed, exactly when** its `open` returned and the handshake
behind it succeeded. -/
theorem serial_closed_iff (P : Pokemon100) {w : World} {sw : SwitchTradeSession}
    {answer : Except Exc TransactionOutcome} {v : Rig}
    (h : Prog.Finish RigStep (execute journal P).run ⟨w, ⟨ep, sw, []⟩⟩ answer v) :
    v.endpoints.Closed ↔
      (.openCalled true ∈ v.endpoints.serial → ep.transport.opens = true ∧ ep.Handshake) := by
  have hstart : Untouched ep ⟨w, ⟨ep, sw, []⟩⟩ := ⟨rfl, rfl⟩
  obtain ⟨-, hend⟩ := Act.Sat.finish (execute_ending_sat journal P hstart) h
  have hending : Ending ep v.endpoints.serial := by
    cases answer with
    | ok outcome => exact hend
    | error e => exact hend
  exact hending.closed_iff

end TradeCoordinator

/-! ## §6 — two runs. -/

/-- A driver, and a `transport.close()`, that answer the same every time. -/
structure Driver where
  connect : Except Exc Unit := .ok ()
  waitForTradeMenu : Except Exc Unit := .ok ()
  setOfferMon : Except Exc Unit := .ok ()
  tradeOnce : Except Exc (Bytes × Bytes × Bool)
  close : Except Exc Unit := .ok ()
  transportClose : Except Exc Unit := .ok ()

namespace Endpoints

/-- What the endpoints answer now. -/
def script (m : Endpoints) (dr : Driver) : Script where
  connect
    | .gba => (m.gba.call GbLinkEndpoint.connect).1
    | .switch => (m.switch.connect dr.connect).1
  waitForTradeMenu := m.switch.waitForTradeMenu dr.waitForTradeMenu
  switchTrade := fun _ offered => (m.switch.tradeOnce offered dr.setOfferMon dr.tradeOnce, true)
  gbaTrade := fun offered => ((m.gba.call (GbLinkEndpoint.tradeOnce offered)).1, true)
  close
    | .gba => (m.gba.call (GbLinkEndpoint.close dr.transportClose)).1
    | .switch => (m.switch.close dr.close).1

/-- What an operation leaves of them. -/
def after (m : Endpoints) (dr : Driver) : Op → Endpoints
  | .connect .gba =>
      { m with
        gba := (m.gba.call GbLinkEndpoint.connect).2
        serial := m.serial ++ [.openCalled m.gba.transport.opens] }
  | .connect .switch => { m with switch := (m.switch.connect dr.connect).2 }
  | .gbaTrade offered => { m with gba := (m.gba.call (GbLinkEndpoint.tradeOnce offered)).2 }
  | .close .gba =>
      { m with
        gba := (m.gba.call (GbLinkEndpoint.close dr.transportClose)).2
        serial := m.serial ++ [.closeCalled] }
  | .close .switch => { m with switch := (m.switch.close dr.close).2 }
  | _ => m

end Endpoints

namespace Rig

def answer (dr : Driver) (w : Rig) (op : Op) : Ret op × Rig :=
  (((w.endpoints.script dr).answer w.world op).1,
    ⟨((w.endpoints.script dr).answer w.world op).2, w.endpoints.after dr op⟩)

theorem answer_step (dr : Driver) (w : Rig) (op : Op) :
    RigStep w op (w.answer dr op).1 (w.answer dr op).2 := by
  refine ⟨Script.answer_step _ _ _, ?_⟩
  cases op with
  | connect c =>
      cases c with
      | gba => exact ⟨_, id, rfl, rfl⟩
      | switch => exact ⟨dr.connect, rfl, rfl⟩
  | close c =>
      cases c with
      | gba => exact ⟨dr.transportClose, rfl, rfl⟩
      | switch => exact ⟨dr.close, rfl, rfl⟩
  | waitForTradeMenu => exact ⟨dr.waitForTradeMenu, rfl, rfl⟩
  | switchTrade offered => exact ⟨dr.setOfferMon, dr.tradeOnce, rfl, rfl⟩
  | gbaTrade offered => exact ⟨rfl, rfl⟩
  | _ => rfl

/-- The run of `execute(P)` with these endpoints on an empty disk. -/
def play (dr : Driver) (P : Pokemon100) (ep : GbLinkEndpoint) : Except Exc TransactionOutcome × Rig :=
  Prog.run (answer dr) (TradeCoordinator.execute sampleStore P).run ⟨⟨emptyDisk, []⟩, ⟨ep, {}, []⟩⟩

theorem play_finish (dr : Driver) (P : Pokemon100) (ep : GbLinkEndpoint) :
    Prog.Finish RigStep (TradeCoordinator.execute sampleStore P).run ⟨⟨emptyDisk, []⟩, ⟨ep, {}, []⟩⟩
      (play dr P ep).1 (play dr P ep).2 :=
  Prog.run_finish (answer_step dr) _ _

end Rig

/-- An adapter that opens and answers with the reads given. -/
def sampleEndpoint (reads : List (Except Exc Bytes)) : GbLinkEndpoint where
  transport := { reads := reads }
  offerSlot := .last 5
  txid := Script.txid

/-- A driver whose trade menu does not come up, so that the session ends behind `connect`. -/
def sampleDriver : Driver where
  waitForTradeMenu := .error ⟨.foreign "RuntimeError" true, "no trade menu"⟩
  tradeOnce := .error ⟨.foreign "RuntimeError" true, "no trade"⟩

/-- An adapter that opens and says nothing: the wait for its capabilities times out, and `connect` raises with
the device open. -/
def silentRun : Except Exc TransactionOutcome × Rig :=
  Rig.play sampleDriver (sampleMon 0) (sampleEndpoint [])

theorem silentRun_eval : silentRun.2.endpoints.serial = [.openCalled true] := by
  decide +kernel

/-- A transport that was opened, and that nobody closes: the adapter says nothing, `connect` raises, and the
flag that would have it closed was never set. -/
theorem silent_adapter_left_open :
    Prog.Finish RigStep (TradeCoordinator.execute sampleStore (sampleMon 0)).run
        ⟨⟨emptyDisk, []⟩, ⟨sampleEndpoint [], {}, []⟩⟩ silentRun.1 silentRun.2 ∧
      silentRun.2.endpoints.serial = [.openCalled true] ∧ ¬ silentRun.2.endpoints.Closed := by
  refine ⟨Rig.play_finish _ _ _, silentRun_eval, ?_⟩
  intro hclosed
  unfold Endpoints.Closed at hclosed
  rw [silentRun_eval] at hclosed
  have hmem : SerialCall.closeCalled ∈ [SerialCall.openCalled true] := hclosed (List.mem_singleton.mpr rfl)
  cases List.mem_singleton.mp hmem

/-- The capabilities that the broker needs, as the adapter announces them. -/
def capabilitiesFrame : Bytes :=
  (Gba.Frame.trimmed .capabilities Script.txid 1 [0x3f, 0, 0, 0]).encode

/-- An adapter that answers, and a Switch that fails later: the transport is closed. -/
def greetedRun : Except Exc TransactionOutcome × Rig :=
  Rig.play sampleDriver (sampleMon 0) (sampleEndpoint [.ok capabilitiesFrame])

theorem greetedRun_eval : greetedRun.2.endpoints.serial = [.openCalled true, .closeCalled] := by
  decide +kernel

/-- The run that is closed behind is one whose handshake succeeded. -/
theorem serial_closed_iff_greeted :
    greetedRun.2.endpoints.Closed ∧ (sampleEndpoint [.ok capabilitiesFrame]).Handshake := by
  have hclosed : greetedRun.2.endpoints.Closed := by
    intro _
    rw [greetedRun_eval]
    exact List.mem_cons_of_mem _ (List.mem_singleton.mpr rfl)
  have hopen : SerialCall.openCalled true ∈ greetedRun.2.endpoints.serial := by
    rw [greetedRun_eval]
    exact List.mem_cons_self
  have hfinish : Prog.Finish RigStep (TradeCoordinator.execute sampleStore (sampleMon 0)).run
      ⟨⟨emptyDisk, []⟩, ⟨sampleEndpoint [.ok capabilitiesFrame], {}, []⟩⟩ greetedRun.1 greetedRun.2 :=
    Rig.play_finish _ _ _
  have hiff := TradeCoordinator.serial_closed_iff sampleStore (sampleMon 0) hfinish
  exact ⟨hclosed, (hiff.mp hclosed hopen).2⟩

end TradeBroker
