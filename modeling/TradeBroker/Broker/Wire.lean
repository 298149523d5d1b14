/-
# TradeBroker.Broker.Wire — what a run of `execute` tells the adapter.

The coordinator over the endpoint of a real run (`Rig`), with a transport that answers as it likes: reads that
bring anything, writes that are refused, an `open` that fails.  The bytes that the host writes are then a matter
of two calls, `connect` and `trade_once`, each made once, in this order, and everything else in these methods is
silent.

So wherever the run is stopped, what the adapter has been told is a beginning of one fixed conversation
(`adapter_is_told`): the greeting, the question for the capabilities, one offer, numbered from one.  And the
record offered is not any record: it is the one that the Switch gave for the placeholder earlier in the run.

The device is not part of it.  Everything it may answer is covered, because the endpoint sends nothing in
reply to anything: what it writes depends on the call, on its own counter and on the record it is given.
Together with `Gba.Testimony`, which is about the bytes that come back, this is the whole conversation as
the host knows it.

The proof keeps an assertion beside the program (`Pause`) that survives everything which writes nothing,
so only the two calls that do write have to be looked at.
-/
import TradeBroker.Broker.Lifecycle
import TradeBroker.Firmware.Handshake

namespace TradeBroker

open Lib
open Gba (GbLinkEndpoint Frame MessageType LinkM maxPayload)
open Firmware (helloFrame getCapabilitiesFrame)

-- Programs are compared by running them: keep the bytes of a record out of that.
attribute [local irreducible] Pokemon100.heldItem

/-! ## §1 — what a method of the endpoint writes. -/

namespace Gba.GbLinkEndpoint

/-- Nothing was written, and the next frame will be the one it would have been: written bytes, counter, id and
slot are the same. -/
structure Mute (ep ep' : GbLinkEndpoint) : Prop where
  written : ep'.transport.written = ep.transport.written
  sequence : ep'.outSequence = ep.outSequence
  txid : ep'.txid = ep.txid
  offerSlot : ep'.offerSlot = ep.offerSlot

theorem Mute.refl (ep : GbLinkEndpoint) : Mute ep ep := ⟨rfl, rfl, rfl, rfl⟩

theorem Mute.trans {ep ep' ep'' : GbLinkEndpoint} (h : Mute ep ep') (h' : Mute ep' ep'') : Mute ep ep'' :=
  ⟨h'.written.trans h.written, h'.sequence.trans h.sequence, h'.txid.trans h.txid,
    h'.offerSlot.trans h.offerSlot⟩

/-- The method writes nothing, whatever the transport answers and however the method ends. -/
def Silent {α : Type} (x : LinkM α) : Prop := ∀ ep : GbLinkEndpoint, Mute ep (ep.call x).2

namespace Silent

variable {α β : Type}

theorem answer (r : Except Exc α) : Silent (GbLinkEndpoint.answer r) := fun ep => .refl ep

theorem require (condition : Prop) [Decidable condition] (e : Exc) : Silent (require condition e) := by
  intro ep
  unfold GbLinkEndpoint.require
  split
  · exact .refl ep
  · exact .refl ep

theorem bind {x : LinkM α} {f : α → LinkM β} (hx : Silent x) (hf : ∀ a, Silent (f a)) : Silent (x >>= f) := by
  intro ep
  have hfirst := hx ep
  rw [call_bind]
  rcases hcall : ep.call x with ⟨r, ep'⟩
  rw [hcall] at hfirst
  cases r with
  | error e => exact hfirst
  | ok a => exact hfirst.trans (hf a ep')

theorem waitFor (wanted : List MessageType) : Silent (waitFor wanted) := by
  intro ep
  show Mute ep (waitLoop wanted ep.transport.reads ep).2
  generalize ep.transport.reads = reads
  induction reads generalizing ep with
  | nil => exact ⟨rfl, rfl, rfl, rfl⟩
  | cons read reads ih =>
      cases read with
      | error e => exact ⟨rfl, rfl, rfl, rfl⟩
      | ok data =>
          rw [waitLoop]
          split
          · exact ih ep
          rcases ep.decoder.feed data with ⟨fed, d⟩
          cases fed with
          | error e => exact ⟨rfl, rfl, rfl, rfl⟩
          | ok frames =>
              simp only
              rcases sift ep.txid wanted frames ep.replay with ⟨found, r⟩
              cases found with
              | error e => exact ⟨rfl, rfl, rfl, rfl⟩
              | ok found =>
                  cases found with
                  | some f => exact ⟨rfl, rfl, rfl, rfl⟩
                  | none =>
                      have hstep : Mute ep { ep with decoder := d, replay := r } := ⟨rfl, rfl, rfl, rfl⟩
                      exact hstep.trans (ih _)

theorem checkCapabilities : Silent checkCapabilities := by
  unfold GbLinkEndpoint.checkCapabilities
  exact .bind (.waitFor _) fun _ => .bind (.require _ _) fun _ => .require _ _

theorem drive (offerSlot : Fin 6) (offered : Pokemon100) (n : Nat) (st : Gba.Stage) :
    Silent (Gba.drive offerSlot offered n st) := by
  induction n generalizing st with
  | zero => exact fun ep => .refl ep
  | succ n ih =>
      unfold Gba.drive
      refine .bind (.waitFor _) fun f => ?_
      unfold Gba.proceed
      split
      · exact .answer _
      · exact ih _

end Silent

theorem write_refused (ep : GbLinkEndpoint) {e : Exc} {rest : List (Except Exc Unit)}
    (h : ep.transport.writes = .error e :: rest) (data : Bytes) :
    ep.call (write data) = (.error e, { ep with transport.writes := rest }) := by
  obtain ⟨⟨reads, writes, opened, written⟩, slot, decoder, replay, txid, out, connected⟩ := ep
  simp only at h
  subst h
  rfl

/-- **`_send`** writes its frame, or it raises and writes nothing; there is no frame that was written in part. -/
theorem send_writes {ep ep₀ : GbLinkEndpoint} (hm : Mute ep ep₀) (f : Frame) (hid : f.transactionId = ep.txid)
    (hseq : f.sequence = ep.outSequence + 1) :
    (∃ ep', ep₀.call (send f.messageType f.payload) = (.ok (), ep') ∧
        Mute { ep with
          outSequence := f.sequence
          transport.written := ep.transport.written ++ [f.encode] } ep') ∨
      ∃ e ep', ep₀.call (send f.messageType f.payload) = (.error e, ep') ∧
        ep'.transport.written = ep.transport.written := by
  have hframe := f.create_eq
  rw [hid, hseq, ← hm.txid, ← hm.sequence] at hframe
  rw [call_send, hframe, hseq]
  obtain ⟨hwritten, hsequence, htxid, hslot⟩ := hm
  simp only
  cases hw : ep₀.transport.writes with
  | nil =>
      refine Or.inl ⟨_, call_write _ (by simp [hw]) _, ⟨?_, congrArg (· + 1) hsequence, htxid, hslot⟩⟩
      exact congrArg (· ++ [f.encode]) hwritten
  | cons a rest =>
      cases a with
      | ok u =>
          refine Or.inl ⟨_, call_write _ (by simp [hw]) _, ⟨?_, congrArg (· + 1) hsequence, htxid, hslot⟩⟩
          exact congrArg (· ++ [f.encode]) hwritten
      | error e =>
          have hcall := write_refused { ep₀ with outSequence := ep₀.outSequence + 1 } hw
          exact Or.inr ⟨e, _, hcall _, hwritten⟩

/-! ## §2 — `connect` and `trade_once`. -/

/-- The endpoint has not sent anything yet: its counter stands at zero, and nothing was written. -/
structure New (ep : GbLinkEndpoint) : Prop where
  written : ep.transport.written = []
  sequence : ep.outSequence = 0

/-- The two frames of `connect`, `HELLO` and `GET_CAPABILITIES`, numbered one and two. -/
def greetingOf (ep : GbLinkEndpoint) : List Bytes :=
  [(helloFrame ep.txid).encode, (getCapabilitiesFrame ep.txid).encode]

/-- The frame that offers a record behind the greeting, numbered three. -/
def offerOf (ep : GbLinkEndpoint) (b : Pokemon100) : Frame :=
  ⟨.setOfferMon, ep.txid, 3, UInt8.ofNat ep.offerSlot :: b.raw, by omega, by
    rw [List.length_cons, b.size_eq]
    decide⟩

/-- The endpoint with its greeting sent: two frames, and nothing heard yet. -/
def greetedBy (ep : GbLinkEndpoint) : GbLinkEndpoint :=
  { ep with outSequence := 2, transport.written := greetingOf ep }

section New

variable {ep ep₀ : GbLinkEndpoint}

/-- What `connect` does on an open transport: it writes a beginning of the greeting, and all of it if it
returns. -/
theorem greet_writes (hnew : New ep) (hm : Mute ep ep₀) :
    (ep₀.call greet).2.transport.written <+: greetingOf ep ∧
      ∀ u, (ep₀.call greet).1 = .ok u → Mute (greetedBy ep) (ep₀.call greet).2 := by
  unfold greet
  rw [call_bind]
  rcases send_writes hm (helloFrame ep.txid) rfl (congrArg (· + 1) hnew.sequence.symm) with
    ⟨ep₁, hhello, hm₁⟩ | ⟨e, ep₁, hhello, hw⟩
  swap
  · have hhello : ep₀.call (send .hello greeting) = _ := hhello
    rw [hhello]
    refine ⟨?_, fun u hu => by cases hu⟩
    show ep₁.transport.written <+: _
    rw [hw, hnew.written]
    exact List.nil_prefix
  have hhello : ep₀.call (send .hello greeting) = _ := hhello
  rw [hhello]
  simp only
  rw [call_bind]
  rcases send_writes hm₁ (getCapabilitiesFrame ep.txid) rfl rfl with ⟨ep₂, hcaps, hm₂⟩ | ⟨e, ep₂, hcaps, hw⟩
  swap
  · have hcaps : ep₁.call (send .getCapabilities []) = _ := hcaps
    rw [hcaps]
    refine ⟨?_, fun u hu => by cases hu⟩
    show ep₂.transport.written <+: _
    rw [hw]
    show ep.transport.written ++ [(helloFrame ep.txid).encode] <+: _
    rw [hnew.written]
    exact ⟨[(getCapabilitiesFrame ep.txid).encode], rfl⟩
  have hcaps : ep₁.call (send .getCapabilities []) = _ := hcaps
  rw [hcaps]
  simp only
  have hgreeted : Mute (greetedBy ep) ep₂ := by
    refine ⟨hm₂.written.trans ?_, hm₂.sequence, hm₂.txid, hm₂.offerSlot⟩
    show ep.transport.written ++ _ ++ _ = _
    rw [hnew.written]
    rfl
  have hall := hgreeted.trans (Silent.checkCapabilities ep₂)
  refine ⟨?_, fun _ _ => hall⟩
  rw [hall.written]
  exact List.prefix_rfl

/-- **`connect`** does the same, or it does not get so far. -/
theorem connect_writes (hnew : New ep) (hm : Mute ep ep₀) :
    (ep₀.call connect).2.transport.written <+: greetingOf ep ∧
      ∀ u, (ep₀.call connect).1 = .ok u → Mute (greetedBy ep) (ep₀.call connect).2 := by
  have hopen : ep₀.call openTransport = (ep₀.transport.opened, ep₀) := rfl
  cases hopened : ep₀.transport.opened with
  | error e =>
      have hcall : ep₀.call connect = (.error e, ep₀) := by
        unfold connect
        rw [call_bind, hopen, hopened]
      rw [hcall]
      refine ⟨?_, fun u hu => by cases hu⟩
      show ep₀.transport.written <+: _
      rw [hm.written, hnew.written]
      exact List.nil_prefix
  | ok u =>
      have hcall : ep₀.call connect = ({ ep₀ with connected := true } : GbLinkEndpoint).call greet := by
        unfold connect
        rw [call_bind, hopen, hopened]
        rfl
      rw [hcall]
      exact greet_writes hnew (hm.trans ⟨rfl, rfl, rfl, rfl⟩)

/-- **`trade_once`** behind the greeting writes the offer, or nothing and raises. -/
theorem tradeOnce_writes (hm : Mute (greetedBy ep) ep₀) (b : Pokemon100) :
    (ep₀.call (tradeOnce b)).2.transport.written = greetingOf ep ++ [(offerOf ep b).encode] ∨
      (ep₀.call (tradeOnce b)).2.transport.written = greetingOf ep ∧
        ∃ e, (ep₀.call (tradeOnce b)).1 = .error e := by
  rw [Gba.tradeOnce_eq_drive, call_get_bind, call_require_bind]
  split
  swap
  · exact Or.inr ⟨hm.written, _, rfl⟩
  rw [call_answer_bind]
  cases b.refuseMail with
  | error e => exact Or.inr ⟨hm.written, _, rfl⟩
  | ok u =>
      simp only
      have hslot : ep₀.offerSlot = ep.offerSlot := hm.offerSlot
      rw [hslot, call_bind]
      rcases send_writes hm (offerOf ep b) rfl rfl with ⟨ep₁, hoffer, hm₁⟩ | ⟨e, ep₁, hoffer, hw⟩
      · have hoffer : ep₀.call (send .setOfferMon (UInt8.ofNat ep.offerSlot :: b.raw)) = _ := hoffer
        rw [hoffer]
        exact Or.inl (hm₁.trans (Silent.drive ep.offerSlot b 7 .ready ep₁)).written
      · have hoffer : ep₀.call (send .setOfferMon (UInt8.ofNat ep.offerSlot :: b.raw)) = _ := hoffer
        rw [hoffer]
        exact Or.inr ⟨hw, e, rfl⟩

end New

end Gba.GbLinkEndpoint

/-! ## §3 — programs that write nothing. -/

/-- The operation writes to the adapter: opening it, or asking for its trade. -/
def Op.writes : Op → Bool
  | .connect .gba => true
  | .gbaTrade _ => true
  | _ => false

theorem sparesJournal_writes : SparesJournal fun op => op.writes = true :=
  ⟨Bool.false_ne_true, Bool.false_ne_true, fun _ _ => Bool.false_ne_true, fun _ => Bool.false_ne_true,
    Bool.false_ne_true, Bool.false_ne_true⟩

/-- A step at which the adapter is told nothing: the log may grow, the endpoint is mute. -/
def Wordless (w w' : Rig) : Prop :=
  w.endpoints.gba.Mute w'.endpoints.gba ∧ w.world.trace <+: w'.world.trace

/-- Nothing rewrites the log: a step only adds to it. -/
theorem Step.trace {w w' : World} {op : Op} {r : Ret op} (h : Step w op r w') : w.trace <+: w'.trace := by
  rcases h.disk with ⟨-, evs, htrace, -⟩ | ⟨target, -, rfl⟩
  · rw [htrace]
    exact List.prefix_append _ _
  · exact List.prefix_append _ _

theorem RigStep.wordless {w w' : Rig} {op : Op} {r : Ret op} (h : RigStep w op r w') (hop : ¬ op.writes = true) :
    Wordless w w' := by
  refine ⟨?_, h.1.trace⟩
  by_cases hgba : op.onGba = true
  · obtain ⟨-, h⟩ := h
    cases op with
    | connect c =>
        cases c with
        | gba => exact absurd rfl hop
        | switch => exact absurd hgba Bool.false_ne_true
    | gbaTrade offered => exact absurd rfl hop
    | close c =>
        cases c with
        | gba =>
            obtain ⟨closed, -, hm⟩ := h
            rw [hm]
            cases closed with
            | ok u => exact ⟨rfl, rfl, rfl, rfl⟩
            | error e => exact .refl _
        | switch => exact absurd hgba Bool.false_ne_true
    | _ => exact absurd hgba Bool.false_ne_true
  · rw [(h.gba hgba).1]
    exact .refl _

namespace TradeCoordinator

variable (journal : JournalStore)

/-- No operation of the method writes to the adapter, whatever the locals are and however the method ends. -/
def Leaves {α : Type} (x : Coordinator α) : Prop := ∀ l, (x.run l).Avoids fun op => op.writes = true

namespace Leaves

variable {α : Type}

theorem get : Leaves MonadState.get := fun _ => trivial

theorem lift {x : Broker α} (h : x.Avoids fun op => op.writes = true) : Leaves (Method.lift x) :=
  fun _ => Prog.Avoids.bind h fun _ => trivial

theorem perform {op : Op} (k : Ret op → Except Exc α) (h : op.writes = false) :
    Leaves (Method.lift (ExceptT.mk (.call op fun r => .done (k r)) : Broker α)) :=
  lift (.perform k (by rw [h]; exact Bool.false_ne_true))

theorem ofExcept (r : Except Exc α) : Leaves (Method.lift (TradeBroker.ofExcept r)) := lift (.ofExcept r)

theorem transition (state : JournalState) (u : Update) : Leaves (transition journal state u) := fun l =>
  Prog.Avoids.bind (journal.transition_avoids sparesJournal_writes l.record state u) fun _ => trivial

theorem hook (boundary : Boundary) : Leaves (hook boundary) := fun l =>
  (show Leaves (Method.lift (faultHook boundary l.record)) from perform _ rfl) l

theorem saveArtifact (label : PyStr) (mon : Pokemon100) : Leaves (saveArtifact journal label mon) := fun l =>
  (show Leaves (Method.lift (journal.saveArtifact l.record label mon)) from
    lift (journal.saveArtifact_avoids (fun _ _ => Bool.false_ne_true) (fun _ _ => Bool.false_ne_true) _ _ _)) l

end Leaves

end TradeCoordinator

/-! ## §4 — what the adapter has been told. -/

/-- The Switch took `P` for `b`, and confirmed that it did: there is such a trade in the log. -/
def Received (P b : Pokemon100) (w : World) : Prop :=
  ∃ durable swapped, .trade ⟨.switch, P, durable, .switchResult ⟨P, b, true⟩, swapped⟩ ∈ w.trace

/-- The whole conversation: the greeting, and the offer of a record that the Switch gave for `P`. -/
structure Offered (ep : GbLinkEndpoint) (P b : Pokemon100) (v : Rig) : Prop where
  received : Received P b v.world
  written : v.endpoints.gba.transport.written =
    GbLinkEndpoint.greetingOf ep ++ [(GbLinkEndpoint.offerOf ep b).encode]

/-- A beginning of it: a beginning of the greeting, or the whole conversation, which has one frame more. -/
inductive Told (ep : GbLinkEndpoint) (P : Pokemon100) (v : Rig) : Prop
  | greeting : v.endpoints.gba.transport.written <+: GbLinkEndpoint.greetingOf ep → Told ep P v
  | offer (b : Pokemon100) : Offered ep P b v → Told ep P v

/-- A stretch of the run on which the adapter is told nothing new: whatever holds on it says what was told so
far, and survives what writes nothing. -/
structure Pause (ep : GbLinkEndpoint) (P : Pokemon100) (J : Rig → Prop) : Prop where
  steadfast : ∀ w w', Wordless w w' → J w → J w'
  told : ∀ v, J v → Told ep P v

section Pause

open Gba.GbLinkEndpoint (New Mute greetedBy)

variable {ep : GbLinkEndpoint} {P b : Pokemon100} {w w' : Rig}

theorem Received.mono (h : Received P b w.world) (hw : Wordless w w') : Received P b w'.world := by
  obtain ⟨durable, swapped, hmem⟩ := h
  exact ⟨durable, swapped, hw.2.subset hmem⟩

/-- Nothing was said: in front of `connect`. -/
theorem Pause.fresh (hnew : New ep) : Pause ep P fun v => Mute ep v.endpoints.gba where
  steadfast := fun _ _ hw h => h.trans hw.1
  told := by
    intro v h
    refine .greeting ?_
    rw [h.written, hnew.written]
    exact List.nil_prefix

/-- The greeting was sent: behind `connect`, in front of the offer. -/
theorem Pause.greeted : Pause ep P fun v => Mute (greetedBy ep) v.endpoints.gba where
  steadfast := fun _ _ hw h => h.trans hw.1
  told := by
    intro v h
    refine .greeting ?_
    rw [h.written]
    exact List.prefix_rfl

/-- And the Switch has given `b`, so that the offer of `b` may come next. -/
theorem Pause.received : Pause ep P fun v => Mute (greetedBy ep) v.endpoints.gba ∧ Received P b v.world where
  steadfast := fun _ _ hw h => ⟨h.1.trans hw.1, h.2.mono hw⟩
  told := fun v h => Pause.greeted.told v h.1

theorem Pause.offered : Pause ep P (Offered ep P b) where
  steadfast := fun _ _ hw h => ⟨h.received.mono hw, hw.1.written.trans h.written⟩
  told := fun _ h => .offer b h

theorem Pause.over : Pause ep P (Told ep P) where
  steadfast := by
    intro w w' hw h
    cases h with
    | greeting h =>
        refine .greeting ?_
        rw [hw.1.written]
        exact h
    | offer b h => exact .offer b (Pause.offered.steadfast w w' hw h)
  told := fun _ h => h

/-- What writes nothing makes no end of a pause, whether it returns or raises. -/
theorem Pause.sat {J : Rig → Prop} (hJ : Pause ep P J) {α : Type} {x : Broker α}
    (h : x.Avoids fun op => op.writes = true) (hw : J w) :
    Act.Sat RigStep (Told ep P) x w (fun _ v => J v) (fun _ v => J v) :=
  h.sat (fun _ _ _ _ hop hw hs => hJ.steadfast _ _ (hs.wordless hop) hw) hJ.told hw

end Pause

namespace TradeCoordinator

open Gba.GbLinkEndpoint (New Mute greetedBy)

variable (journal : JournalStore) {ep : GbLinkEndpoint} {P b : Pokemon100} {J : Rig → Prop} {l : Locals} {w : Rig}

/-- It goes on behind a method that writes nothing, from the same pause. -/
theorem Leaves.andThen {α β : Type} {x : Coordinator α} (hx : Leaves x) (hJ : Pause ep P J) (hw : J w)
    {f : α → Coordinator β} {Q : β → Locals → Rig → Prop}
    (hf : ∀ a l' v, J v → Method.Sat RigStep (Told ep P) (f a) l' v Q fun _ _ v => Told ep P v) :
    Method.Sat RigStep (Told ep P) (x >>= f) l w Q fun _ _ v => Told ep P v := by
  refine Method.Sat.bind (R := fun _ _ v => J v) ?_ fun a l' v _ hv => hf a l' v hv
  refine ((hx l).sat (I := J) (fun _ _ _ _ hop hw hs => hJ.steadfast _ _ (hs.wordless hop) hw) hw).mono hJ.told ?_
  rintro ⟨r, l'⟩ v hv -
  cases r with
  | ok a => exact hv
  | error e => exact hJ.told v hv

/-- What was computed is an answer or the end of the method; the adapter hears of neither. -/
theorem ofExcept_andThen {α β : Type} {r : Except Exc α} {f : α → Coordinator β} {Q : β → Locals → Rig → Prop}
    (hw : Told ep P w) (hf : ∀ a, r = .ok a → Method.Sat RigStep (Told ep P) (f a) l w Q fun _ _ v => Told ep P v) :
    Method.Sat RigStep (Told ep P) (Method.lift (ofExcept r) >>= f) l w Q fun _ _ v => Told ep P v := by
  cases r with
  | error e => exact ⟨hw, hw⟩
  | ok a => exact hf a rfl

/-- The record that comes out of the first stage is the one that the Switch gave. -/
theorem switchStage1_told (hw : Mute (greetedBy ep) w.endpoints.gba) :
    Method.Sat RigStep (Told ep P) (switchStage1 journal P) l w
      (fun b _ v => Mute (greetedBy ep) v.endpoints.gba ∧ Received P b v.world) (fun _ _ v => Told ep P v) := by
  unfold switchStage1
  refine (Leaves.transition journal _ _).andThen .greeted hw fun _ l v hv => ?_
  refine (Leaves.hook _).andThen .greeted hv fun _ l v hv => ?_
  refine (Leaves.perform _ rfl).andThen .greeted hv fun _ l v hv => ?_
  -- the trade
  refine Method.Sat.bind (R := fun first _ v => Mute (greetedBy ep) v.endpoints.gba ∧
    ∃ durable swapped, .trade ⟨.switch, P, durable, .switchResult first, swapped⟩ ∈ v.world.trace) ?_ ?_
  · refine Method.Sat.lift ⟨Pause.greeted.told v hv, ?_⟩
    intro answer v' hs
    have hv' : Mute (greetedBy ep) v'.endpoints.gba :=
      (Pause.greeted (P := P)).steadfast v v' (hs.wordless Bool.false_ne_true) hv
    refine ⟨Pause.greeted.told v' hv', ?_⟩
    cases answer with
    | error e => exact Pause.greeted.told v' hv'
    | ok first =>
        obtain ⟨⟨swapped, hlog⟩, -⟩ := hs
        refine ⟨hv', v.world.disk.journal, swapped, ?_⟩
        rw [hlog]
        exact List.mem_append_right _ (List.mem_singleton.mpr rfl)
  rintro ⟨offered, b, committed⟩ l v - ⟨hv, durable, swapped, hmem⟩
  -- from here on the log has it, up to what the validation says
  have hlogged : Pause ep P fun v => Mute (greetedBy ep) v.endpoints.gba ∧
      .trade ⟨.switch, P, durable, .switchResult ⟨offered, b, committed⟩, swapped⟩ ∈ v.world.trace :=
    ⟨fun _ _ hw h => ⟨h.1.trans hw.1, hw.2.subset h.2⟩, fun v h => Pause.greeted.told v h.1⟩
  refine (Leaves.hook _).andThen hlogged ⟨hv, hmem⟩ fun _ l v hv => ?_
  refine ofExcept_andThen (hlogged.told v hv) fun _ hvalid => ?_
  obtain ⟨hP, hcommitted⟩ := validateResult_ok.mp hvalid
  have hP : offered = P := hP
  have hcommitted : committed = true := hcommitted
  subst hP hcommitted
  have hv : Mute (greetedBy ep) v.endpoints.gba ∧ Received offered b v.world := ⟨hv.1, durable, swapped, hv.2⟩
  refine (Leaves.ofExcept _).andThen .received hv fun _ l v hv => ?_
  refine (Leaves.saveArtifact journal _ _).andThen .received hv fun _ l v hv => ?_
  refine (Leaves.transition journal _ _).andThen .received hv fun _ l v hv => ?_
  refine (Leaves.transition journal _ _).andThen .received hv fun _ l v hv => ?_
  refine (Leaves.hook _).andThen .received hv fun _ l v hv => ?_
  exact Method.Sat.pure (Pause.received.told v hv) hv

/-- The second stage offers it, that very record, since the coordinator hands on what the first stage
returned. -/
theorem gbaStage_told (hw : Mute (greetedBy ep) w.endpoints.gba ∧ Received P b w.world) :
    Method.Sat RigStep (Told ep P) (gbaStage journal b) l w (fun _ _ v => Offered ep P b v)
      (fun _ _ v => Told ep P v) := by
  unfold gbaStage
  refine (Leaves.transition journal _ _).andThen .received hw fun _ l v hv => ?_
  refine (Leaves.hook _).andThen .received hv fun _ l v hv => ?_
  -- the trade
  refine Method.Sat.bind (R := fun _ _ v => Offered ep P b v) ?_ fun gbaResult l v _ hv => ?_
  · refine Method.Sat.lift ⟨Pause.received.told v hv, ?_⟩
    rintro answer v' ⟨hworld, hanswer, hm⟩
    have hreceived : Received P b v'.world := by
      obtain ⟨durable, swapped, hmem⟩ := hv.2
      exact ⟨durable, swapped, hworld.trace.subset hmem⟩
    have hgba : v'.endpoints.gba = (v.endpoints.gba.call (GbLinkEndpoint.tradeOnce b)).2 := by rw [hm]
    rcases GbLinkEndpoint.tradeOnce_writes hv.1 b with hw | ⟨hw, e, hraised⟩
    · have hoffered : Offered ep P b v' := ⟨hreceived, by rw [hgba]; exact hw⟩
      refine ⟨.offer b hoffered, ?_⟩
      cases answer with
      | ok r => exact hoffered
      | error e => exact .offer b hoffered
    · have htold : Told ep P v' := by
        refine .greeting ?_
        rw [hgba, hw]
      obtain rfl : answer = .error e := hanswer.trans hraised
      exact ⟨htold, htold⟩
  refine (Leaves.hook _).andThen .offered hv fun _ l v hv => ?_
  refine (Leaves.ofExcept _).andThen .offered hv fun _ l v hv => ?_
  refine (Leaves.ofExcept _).andThen .offered hv fun _ l v hv => ?_
  refine (Leaves.saveArtifact journal _ _).andThen .offered hv fun _ l v hv => ?_
  refine (Leaves.transition journal _ _).andThen .offered hv fun _ l v hv => ?_
  refine (Leaves.transition journal _ _).andThen .offered hv fun _ l v hv => ?_
  refine (Leaves.hook _).andThen .offered hv fun _ l v hv => ?_
  exact Method.Sat.pure (.offer b hv) hv

/-- And the third stage, the return trade, has nothing to say to the adapter. -/
theorem switchStage2_told (a : Pokemon100) (hw : Offered ep P b w) :
    Method.Sat RigStep (Told ep P) (switchStage2 journal P b a) l w
      (fun outcome _ v => Offered ep P outcome.gbaMon v) (fun _ _ v => Told ep P v) := by
  unfold switchStage2
  refine (Leaves.transition journal _ _).andThen .offered hw fun _ l v hv => ?_
  refine (Leaves.hook _).andThen .offered hv fun _ l v hv => ?_
  refine (Leaves.perform _ rfl).andThen .offered hv fun _ l v hv => ?_
  refine (Leaves.perform _ rfl).andThen .offered hv fun second l v hv => ?_
  refine (Leaves.hook _).andThen .offered hv fun _ l v hv => ?_
  refine (Leaves.ofExcept _).andThen .offered hv fun _ l v hv => ?_
  refine (Leaves.saveArtifact journal _ _).andThen .offered hv fun _ l v hv => ?_
  refine (Leaves.transition journal _ _).andThen .offered hv fun _ l v hv => ?_
  refine (Leaves.hook _).andThen .offered hv fun _ l v hv => ?_
  refine (Leaves.ofExcept _).andThen .offered hv fun _ l v hv => ?_
  refine (Leaves.transition journal _ _).andThen .offered hv fun _ l v hv => ?_
  refine Leaves.get.andThen .offered hv fun _ l v hv => ?_
  exact Method.Sat.pure (.offer b hv) hv

/-- The greeting, in the program: what `connect` adds to what was told. -/
theorem connectGba_told (hnew : New ep) (hw : Mute ep w.endpoints.gba) :
    Act.Sat RigStep (Told ep P) (connect .gba) w (fun _ v => Mute (greetedBy ep) v.endpoints.gba)
      (fun _ v => Told ep P v) := by
  refine ⟨(Pause.fresh hnew).told w hw, ?_⟩
  rintro answer v ⟨-, device, -, hanswer, hm⟩
  obtain ⟨hbegins, hall⟩ := GbLinkEndpoint.connect_writes hnew hw
  have hgba : v.endpoints.gba = (w.endpoints.gba.call GbLinkEndpoint.connect).2 := by rw [hm]
  have htold : Told ep P v := .greeting (by rw [hgba]; exact hbegins)
  refine ⟨htold, ?_⟩
  cases answer with
  | error e => exact htold
  | ok u =>
      show Mute (greetedBy ep) v.endpoints.gba
      rw [hgba]
      exact hall u hanswer.symm

theorem body_told (record : JournalRecord) (hnew : New ep) (hw : Mute ep w.endpoints.gba) :
    Method.Sat RigStep (Told ep P) (body journal P) ⟨record, false, false⟩ w
      (fun outcome _ v => Offered ep P outcome.gbaMon v) (fun _ _ v => Told ep P v) := by
  unfold body
  refine (Leaves.perform _ rfl).andThen (.fresh hnew) hw fun _ l v hv => ?_
  refine Method.Sat.bind (R := fun _ _ v => Mute ep v.endpoints.gba)
    (Method.Sat.assign ((Pause.fresh hnew).told v hv) hv) fun _ l v _ hv => ?_
  refine Method.Sat.bind (R := fun _ _ v => Mute (greetedBy ep) v.endpoints.gba)
    (Method.Sat.lift (connectGba_told hnew hv)) fun _ l v _ hv => ?_
  refine Method.Sat.bind (R := fun _ _ v => Mute (greetedBy ep) v.endpoints.gba)
    (Method.Sat.assign (Pause.greeted.told v hv) hv) fun _ l v _ hv => ?_
  refine Method.Sat.bind (switchStage1_told journal hv) fun b l v _ hv => ?_
  refine Method.Sat.bind (gbaStage_told journal hv) fun a l v _ hv => ?_
  exact switchStage2_told journal a hv

/-- `except` writes nothing and makes no outcome: an outcome behind it was there before. -/
theorem handle_told {record : JournalRecord} {ended : Except Exc TransactionOutcome} (hw : Told ep P w)
    (hended : ∀ outcome, ended = .ok outcome → Offered ep P outcome.gbaMon w) :
    Act.Sat RigStep (Told ep P) (handle journal record ended) w
      (fun outcome v => Offered ep P outcome.gbaMon v) (fun _ v => Told ep P v) := by
  cases ended with
  | ok outcome => exact Act.Sat.pure hw (hended outcome rfl)
  | error e =>
      unfold handle
      simp only
      by_cases he : e.isException = true
      · rw [if_pos he]
        refine Act.Sat.bind (Pause.over.sat ?_ hw) fun _ v _ hv => Act.Sat.throw hv hv
        unfold markRecovery
        split
        · exact Act.Avoids.pure _
        · refine Prog.Avoids.bind (journal.transition_avoids sparesJournal_writes _ _ _) ?_
          rintro ⟨written, _⟩
          cases written with
          | ok u => exact trivial
          | error e => exact trivial
      · rw [if_neg he]
        exact Act.Sat.throw hw hw

theorem closeIf_avoids (connected : Bool) (console : Console) :
    (closeIf connected console).Avoids fun op => op.writes = true := by
  unfold closeIf
  cases connected with
  | false => exact Act.Avoids.pure _
  | true =>
      refine Act.Avoids.bind (.attempt (.perform _ Bool.false_ne_true)) ?_
      intro closed
      cases closed with
      | ok u => exact Act.Avoids.pure _
      | error e =>
          show Act.Avoids _ (if e.isException then _ else _)
          split
          · exact Act.Avoids.pure _
          · exact Act.Avoids.throw _

theorem execute_told (hnew : New ep) (hw : Mute ep w.endpoints.gba) :
    Act.Sat RigStep (Told ep P) (execute journal P) w (fun outcome v => Offered ep P outcome.gbaMon v)
      (fun _ v => Told ep P v) := by
  have hquiet : ∀ {α : Type} {x : Broker α} {v : Rig}, x.Avoids (fun op => op.writes = true) →
      Mute ep v.endpoints.gba → Act.Sat RigStep (Told ep P) x v (fun _ v => Mute ep v.endpoints.gba)
        (fun _ v => Told ep P v) :=
    fun h hv => ((Pause.fresh hnew).sat h hv).mono (fun _ hv => hv) (fun _ _ _ hv => hv)
      fun _ v hv _ => hv
  unfold execute
  refine Act.Sat.bind (hquiet (.ofExcept _) hw) fun _ v _ hv => ?_
  refine Act.Sat.bind (hquiet (journal.requireNewTransaction_avoids sparesJournal_writes) hv) fun _ v _ hv => ?_
  refine Act.Sat.bind (hquiet (journal.create_avoids sparesJournal_writes P) hv) fun record v _ hv => ?_
  -- behind the body there is an outcome, or an exception
  have hover : ∀ answer : Except Exc TransactionOutcome,
      Pause ep P fun v => Told ep P v ∧ ∀ outcome, answer = .ok outcome → Offered ep P outcome.gbaMon v := by
    intro answer
    refine ⟨fun w w' hw h => ⟨Pause.over.steadfast w w' hw h.1, fun outcome ho => ?_⟩, fun _ h => h.1⟩
    exact Pause.offered.steadfast w w' hw (h.2 outcome ho)
  refine Act.Sat.bind (R := fun ended v => ∀ outcome, ended.1 = .ok outcome → Offered ep P outcome.gbaMon v)
    (Prog.Sat.bind (body_told journal record hnew hv) ?_) ?_
  · rintro ⟨ended, l⟩ v hI hend
    refine ⟨hI, ?_⟩
    rintro outcome rfl
    exact hend
  rintro ⟨ended, l⟩ v hI hv
  refine Act.Sat.bind (R := fun answer v => ∀ outcome, answer = .ok outcome → Offered ep P outcome.gbaMon v)
    ((Act.Sat.attempt (handle_told journal hI hv)).mono (fun _ hv => hv) ?_ fun _ _ _ htold => htold) ?_
  · rintro answer v - hend outcome rfl
    exact hend
  intro answer v hI hv
  have hend : ∀ {x : Broker Unit} {v : Rig}, x.Avoids (fun op => op.writes = true) →
      (Told ep P v ∧ ∀ outcome, answer = .ok outcome → Offered ep P outcome.gbaMon v) →
      Act.Sat RigStep (Told ep P) x v
        (fun _ v => Told ep P v ∧ ∀ outcome, answer = .ok outcome → Offered ep P outcome.gbaMon v)
        (fun _ v => Told ep P v) :=
    fun h hv => ((hover answer).sat h hv).mono (fun _ hv => hv) (fun _ _ _ hv => hv) fun _ v hv _ => hv
  refine Act.Sat.bind (hend (closeIf_avoids _ _) ⟨hI, hv⟩) fun _ v _ hv => ?_
  refine Act.Sat.bind (hend (closeIf_avoids _ _) hv) fun _ v _ hv => ?_
  refine Act.Sat.ofExcept hv.1 ?_
  cases answer with
  | ok outcome => exact hv.2 outcome rfl
  | error e => exact hv.1

/-- **The conversation with the adapter.**  Stopped wherever it may be, a run with a new endpoint has told the
adapter a beginning of: `HELLO`, `GET_CAPABILITIES`, and one `SET_OFFER_MON`, numbered from one, with a record
that the Switch gave for the placeholder; a run that returns an outcome has told it all, with the record of the
outcome. -/
theorem adapter_is_told (hnew : New ep) {d : Disk} {sw : SwitchTradeSession}
    {q : Prog Op Ret (Except Exc TransactionOutcome)} {v : Rig}
    (h : Prog.Reach RigStep (execute journal P).run ⟨⟨d, []⟩, ⟨ep, sw, []⟩⟩ q v) :
    Told ep P v ∧ ∀ outcome, q = .done (.ok outcome) → Offered ep P outcome.gbaMon v := by
  have hsat := (execute_told journal (P := P) hnew (w := ⟨⟨d, []⟩, ⟨ep, sw, []⟩⟩) (.refl ep)).reach h
  refine ⟨hsat.inv, ?_⟩
  rintro outcome rfl
  exact hsat.2

end TradeCoordinator

/-- A Switch that gives the third record for the first one, and an adapter that falls silent behind the
greeting. -/
def offeredRun : Except Exc TransactionOutcome × Rig :=
  Rig.play ⟨.ok (), .ok (), .ok (), .ok ((sampleMon 0).raw, (sampleMon 2).raw, true), .ok (), .ok ()⟩ (sampleMon 0)
    (sampleEndpoint [.ok capabilitiesFrame])

theorem offeredRun_eval : offeredRun.2.endpoints.gba.transport.written.length = 3 := by
  decide +kernel

/-- The offer is made, of a record that the Switch gave: the rule holds of a run that gets so far. -/
theorem adapter_is_told_offer :
    ∃ b, Offered (sampleEndpoint [.ok capabilitiesFrame]) (sampleMon 0) b offeredRun.2 := by
  have hfinish : Prog.Finish RigStep (TradeCoordinator.execute sampleStore (sampleMon 0)).run
      ⟨⟨emptyDisk, []⟩, ⟨sampleEndpoint [.ok capabilitiesFrame], {}, []⟩⟩ offeredRun.1 offeredRun.2 :=
    Rig.play_finish _ _ _
  obtain ⟨htold, -⟩ := TradeCoordinator.adapter_is_told sampleStore ⟨rfl, rfl⟩ hfinish
  cases htold with
  | offer b h => exact ⟨b, h⟩
  | greeting h =>
      have hshort := h.length_le
      rw [offeredRun_eval] at hshort
      exact absurd hshort (by decide)

end TradeBroker
