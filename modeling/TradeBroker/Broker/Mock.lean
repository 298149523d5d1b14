/-
# TradeBroker.Broker.Mock — the exchange between the two mock endpoints, exactly when.

`broker/gba/mock.py` and `broker/switch/mock.py` are the endpoints of the demo and of the tests: two
small state machines, each with an owned record, its settings and its counters.  Their answers are a
FUNCTION of the calls, so a run of `execute` against them is decided by the settings alone.

The proof does not walk through `execute` again.  `execute` is an errand (`execute_errand_sat`), and
an errand against endpoints that answer by a function is a computation: `errand_run` evaluates it
stage by stage, and what the journal says follows from its answer.  The clock, the transaction id
and the order of the file-system calls stay as open as they are in `Step`.

The settings that matter are collected in `Cooperate`, one clause for each of them; `errand_run` needs all
of them, and `errand_raises` shows that each one alone is enough to stop the exchange with an exception
whose text encodes, so that the journal is closed.  `Mocks.cooperate_init_iff` states the condition in the
arguments of the two constructors, which is how a test would put it.

That such a run exists is part of the theorem: `play` is the run on a file system that works, and it ends.
-/
import Mathlib.Data.Finset.Insert
import TradeBroker.Broker.LastError

namespace TradeBroker

open Lib

/-! ## §1 — the mock endpoints. -/

structure MockGbaEndpoint where
  ownedMon : Pokemon100
  selectedSlot : Int
  commitConfirmed : Bool
  linkClosed : Bool
  disconnect : Bool
  connected : Bool
  trades : Int

namespace MockGbaEndpoint

/-- `MockGbaEndpoint(owned_mon, selected_slot=..., ...)`: the settings of a test, with nothing counted yet. -/
def init (ownedMon : Pokemon100) (selectedSlot : Int := 2) (commitConfirmed : Bool := true)
    (linkClosed : Bool := true) (disconnect : Bool := false) : MockGbaEndpoint where
  ownedMon := ownedMon
  selectedSlot := selectedSlot
  commitConfirmed := commitConfirmed
  linkClosed := linkClosed
  disconnect := disconnect
  connected := false
  trades := 0

def connect (self : MockGbaEndpoint) : Except Exc Unit × MockGbaEndpoint :=
  (.ok (), { self with connected := true })

def tradeOnce (self : MockGbaEndpoint) (offeredMon : Pokemon100) :
    Except Exc GbaTradeResult × MockGbaEndpoint :=
  if self.connected = false then
    (.error ⟨.endpointError, "mock GBA is not connected"⟩, self)
  else if self.disconnect = true then
    (.error ⟨.endpointError, "mock GBA unexpectedly disconnected"⟩, self)
  else
    (.ok ⟨⟨offeredMon, self.ownedMon, self.commitConfirmed⟩, self.selectedSlot, self.linkClosed⟩,
      { self with
        ownedMon := if self.commitConfirmed then offeredMon else self.ownedMon
        trades := self.trades + 1 })

def close (self : MockGbaEndpoint) : Except Exc Unit × MockGbaEndpoint :=
  (.ok (), { self with connected := false })

end MockGbaEndpoint

structure MockSwitchEndpoint where
  ownedMon : Pokemon100
  failOnCall : Option Int
  commitOnCalls : Option (Finset Int)
  connected : Bool
  trades : Int
  sessionConnects : Int

namespace MockSwitchEndpoint

/-- `MockSwitchEndpoint(owned_mon, fail_on_call=..., commit_on_calls=...)`: calls are counted from 1. -/
def init (ownedMon : Pokemon100) (failOnCall : Option Int := none)
    (commitOnCalls : Option (Finset Int) := none) : MockSwitchEndpoint where
  ownedMon := ownedMon
  failOnCall := failOnCall
  commitOnCalls := commitOnCalls
  connected := false
  trades := 0
  sessionConnects := 0

def connect (self : MockSwitchEndpoint) : Except Exc Unit × MockSwitchEndpoint :=
  if self.connected = true then
    (.error ⟨.endpointError, "mock Switch session connected twice"⟩, self)
  else
    (.ok (), { self with connected := true, sessionConnects := self.sessionConnects + 1 })

def waitForTradeMenu (self : MockSwitchEndpoint) : Except Exc Unit × MockSwitchEndpoint :=
  if self.connected = false then
    (.error ⟨.endpointError, "mock Switch is not connected"⟩, self)
  else (.ok (), self)

/-- `self.commit_on_calls is None or call in self.commit_on_calls`: by default every call commits. -/
def committed (self : MockSwitchEndpoint) (call : Int) : Bool :=
  match self.commitOnCalls with
  | none => true
  | some calls => decide (call ∈ calls)

def tradeOnce (self : MockSwitchEndpoint) (offeredMon : Pokemon100) :
    Except Exc TradeResult × MockSwitchEndpoint :=
  if self.connected = false then
    (.error ⟨.endpointError, "mock Switch is not connected"⟩, self)
  else
    let call := self.trades + 1
    if some call = self.failOnCall then
      (.error ⟨.endpointError, "mock Switch disconnected during trade " ++ lit (toString call)⟩, self)
    else
      (.ok ⟨offeredMon, self.ownedMon, self.committed call⟩,
        { self with
          ownedMon := if self.committed call then offeredMon else self.ownedMon
          trades := call })

def close (self : MockSwitchEndpoint) : Except Exc Unit × MockSwitchEndpoint :=
  (.ok (), { self with connected := false })

end MockSwitchEndpoint

/-! ## §2 — a world with mock endpoints. -/

structure Mocks where
  gba : MockGbaEndpoint
  switch : MockSwitchEndpoint

namespace Mocks

/-- What a call answers.  The hook is the default one, which returns. -/
def answer (m : Mocks) : (c : Call) → Reply c × Mocks
  | .connect .gba => (m.gba.connect.1, { m with gba := m.gba.connect.2 })
  | .connect .switch => (m.switch.connect.1, { m with switch := m.switch.connect.2 })
  | .waitForTradeMenu =>
      (m.switch.waitForTradeMenu.1, { m with switch := m.switch.waitForTradeMenu.2 })
  | .switchTrade offered =>
      ((m.switch.tradeOnce offered).1, { m with switch := (m.switch.tradeOnce offered).2 })
  | .gbaTrade offered => ((m.gba.tradeOnce offered).1, { m with gba := (m.gba.tradeOnce offered).2 })
  | .faultHook _ => (.ok (), m)
  | .close .gba => (m.gba.close.1, { m with gba := m.gba.close.2 })
  | .close .switch => (m.switch.close.1, { m with switch := m.switch.close.2 })

/-- What an operation of the broker may answer; one that is no endpoint call leaves the mocks
alone. -/
def Answers (m : Mocks) : (op : Op) → Ret op → Mocks → Prop
  | .connect c, r, m' => (r, m') = m.answer (.connect c)
  | .waitForTradeMenu, r, m' => (r, m') = m.answer .waitForTradeMenu
  | .switchTrade offered, r, m' => (r, m') = m.answer (.switchTrade offered)
  | .gbaTrade offered, r, m' => (r, m') = m.answer (.gbaTrade offered)
  | .faultHook b _, r, m' => (r, m') = m.answer (.faultHook b)
  | .close c, r, m' => (r, m') = m.answer (.close c)
  | _, _, m' => m' = m

end Mocks

/-- The world of the broker, and the mock endpoints in it, which answer its calls. -/
structure MockWorld where
  world : World
  mocks : Mocks

/-- A step of the world in which the endpoints answer as the mocks do, while files and clock stay as open as
they are. -/
def MockStep (w : MockWorld) (op : Op) (r : Ret op) (w' : MockWorld) : Prop :=
  Step w.world op r w'.world ∧ w.mocks.Answers op r w'.mocks

/-- One step adds to the transcript what the mocks answered. -/
theorem MockStep.adds_replies {w w' : MockWorld} {op : Op} {r : Ret op} (h : MockStep w op r w') :
    ∃ xs, replies w'.world.trace = replies w.world.trace ++ xs ∧
      Prog.Truthful Mocks.answer w.mocks xs ∧ w'.mocks = Prog.play Mocks.answer w.mocks xs := by
  obtain ⟨hstep, hans⟩ := h
  -- A call with its event.
  have hcall : ∀ (c : Call) (a : Reply c) (ev : Event), ev.reply? = some ⟨c, a⟩ →
      w'.world = w.world.log ev → (a, w'.mocks) = w.mocks.answer c →
      ∃ xs, replies w'.world.trace = replies w.world.trace ++ xs ∧
        Prog.Truthful Mocks.answer w.mocks xs ∧ w'.mocks = Prog.play Mocks.answer w.mocks xs := by
    intro c a ev hev hw ha
    refine ⟨[⟨c, a⟩], ?_, ⟨congrArg Prod.fst ha, trivial⟩, congrArg Prod.snd ha⟩
    rw [hw, World.log_trace, replies_append]
    simp [replies, hev]
  -- An operation the endpoints do not hear of.
  have hsilent : ∀ evs, replies evs = [] → w'.world.trace = w.world.trace ++ evs →
      w'.mocks = w.mocks →
      ∃ xs, replies w'.world.trace = replies w.world.trace ++ xs ∧
        Prog.Truthful Mocks.answer w.mocks xs ∧ w'.mocks = Prog.play Mocks.answer w.mocks xs := by
    intro evs hevs hw hm
    refine ⟨[], ?_, trivial, hm⟩
    rw [hw, replies_append, hevs]
  cases op with
  | pathExists =>
      rcases hstep with ⟨_, hw⟩ | ⟨_, _, _, hw⟩
      · exact hsilent [] rfl (by rw [hw, List.append_nil]) hans
      · exact hsilent [.ioError] rfl (by rw [hw, World.log_trace]) hans
  | readText =>
      rcases hstep with ⟨_, _, _, hw⟩ | ⟨_, _, _, hw⟩
      · exact hsilent [] rfl (by rw [hw, List.append_nil]) hans
      · exact hsilent [.ioError] rfl (by rw [hw, World.log_trace]) hans
  | file c t =>
      rcases hstep with ⟨_, hw⟩ | ⟨_, _, _, hw⟩
      · exact hsilent [] rfl (by rw [hw, List.append_nil]) hans
      · exact hsilent [.ioError] rfl (by rw [hw, World.log_trace]) hans
  | replace t =>
      rcases hstep with ⟨_, hw⟩ | ⟨_, _, _, hw⟩
      · exact hsilent [.installed t] rfl (by rw [hw, World.install_trace]) hans
      · exact hsilent [.ioError] rfl (by rw [hw, World.log_trace]) hans
  | now => exact hsilent [] rfl (by rw [hstep.2, List.append_nil]) hans
  | uuid4 => exact hsilent [] rfl (by rw [hstep.2, List.append_nil]) hans
  | connect c => exact hcall (.connect c) r _ rfl hstep hans
  | waitForTradeMenu => exact hcall .waitForTradeMenu r _ rfl hstep hans
  | switchTrade offered =>
      obtain ⟨_, hw⟩ := hstep
      refine hcall (.switchTrade offered) r _ ?_ hw hans
      cases r <;> rfl
  | gbaTrade offered =>
      obtain ⟨_, hw⟩ := hstep
      refine hcall (.gbaTrade offered) r _ ?_ hw hans
      cases r <;> rfl
  | close c => exact hcall (.close c) r _ rfl hstep hans
  | faultHook b rec => exact hcall (.faultHook b) r _ rfl hstep hans

section Runs

variable {α : Type} {p q : Prog Op Ret α} {w v : MockWorld}

/-- With the mocks left out, it is a run of the broker. -/
theorem MockStep.forget (h : Prog.Reach MockStep p w q v) : Prog.Reach Step p w.world q v.world :=
  h.map MockWorld.world fun _ _ _ _ hs => hs.1

/-- The transcript is what the mocks `m` answer to its calls, and they are left as these calls leave them; so
their counters are right at every point. -/
structure Transcribed (m : Mocks) (v : MockWorld) : Prop where
  answers : Prog.Truthful Mocks.answer m (replies v.world.trace)
  mocks : v.mocks = Prog.play Mocks.answer m (replies v.world.trace)

/-- **Every run keeps a true transcript**: the replies in the log are those that the mocks gave, in order. -/
theorem MockStep.transcribed {d : Disk} {m : Mocks} (h : Prog.Reach MockStep p ⟨⟨d, []⟩, m⟩ q v) :
    Transcribed m v := by
  have hstart : Transcribed m ⟨⟨d, []⟩, m⟩ := ⟨trivial, rfl⟩
  refine h.inv ?_ hstart
  intro w op r w' hs hw
  obtain ⟨xs, hxs, htrue, hm⟩ := hs.adds_replies
  refine ⟨?_, ?_⟩
  · rw [hxs, Prog.truthful_append, ← hw.mocks]
    exact ⟨hw.answers, htrue⟩
  · rw [hxs, Prog.play_append, ← hw.mocks]
    exact hm

end Runs

/-! ## §3 — the errand against the mocks. -/

namespace Mocks

variable {α β : Type} {m : Mocks}

/-- The errand raises an `Exception` whose text encodes: one that closes the journal and is recorded in it. -/
def Raises (x : Errand α) (m : Mocks) : Prop :=
  ∃ e m', Prog.run answer x.run m = (.error e, m') ∧ e.isException = true ∧ e.encodable = true

theorem Raises.bind {x : Errand α} {f : α → Errand β} (h : Raises x m) : Raises (x >>= f) m := by
  obtain ⟨e, m', hrun, he⟩ := h
  exact ⟨e, m', Act.run_bind_error hrun, he⟩

theorem Raises.after {x : Errand α} {f : α → Errand β} {a : α} {m' : Mocks}
    (h : Prog.run answer x.run m = (.ok a, m')) (hf : Raises (f a) m') : Raises (x >>= f) m := by
  obtain ⟨e, m'', hrun, he⟩ := hf
  exact ⟨e, m'', (Act.run_bind_ok h).trans hrun, he⟩

/-- A stage that leads up to another raises what that one raises. -/
theorem Raises.of_run_eq {x : Errand α} {y : Errand α} {m' : Mocks}
    (h : Prog.run answer x.run m = Prog.run answer y.run m') (hy : Raises y m') : Raises x m := by
  obtain ⟨e, m'', hrun, he⟩ := hy
  exact ⟨e, m'', h.trans hrun, he⟩

/-! ### single calls -/

theorem faultHook_run (b : Boundary) (m : Mocks) :
    Prog.run answer (Errand.faultHook b).run m = (.ok (), m) := rfl

theorem check_run {r : Except Exc Unit} (h : r = .ok ()) (m : Mocks) :
    Prog.run answer (Errand.check r).run m = (.ok (), m) := by
  rw [h]
  rfl

theorem check_raises {r : Except Exc Unit} (hr : r ≠ .ok ())
    (h : ∀ e, r = .error e → e.isException = true ∧ e.encodable = true) :
    Raises (Errand.check r) m := by
  cases r with
  | ok u => exact absurd rfl hr
  | error e => exact ⟨e, m, rfl, h e rfl⟩

theorem waitForTradeMenu_run (h : m.switch.connected = true) :
    Prog.run answer Errand.waitForTradeMenu.run m = (.ok (), m) := by
  have hwait : m.switch.waitForTradeMenu = (.ok (), m.switch) := if_neg (by simp [h])
  show (m.switch.waitForTradeMenu.1, { m with switch := m.switch.waitForTradeMenu.2 }) = _
  rw [hwait]

/-- The Switch does not disconnect during this trade, and it commits; both depend on the number of the call. -/
def SwitchTrades (s : MockSwitchEndpoint) (call : Int) : Prop :=
  s.failOnCall ≠ some call ∧ s.committed call = true

/-- The mocks after a committed trade with the Switch: one call more, and the record changed hands. -/
def afterSwitch (m : Mocks) (offered : Pokemon100) : Mocks :=
  { m with switch := { m.switch with ownedMon := offered, trades := m.switch.trades + 1 } }

/-- The mocks after a committed trade with the GBA: one call more, and the record changed hands. -/
def afterGba (m : Mocks) (offered : Pokemon100) : Mocks :=
  { m with gba := { m.gba with ownedMon := offered, trades := m.gba.trades + 1 } }

theorem switchTradeOnce_run (hc : m.switch.connected = true) (offered : Pokemon100)
    (h : SwitchTrades m.switch (m.switch.trades + 1)) :
    Prog.run answer (Errand.switchTradeOnce offered).run m =
      (.ok ⟨offered, m.switch.ownedMon, true⟩, m.afterSwitch offered) := by
  have htrade : m.switch.tradeOnce offered = (.ok ⟨offered, m.switch.ownedMon, true⟩,
      { m.switch with ownedMon := offered, trades := m.switch.trades + 1 }) := by
    rw [MockSwitchEndpoint.tradeOnce, if_neg (by simp [hc])]
    show (if some (m.switch.trades + 1) = m.switch.failOnCall then _ else _) = _
    rw [if_neg (Ne.symm h.1), h.2]
    rfl
  show ((m.switch.tradeOnce offered).1, { m with switch := (m.switch.tradeOnce offered).2 }) = _
  rw [htrade]
  rfl

/-- Otherwise the check after the trade, or the trade itself, raises. -/
theorem switchTrade_raises (hc : m.switch.connected = true) (offered : Pokemon100) (b : Boundary)
    (name : String) (f : TradeResult → Errand β)
    (h : ¬ SwitchTrades m.switch (m.switch.trades + 1)) :
    Raises (do
      let r ← Errand.switchTradeOnce offered
      Errand.faultHook b
      Errand.check (TradeCoordinator.validateResult r offered name)
      f r) m := by
  have hrun : Prog.run answer (Errand.switchTradeOnce offered).run m =
      ((m.switch.tradeOnce offered).1, { m with switch := (m.switch.tradeOnce offered).2 }) := rfl
  rw [MockSwitchEndpoint.tradeOnce, if_neg (by simp [hc])] at hrun
  by_cases hfail : some (m.switch.trades + 1) = m.switch.failOnCall
  · simp only [if_pos hfail] at hrun
    refine Raises.bind ⟨_, _, hrun, rfl, ?_⟩
    simp [Exc.encodable, ExcType.name]
  · -- It comes back uncommitted, and the check refuses that.
    simp only [if_neg hfail] at hrun
    refine Raises.after hrun (Raises.after (faultHook_run b _) (Raises.bind (check_raises ?_ ?_)))
    · intro hok
      exact h ⟨Ne.symm hfail, (TradeCoordinator.validateResult_ok.mp hok).2⟩
    · intro e he
      exact TradeCoordinator.validateResult_error he

/-- The GBA does not disconnect, confirms with a slot of the party, and closes the link behind the trade. -/
def GbaTrades (g : MockGbaEndpoint) : Prop :=
  g.disconnect = false ∧ g.commitConfirmed = true ∧ (0 ≤ g.selectedSlot ∧ g.selectedSlot ≤ 5) ∧
    g.linkClosed = true

theorem gbaTradeOnce_run (hc : m.gba.connected = true) (offered : Pokemon100)
    (h : GbaTrades m.gba) :
    Prog.run answer (Errand.gbaTradeOnce offered).run m =
      (.ok ⟨⟨offered, m.gba.ownedMon, true⟩, m.gba.selectedSlot, true⟩, m.afterGba offered) := by
  obtain ⟨hstays, hcommit, -, hlink⟩ := h
  have htrade : m.gba.tradeOnce offered =
      (.ok ⟨⟨offered, m.gba.ownedMon, true⟩, m.gba.selectedSlot, true⟩,
        { m.gba with ownedMon := offered, trades := m.gba.trades + 1 }) := by
    simp [MockGbaEndpoint.tradeOnce, hc, hstays, hcommit, hlink]
  show ((m.gba.tradeOnce offered).1, { m with gba := (m.gba.tradeOnce offered).2 }) = _
  rw [htrade]
  rfl

theorem gbaTrade_raises (hc : m.gba.connected = true) (offered : Pokemon100) (b : Boundary)
    (f : GbaTradeResult → Errand β) (h : ¬ GbaTrades m.gba) :
    Raises (do
      let r ← Errand.gbaTradeOnce offered
      Errand.faultHook b
      Errand.check (TradeCoordinator.validateGbaResult r offered)
      f r) m := by
  have hrun : Prog.run answer (Errand.gbaTradeOnce offered).run m =
      ((m.gba.tradeOnce offered).1, { m with gba := (m.gba.tradeOnce offered).2 }) := rfl
  rw [MockGbaEndpoint.tradeOnce, if_neg (by simp [hc])] at hrun
  by_cases hgone : m.gba.disconnect = true
  · rw [if_pos hgone] at hrun
    refine Raises.bind ⟨_, _, hrun, rfl, ?_⟩
    simp [Exc.encodable, ExcType.name]
  · rw [if_neg hgone] at hrun
    refine Raises.after hrun (Raises.after (faultHook_run b _) (Raises.bind (check_raises ?_ ?_)))
    · intro hok
      exact h ⟨by simpa using hgone, (TradeCoordinator.validateGbaResult_ok.mp hok).2⟩
    · intro e he
      exact TradeCoordinator.validateGbaResult_error he

theorem refuseMail_raises {mon : Pokemon100} (h : mon.holdsMail ≠ false) :
    Raises (Errand.check mon.refuseMail) m := by
  refine check_raises ?_ ?_
  · intro hok
    exact h (Pokemon100.refuseMail_ok.mp hok)
  · intro e he
    exact (Pokemon100.refuseMail_error he).2

/-! ### the stages -/

variable {P b a : Pokemon100} {slot : Int}

theorem switchStage2_run (hc : m.switch.connected = true)
    (h : SwitchTrades m.switch (m.switch.trades + 1)) (hP : m.switch.ownedMon = P) :
    Prog.run answer (Errand.switchStage2 P b a slot).run m = (.ok ⟨b, a, slot⟩, m.afterSwitch a) := by
  unfold Errand.switchStage2
  rw [Act.run_bind_ok (faultHook_run _ m), Act.run_bind_ok (waitForTradeMenu_run hc),
    Act.run_bind_ok (switchTradeOnce_run hc a h), Act.run_bind_ok (faultHook_run _ _),
    Act.run_bind_ok (check_run (TradeCoordinator.validateResult_ok.mpr ⟨rfl, rfl⟩) _),
    Act.run_bind_ok (faultHook_run _ _),
    Act.run_bind_ok (check_run (TradeCoordinator.validateReturned_ok.mpr hP) _)]
  rfl

theorem switchStage2_raises (hc : m.switch.connected = true)
    (h : ¬ SwitchTrades m.switch (m.switch.trades + 1)) :
    Raises (Errand.switchStage2 P b a slot) m := by
  unfold Errand.switchStage2
  refine Raises.after (faultHook_run _ m) (Raises.after (waitForTradeMenu_run hc) ?_)
  exact switchTrade_raises hc a _ _ _ h

theorem gbaStage_run (hc : m.gba.connected = true) (h : GbaTrades m.gba)
    (hmail : m.gba.ownedMon.holdsMail = false) :
    Prog.run answer (Errand.gbaStage P b).run m =
      Prog.run answer (Errand.switchStage2 P b m.gba.ownedMon m.gba.selectedSlot).run
        (m.afterGba b) := by
  have hvalid : TradeCoordinator.validateGbaResult
      ⟨⟨b, m.gba.ownedMon, true⟩, m.gba.selectedSlot, true⟩ b = .ok () :=
    TradeCoordinator.validateGbaResult_ok.mpr ⟨rfl, rfl, h.2.2.1, rfl⟩
  unfold Errand.gbaStage
  rw [Act.run_bind_ok (faultHook_run _ m), Act.run_bind_ok (gbaTradeOnce_run hc b h),
    Act.run_bind_ok (faultHook_run _ _), Act.run_bind_ok (check_run hvalid _),
    Act.run_bind_ok (check_run (Pokemon100.refuseMail_ok.mpr hmail) _),
    Act.run_bind_ok (faultHook_run _ _)]

theorem gbaStage_raises (hc : m.gba.connected = true)
    (h : ¬ (GbaTrades m.gba ∧ m.gba.ownedMon.holdsMail = false)) :
    Raises (Errand.gbaStage P b) m := by
  unfold Errand.gbaStage
  refine Raises.after (faultHook_run _ m) ?_
  by_cases hg : GbaTrades m.gba
  · have hvalid : TradeCoordinator.validateGbaResult
        ⟨⟨b, m.gba.ownedMon, true⟩, m.gba.selectedSlot, true⟩ b = .ok () :=
      TradeCoordinator.validateGbaResult_ok.mpr ⟨rfl, rfl, hg.2.2.1, rfl⟩
    refine Raises.after (gbaTradeOnce_run hc b hg) (Raises.after (faultHook_run _ _) ?_)
    refine Raises.after (check_run hvalid _) (Raises.bind (refuseMail_raises ?_))
    intro hmail
    exact h ⟨hg, hmail⟩
  · exact gbaTrade_raises hc b _ _ hg

theorem switchStage1_run (hc : m.switch.connected = true)
    (h : SwitchTrades m.switch (m.switch.trades + 1)) (hmail : m.switch.ownedMon.holdsMail = false) :
    Prog.run answer (Errand.switchStage1 P).run m =
      Prog.run answer (Errand.gbaStage P m.switch.ownedMon).run (m.afterSwitch P) := by
  unfold Errand.switchStage1
  rw [Act.run_bind_ok (faultHook_run _ m), Act.run_bind_ok (waitForTradeMenu_run hc),
    Act.run_bind_ok (switchTradeOnce_run hc P h), Act.run_bind_ok (faultHook_run _ _),
    Act.run_bind_ok (check_run (TradeCoordinator.validateResult_ok.mpr ⟨rfl, rfl⟩) _),
    Act.run_bind_ok (check_run (Pokemon100.refuseMail_ok.mpr hmail) _),
    Act.run_bind_ok (faultHook_run _ _)]

theorem switchStage1_raises (hc : m.switch.connected = true)
    (h : ¬ (SwitchTrades m.switch (m.switch.trades + 1) ∧ m.switch.ownedMon.holdsMail = false)) :
    Raises (Errand.switchStage1 P) m := by
  unfold Errand.switchStage1
  refine Raises.after (faultHook_run _ m) (Raises.after (waitForTradeMenu_run hc) ?_)
  by_cases hs : SwitchTrades m.switch (m.switch.trades + 1)
  · refine Raises.after (switchTradeOnce_run hc P hs) (Raises.after (faultHook_run _ _) ?_)
    refine Raises.after (check_run (TradeCoordinator.validateResult_ok.mpr ⟨rfl, rfl⟩) _)
      (Raises.bind (refuseMail_raises ?_))
    intro hmail
    exact h ⟨hs, hmail⟩
  · exact switchTrade_raises hc P _ _ _ hs

/-! ### the whole errand -/

/-- The settings under which the exchange goes through: two trades of the Switch, one of the GBA, and no mail
in what is traded. -/
structure Cooperate (m : Mocks) (P : Pokemon100) : Prop where
  placeholderFree : P.holdsMail = false
  gbaFree : m.gba.ownedMon.holdsMail = false
  switchFree : m.switch.ownedMon.holdsMail = false
  slot : 0 ≤ m.gba.selectedSlot ∧ m.gba.selectedSlot ≤ 5
  confirms : m.gba.commitConfirmed = true
  closesLink : m.gba.linkClosed = true
  stays : m.gba.disconnect = false
  survives : m.switch.failOnCall ≠ some 1 ∧ m.switch.failOnCall ≠ some 2
  commits : m.switch.committed 1 = true ∧ m.switch.committed 2 = true

/-- Two endpoints that nobody has called, as the constructors leave them. -/
structure Fresh (m : Mocks) : Prop where
  gbaConnected : m.gba.connected = false
  switchConnected : m.switch.connected = false
  switchTrades : m.switch.trades = 0
  sessionConnects : m.switch.sessionConnects = 0

/-- The mocks when the session is open, both of them connected. -/
def opened (m : Mocks) : Mocks :=
  ⟨{ m.gba with connected := true },
    { m.switch with connected := true, sessionConnects := m.switch.sessionConnects + 1 }⟩

theorem errand_opens (h : m.Fresh) :
    Prog.run answer (Errand.errand P).run m =
      Prog.run answer (Errand.switchStage1 P).run m.opened := by
  have hswitch : m.switch.connect =
      (.ok (), { m.switch with connected := true, sessionConnects := m.switch.sessionConnects + 1 }) :=
    if_neg (by simp [h.switchConnected])
  have hrun : Prog.run answer (Errand.connect .switch).run m =
      (.ok (), { m with switch := { m.switch with
        connected := true, sessionConnects := m.switch.sessionConnects + 1 } }) := by
    show (m.switch.connect.1, { m with switch := m.switch.connect.2 }) = _
    rw [hswitch]
  unfold Errand.errand
  rw [Act.run_bind_ok hrun]
  rfl

/-- The errand brings both records home, and leaves the mocks with each other's record. -/
theorem errand_run (hm : m.Fresh) (h : m.Cooperate P) :
    Prog.run answer (Errand.errand P).run m =
      (.ok ⟨m.switch.ownedMon, m.gba.ownedMon, m.gba.selectedSlot⟩,
        ((m.opened.afterSwitch P).afterGba m.switch.ownedMon).afterSwitch m.gba.ownedMon) := by
  have hfirst : SwitchTrades m.opened.switch (m.opened.switch.trades + 1) := by
    show SwitchTrades m.switch (m.switch.trades + 1)
    rw [hm.switchTrades]
    exact ⟨h.survives.1, h.commits.1⟩
  have hgba : GbaTrades m.gba := ⟨h.stays, h.confirms, h.slot, h.closesLink⟩
  have hsecond : SwitchTrades m.switch (m.switch.trades + 1 + 1) := by
    rw [hm.switchTrades]
    exact ⟨h.survives.2, h.commits.2⟩
  rw [errand_opens hm, switchStage1_run rfl hfirst h.switchFree,
    gbaStage_run (m := m.opened.afterSwitch P) rfl hgba h.gbaFree]
  exact switchStage2_run rfl hsecond rfl

/-- One bad setting and it raises, at the first trade that this setting concerns. -/
theorem errand_raises (hm : m.Fresh) (hP : P.holdsMail = false) (h : ¬ m.Cooperate P) :
    Raises (Errand.errand P) m := by
  apply Raises.of_run_eq (errand_opens hm)
  by_cases hfirst : SwitchTrades m.switch (m.switch.trades + 1) ∧ m.switch.ownedMon.holdsMail = false
  swap
  · exact switchStage1_raises rfl hfirst
  apply Raises.of_run_eq (switchStage1_run (m := m.opened) rfl hfirst.1 hfirst.2)
  by_cases hgba : GbaTrades m.gba ∧ m.gba.ownedMon.holdsMail = false
  swap
  · exact gbaStage_raises rfl hgba
  apply Raises.of_run_eq (gbaStage_run (m := m.opened.afterSwitch P) rfl hgba.1 hgba.2)
  -- The only setting left to blame is the second trade with the Switch.
  refine switchStage2_raises rfl ?_
  intro hsecond
  have hsecond : SwitchTrades m.switch (m.switch.trades + 1 + 1) := hsecond
  rw [hm.switchTrades] at hfirst hsecond
  obtain ⟨hstays, hconfirms, hslot, hlink⟩ := hgba.1
  exact h ⟨hP, hgba.2, hfirst.2, hslot, hconfirms, hlink, hstays, ⟨hfirst.1.1, hsecond.1⟩,
    ⟨hfirst.1.2, hsecond.2⟩⟩

end Mocks

/-! ## §4 — a run to the end. -/

/-- The answers of the mocks, as a script for the next call. -/
def Mocks.script (m : Mocks) : Script where
  connect := fun c => (m.answer (.connect c)).1
  waitForTradeMenu := (m.answer .waitForTradeMenu).1
  switchTrade := fun _ offered =>
    ((m.switch.tradeOnce offered).1, m.switch.committed (m.switch.trades + 1))
  gbaTrade := fun offered => ((m.gba.tradeOnce offered).1, m.gba.commitConfirmed)
  close := fun c => (m.answer (.close c)).1
  faultHook := fun b => (m.answer (.faultHook b)).1

/-- The mocks after an operation of the broker. -/
def Mocks.next (m : Mocks) : Op → Mocks
  | .connect c => (m.answer (.connect c)).2
  | .waitForTradeMenu => (m.answer .waitForTradeMenu).2
  | .switchTrade offered => (m.answer (.switchTrade offered)).2
  | .gbaTrade offered => (m.answer (.gbaTrade offered)).2
  | .faultHook b _ => (m.answer (.faultHook b)).2
  | .close c => (m.answer (.close c)).2
  | _ => m

namespace MockWorld

/-- One answer of a world in which every file-system call works. -/
def answer (w : MockWorld) (op : Op) : Ret op × MockWorld :=
  ((w.mocks.script.answer w.world op).1,
    ⟨(w.mocks.script.answer w.world op).2, w.mocks.next op⟩)

theorem answer_step (w : MockWorld) (op : Op) : MockStep w op (w.answer op).1 (w.answer op).2 := by
  refine ⟨w.mocks.script.answer_step w.world op, ?_⟩
  cases op <;> rfl

/-- The run of `execute(P)` in this world. -/
def play (journal : JournalStore) (P : Pokemon100) (w : MockWorld) :
    Except Exc TransactionOutcome × MockWorld :=
  Prog.run answer (TradeCoordinator.execute journal P).run w

theorem play_finish (journal : JournalStore) (P : Pokemon100) (w : MockWorld) :
    Prog.Finish MockStep (TradeCoordinator.execute journal P).run w (w.play journal P).1
      (w.play journal P).2 :=
  Prog.run_finish answer_step _ _

/-- Nothing has failed, and there is a journal to read.  With it every read of the run succeeds. -/
def Sound (w : MockWorld) : Prop := .ioError ∉ w.world.trace ∧ w.world.disk.journal.isSome = true

theorem Sound.step {w : MockWorld} (h : w.Sound) (op : Op) : (w.answer op).2.Sound := by
  obtain ⟨hio, hj⟩ := h
  have hlog : ∀ ev m, ev ≠ .ioError → Sound ⟨w.world.log ev, m⟩ := by
    intro ev m hev
    refine ⟨?_, hj⟩
    rw [World.log_trace, List.mem_append, List.mem_singleton]
    rintro (hm | hm)
    · exact hio hm
    · exact hev hm.symm
  cases op with
  | pathExists => exact ⟨hio, hj⟩
  | readText =>
      obtain ⟨text, htext⟩ := Option.isSome_iff_exists.mp hj
      have hans : w.mocks.script.answer w.world .readText = (.ok text, w.world) := by
        simp only [Script.answer, htext]
      show Sound ⟨(w.mocks.script.answer w.world .readText).2, _⟩
      rw [hans]
      exact ⟨hio, hj⟩
  | file c t => exact ⟨hio, hj⟩
  | replace t =>
      refine ⟨?_, ?_⟩
      · show .ioError ∉ w.world.trace ++ [Event.installed t]
        simpa using hio
      · cases t with
        | journal text => rfl
        | artifact path bytes => exact hj
  | now => exact ⟨hio, hj⟩
  | uuid4 => exact ⟨hio, hj⟩
  | connect c => exact hlog _ _ (by simp)
  | waitForTradeMenu => exact hlog _ _ (by simp)
  | switchTrade offered => exact hlog _ _ (by simp)
  | gbaTrade offered => exact hlog _ _ (by simp)
  | close c => exact hlog _ _ (by simp)
  | faultHook b rec => exact hlog _ _ (by simp)

section Create

variable (journal : JournalStore) {w : MockWorld}

theorem pathExists_run (hj : w.world.disk.journal = none) :
    Prog.run answer pathExists.run w = (.ok false, w) := by
  show ((.ok w.world.disk.journal.isSome : Except Exc Bool), w) = _
  rw [hj]
  rfl

theorem saveArtifact_run (record : JournalRecord) (label : PyStr) (mon : Pokemon100)
    (h : label ∈ JournalStore.artifactLabels) :
    ∃ t, Prog.run answer (journal.saveArtifact record label mon).run w =
      (.ok (), ⟨w.world.install (.artifact t mon.raw), w.mocks⟩) := by
  have hsave : journal.saveArtifact record label mon = _ := if_pos h
  rw [hsave]
  exact ⟨_, rfl⟩

theorem write_run {raw : RawRecord} (h : (Json.obj raw.asJsonDict).encodable = true) :
    Prog.run answer (journal.write raw).run w =
      (.ok (), ⟨w.world.install (.journal (.json (.obj raw.asJsonDict))), w.mocks⟩) := by
  have hwrite : journal.write raw = _ := if_pos h
  rw [hwrite]
  rfl

theorem Sound.keeps {α : Type} (h : w.Sound) (p : Prog Op Ret α) : (Prog.run answer p w).2.Sound := by
  induction p generalizing w with
  | done a => exact h
  | call op k ih => exact ih _ (h.step op)

/-- `create` leaves a journal to read, since every call of the file system works. -/
theorem create_run (P : Pokemon100) (hj : w.world.disk.journal = none)
    (hio : .ioError ∉ w.world.trace) :
    ∃ record w', Prog.run answer (journal.create P).run w = (.ok record, w') ∧ w'.Sound := by
  have hclock : Prog.run answer clock.run w = (.ok Script.now, w) := rfl
  have huuid : Prog.run answer uuid4.run w = (.ok Script.txid, w) := rfl
  obtain ⟨record, hrecord⟩ : ∃ r, r = JournalRecord.fresh Script.txid.str Script.now P := ⟨_, rfl⟩
  have hbooked : Booked P .start record := by
    rw [hrecord]
    exact Booked.fresh Script.txid (encodable_lit _) P
  obtain ⟨t, hsave⟩ := saveArtifact_run (w := w) journal record "P" P (by decide)
  have hwrite := write_run (w := ⟨w.world.install (.artifact t P.raw), w.mocks⟩) journal
    hbooked.texts.encodable_document
  refine ⟨record, ⟨(w.world.install (.artifact t P.raw)).install (.journal (.json record.document)),
    w.mocks⟩, ?_, ?_⟩
  · unfold JournalStore.create
    rw [Act.run_bind_ok (pathExists_run hj), if_neg Bool.false_ne_true, Act.run_bind_ok hclock,
      Act.run_bind_ok huuid, ← hrecord, Act.run_bind_ok hsave, Act.run_bind_ok hwrite]
    rfl
  · refine ⟨?_, rfl⟩
    show .ioError ∉ w.world.trace ++ [Event.installed _] ++ [Event.installed _]
    simpa using hio

/-- In this world no file-system call fails: a journal is read only when it is there, and everything else
succeeds. -/
theorem play_noFault (P : Pokemon100) (hj : w.world.disk.journal = none)
    (hio : .ioError ∉ w.world.trace) : .ioError ∉ (w.play journal P).2.world.trace := by
  unfold play TradeCoordinator.execute
  cases hmail : P.refuseMail with
  | error e => exact hio
  | ok u =>
      have hguard : Prog.run answer journal.requireNewTransaction.run w = (.ok (), w) := by
        unfold JournalStore.requireNewTransaction
        rw [Act.run_bind_ok (pathExists_run hj)]
        rfl
      have hfree : Prog.run answer (ofExcept (.ok u)).run w = (.ok u, w) := rfl
      -- From `create` on there is a journal, so no later read can fail.
      obtain ⟨record, w', hcreate, hsound⟩ := create_run journal P hj hio
      rw [Act.run_bind_ok hfree, Act.run_bind_ok hguard, Act.run_bind_ok hcreate]
      exact (hsound.keeps _).1

end Create

end MockWorld

/-! ## §5 — exactly when. -/

/-- Both endpoints closed. -/
def Mocks.closed (m : Mocks) : Mocks :=
  ⟨{ m.gba with connected := false }, { m.switch with connected := false }⟩

theorem Mocks.play_closes {cs : List Replied} (h : ∀ x ∈ cs, ∃ c, x.op = .close c) (m : Mocks) :
    (Prog.play Mocks.answer m cs).closed = m.closed := by
  induction cs generalizing m with
  | nil => rfl
  | cons x cs ih =>
      obtain ⟨c, hc⟩ := h x List.mem_cons_self
      have hclose : (m.answer x.op).2.closed = m.closed := by
        rw [hc]
        cases c <;> rfl
      exact (ih (fun y hy => h y (List.mem_cons_of_mem _ hy)) _).trans hclose

/-- The errand of a run is the one the mocks answered, so what it came to can be computed. -/
theorem Transcribed.run_eq {m : Mocks} {v : MockWorld} (h : Transcribed m v) {P : Pokemon100}
    {answer : Except Exc Exchange} (hran : Ran P answer v.world.trace) :
    ∃ m', Prog.run Mocks.answer (Errand.errand P).run m = (answer, m') ∧
      v.mocks.closed = m'.closed := by
  obtain ⟨xs, cs, hxs, hcs, hfollows⟩ := hran
  have htrue := h.answers
  rw [hxs, Prog.truthful_append] at htrue
  refine ⟨Prog.play Mocks.answer m xs, hfollows.run_eq Mocks.answer htrue.1, ?_⟩
  rw [h.mocks, hxs, Prog.play_append]
  exact Mocks.play_closes hcs _

/-- The mocks never raise from a close. -/
theorem Transcribed.not_interrupted {m : Mocks} {v : MockWorld} (h : Transcribed m v) :
    ¬ Interrupted v.world.trace := by
  rintro ⟨c, e, hm, _⟩
  have hx : (⟨.close c, .error e⟩ : Replied) ∈ replies v.world.trace :=
    List.mem_filterMap.mpr ⟨_, hm, rfl⟩
  obtain ⟨m', hans⟩ := h.answers.mem Mocks.answer hx
  have hok : (m'.answer (.close c)).1 = .ok () := by
    cases c <;> rfl
  have herr : (.error e : Except Exc Unit) = .ok () := hans.trans hok
  exact absurd herr (by simp)

/-- The records have changed hands, and the journal says so: `COMPLETE`, with both hashes and the slot. -/
structure Swapped (journal : JournalStore) (A B P : Pokemon100) (slot : Int)
    (outcome : TransactionOutcome) (v : MockWorld) : Prop where
  gba : v.mocks.gba.ownedMon = B
  switch : v.mocks.switch.ownedMon = A
  broker : outcome.brokerMon = P
  connects : v.mocks.switch.sessionConnects = 1
  trades : v.mocks.switch.trades = 2
  durable : ∃ text raw, v.world.disk.journal = some text ∧ text.load journal = .ok raw ∧
    raw.state = .complete ∧
    raw.pokemon = .obj [("A", .str A.sha256), ("B", .str B.sha256), ("P", .str P.sha256)] ∧
    raw.locations = .obj [("A", .str "switch"), ("B", .str "gba"), ("P", .str "broker")] ∧
    raw.selectedGbaSlot = .int slot

/-- What a complete journal of the broker loads into: the record itself, with its state. -/
theorem complete_loads (journal : JournalStore) {A B P : Pokemon100} {slot : Int} {r : JournalRecord}
    (hb : Booked P (.gotP B A slot P) r) (hs : r.state = .complete) :
    JournalText.load journal (.json r.document) = .ok r.raw ∧ r.raw.state = .complete ∧
      r.raw.pokemon = .obj [("A", .str A.sha256), ("B", .str B.sha256), ("P", .str P.sha256)] ∧
      r.raw.locations = .obj [("A", .str "switch"), ("B", .str "gba"), ("P", .str "broker")] ∧
      r.raw.selectedGbaSlot = .int slot := by
  refine ⟨load_document journal hb, hs, ?_, ?_, ?_⟩
  · show JournalRecord.rawPokemon r.pokemon = _
    rw [hb.pokemon]
    rfl
  · show JournalRecord.rawLocations r.locations = _
    rw [hb.locations, hs]
    rfl
  · simp only [JournalRecord.raw, hb.slot, Progress.slot?]

section Exchange

variable {journal : JournalStore} {P : Pokemon100} {m : Mocks} {d : Disk} {v : MockWorld}
  {ended : Except Exc TransactionOutcome}

/-- The answer of `execute` is the answer of the errand against these mocks, which is computed and not
assumed. -/
theorem execute_answers (hd : d.journal = none) (hmail : P.holdsMail = false)
    (hf : Prog.Finish MockStep (TradeCoordinator.execute journal P).run ⟨⟨d, []⟩, m⟩ ended v)
    (hio : .ioError ∉ v.world.trace) :
    Ends (fun o w => Succeeded P o w)
      (fun e w => Ran P (.error e) w.trace ∧ LeftBehind P e w.disk.journal) ended v.world := by
  have hends : Ends (Succeeded P) (Raised P) ended v.world :=
    (Act.Sat.finish (TradeCoordinator.execute_errand_sat journal hd hmail)
      (MockStep.forget hf)).2
  cases ended with
  | ok outcome => exact hends
  | error e =>
      rcases hends with hend | hend | hend
      · exact absurd hend hio
      · exact absurd hend (MockStep.transcribed hf).not_interrupted
      · exact hend

/-- Every setting is right: the records change hands, and the journal is complete. -/
theorem execute_swaps (hm : m.Fresh) (hd : d.journal = none) (h : m.Cooperate P)
    (hf : Prog.Finish MockStep (TradeCoordinator.execute journal P).run ⟨⟨d, []⟩, m⟩ ended v)
    (hio : .ioError ∉ v.world.trace) :
    ∃ outcome, ended = .ok outcome ∧
      Swapped journal m.gba.ownedMon m.switch.ownedMon P m.gba.selectedSlot outcome v := by
  have htr := MockStep.transcribed hf
  have hanswer := execute_answers hd h.placeholderFree hf hio
  have hrun := Mocks.errand_run hm h
  cases ended with
  | error e =>
      -- Against these mocks the errand has one answer, and it is not this one.
      obtain ⟨hran, _⟩ := hanswer
      obtain ⟨m', hrun', _⟩ := htr.run_eq hran
      have hsame := congrArg Prod.fst (hrun.symm.trans hrun')
      exact absurd hsame (by simp)
  | ok outcome =>
      obtain ⟨x, r, hran, hb, hs, hj, rfl⟩ := hanswer
      obtain ⟨m', hrun', hclosed⟩ := htr.run_eq hran
      have hsame := hrun.symm.trans hrun'
      obtain rfl : _ = x := Except.ok.inj (congrArg Prod.fst hsame)
      obtain rfl : _ = m' := congrArg Prod.snd hsame
      obtain ⟨hload, hraw⟩ := complete_loads journal hb hs
      -- The closes behind the errand clear `connected` and nothing else.
      refine ⟨_, rfl, ?_, ?_, rfl, ?_, ?_, _, _, hj, hload, hraw⟩
      · exact congrArg (fun c : Mocks => c.gba.ownedMon) hclosed
      · exact congrArg (fun c : Mocks => c.switch.ownedMon) hclosed
      · refine (congrArg (fun c : Mocks => c.switch.sessionConnects) hclosed).trans ?_
        show m.switch.sessionConnects + 1 = 1
        rw [hm.sessionConnects]
        rfl
      · refine (congrArg (fun c : Mocks => c.switch.trades) hclosed).trans ?_
        show m.switch.trades + 1 + 1 = 2
        rw [hm.switchTrades]
        rfl

/-- One setting is wrong: the journal asks for recovery, and `execute` raises. -/
theorem execute_stops (hm : m.Fresh) (hd : d.journal = none) (hmail : P.holdsMail = false)
    (h : ¬ m.Cooperate P)
    (hf : Prog.Finish MockStep (TradeCoordinator.execute journal P).run ⟨⟨d, []⟩, m⟩ ended v)
    (hio : .ioError ∉ v.world.trace) :
    ∃ e, ended = .error e ∧ InRecovery journal v.world.disk := by
  have htr := MockStep.transcribed hf
  have hanswer := execute_answers hd hmail hf hio
  obtain ⟨e, m', hrun, hexc, henc⟩ := Mocks.errand_raises hm hmail h
  cases ended with
  | ok outcome =>
      obtain ⟨x, r, hran, _⟩ := hanswer
      obtain ⟨m'', hrun', _⟩ := htr.run_eq hran
      have hsame := congrArg Prod.fst (hrun.symm.trans hrun')
      exact absurd hsame (by simp)
  | error e' =>
      obtain ⟨hran, hleft⟩ := hanswer
      obtain ⟨m'', hrun', _⟩ := htr.run_eq hran
      obtain rfl : e = e' := Except.error.inj (congrArg Prod.fst (hrun.symm.trans hrun'))
      refine ⟨e, rfl, hleft.inRecovery_iff.mpr ?_⟩
      rw [hexc, henc]
      rfl

/-- A placeholder with mail is refused before anything happens. -/
theorem execute_refuses (hmail : P.holdsMail = true) {w : MockWorld}
    (hf : Prog.Finish MockStep (TradeCoordinator.execute journal P).run w ended v) :
    (∃ e, ended = .error e) ∧ v = w := by
  have hsat : Act.Sat MockStep (fun _ => True) (TradeCoordinator.execute journal P) w
      (fun _ _ => False) (fun _ v => v = w) := by
    unfold TradeCoordinator.execute
    cases hfree : P.refuseMail with
    | ok u =>
        rw [Pokemon100.refuseMail_ok.mp hfree] at hmail
        exact absurd hmail (by simp)
    | error e => exact ⟨trivial, rfl⟩
  have hends := (Act.Sat.finish hsat hf).2
  cases ended with
  | ok outcome => exact hends.elim
  | error e => exact ⟨⟨e, rfl⟩, hends⟩

end Exchange

/-- The two endpoints as they are built, with the settings that a test can choose. -/
def Mocks.init (A B : Pokemon100) (slot : Int) (commitConfirmed linkClosed disconnect : Bool)
    (failOnCall : Option Int) (commitOnCalls : Option (Finset Int)) : Mocks :=
  ⟨.init A slot commitConfirmed linkClosed disconnect, .init B failOnCall commitOnCalls⟩

theorem Mocks.fresh_init (A B : Pokemon100) (slot : Int)
    (commitConfirmed linkClosed disconnect : Bool) (failOnCall : Option Int)
    (commitOnCalls : Option (Finset Int)) :
    (init A B slot commitConfirmed linkClosed disconnect failOnCall commitOnCalls).Fresh :=
  ⟨rfl, rfl, rfl, rfl⟩

theorem MockSwitchEndpoint.committed_iff {s : MockSwitchEndpoint} {call : Int} :
    s.committed call = true ↔ ∀ calls, s.commitOnCalls = some calls → call ∈ calls := by
  unfold committed
  cases s.commitOnCalls with
  | none => simp
  | some calls => simp

/-- The condition, in the settings of the two endpoints. -/
theorem Mocks.cooperate_init_iff (A B P : Pokemon100) (slot : Int)
    (commitConfirmed linkClosed disconnect : Bool) (failOnCall : Option Int)
    (commitOnCalls : Option (Finset Int)) :
    (init A B slot commitConfirmed linkClosed disconnect failOnCall commitOnCalls).Cooperate P ↔
      (P.holdsMail = false ∧ A.holdsMail = false ∧ B.holdsMail = false) ∧
      (0 ≤ slot ∧ slot ≤ 5) ∧
      (commitConfirmed = true ∧ linkClosed = true ∧ disconnect = false) ∧
      (failOnCall ≠ some 1 ∧ failOnCall ≠ some 2) ∧
      (∀ calls, commitOnCalls = some calls → 1 ∈ calls ∧ 2 ∈ calls) := by
  constructor
  · intro h
    refine ⟨⟨h.placeholderFree, h.gbaFree, h.switchFree⟩, h.slot, ⟨h.confirms, h.closesLink, h.stays⟩,
      h.survives, ?_⟩
    intro calls hcalls
    exact ⟨MockSwitchEndpoint.committed_iff.mp h.commits.1 calls hcalls,
      MockSwitchEndpoint.committed_iff.mp h.commits.2 calls hcalls⟩
  · rintro ⟨⟨hP, hA, hB⟩, hslot, ⟨hcommit, hlink, hstays⟩, hsurvives, hcommits⟩
    refine ⟨hP, hA, hB, hslot, hcommit, hlink, hstays, hsurvives, ?_, ?_⟩
    · exact MockSwitchEndpoint.committed_iff.mpr fun calls hcalls => (hcommits calls hcalls).1
    · exact MockSwitchEndpoint.committed_iff.mpr fun calls hcalls => (hcommits calls hcalls).2

/-- **The mock exchange, exactly when.**  With no earlier journal there is a run of `execute` to the
end in which no file-system call fails.  Every such run returns exactly when no record holds mail and
every setting is right, and then the records have changed hands.  Otherwise it raises, and the
journal asks for recovery; a placeholder with mail is refused before a journal is created. -/
theorem mock_exchange_iff (journal : JournalStore) (A B P : Pokemon100) (slot : Int)
    (commitConfirmed linkClosed disconnect : Bool) (failOnCall : Option Int)
    (commitOnCalls : Option (Finset Int)) {d : Disk} (hd : d.journal = none) :
    (∃ ended v, Prog.Finish MockStep (TradeCoordinator.execute journal P).run
        ⟨⟨d, []⟩, .init A B slot commitConfirmed linkClosed disconnect failOnCall commitOnCalls⟩
        ended v ∧ .ioError ∉ v.world.trace) ∧
    ∀ ended v, Prog.Finish MockStep (TradeCoordinator.execute journal P).run
        ⟨⟨d, []⟩, .init A B slot commitConfirmed linkClosed disconnect failOnCall commitOnCalls⟩
        ended v → .ioError ∉ v.world.trace →
      ((∃ outcome, ended = .ok outcome) ↔
        (P.holdsMail = false ∧ A.holdsMail = false ∧ B.holdsMail = false) ∧
        (0 ≤ slot ∧ slot ≤ 5) ∧
        (commitConfirmed = true ∧ linkClosed = true ∧ disconnect = false) ∧
        (failOnCall ≠ some 1 ∧ failOnCall ≠ some 2) ∧
        (∀ calls, commitOnCalls = some calls → 1 ∈ calls ∧ 2 ∈ calls)) ∧
      (∀ outcome, ended = .ok outcome → Swapped journal A B P slot outcome v) ∧
      (∀ e, ended = .error e →
        if P.holdsMail = true then v.world.disk.journal = none
        else InRecovery journal v.world.disk) := by
  have hm := Mocks.fresh_init A B slot commitConfirmed linkClosed disconnect failOnCall commitOnCalls
  refine ⟨⟨_, _, MockWorld.play_finish journal P _, MockWorld.play_noFault journal P hd (by simp)⟩, ?_⟩
  intro ended v hf hio
  have hcond := Mocks.cooperate_init_iff A B P slot commitConfirmed linkClosed disconnect failOnCall
    commitOnCalls
  rw [← hcond]
  by_cases hmail : P.holdsMail = true
  · obtain ⟨⟨e, rfl⟩, rfl⟩ := execute_refuses hmail hf
    refine ⟨?_, by simp, ?_⟩
    · refine iff_of_false (by simp) ?_
      intro h
      rw [h.placeholderFree] at hmail
      exact absurd hmail (by simp)
    · intro _ _
      rw [if_pos hmail]
      exact hd
  · rw [if_neg hmail]
    have hfree : P.holdsMail = false := by simpa using hmail
    by_cases h : (Mocks.init A B slot commitConfirmed linkClosed disconnect failOnCall
        commitOnCalls).Cooperate P
    · obtain ⟨outcome, rfl, hswapped⟩ := execute_swaps hm hd h hf hio
      refine ⟨iff_of_true ⟨outcome, rfl⟩ h, ?_, by simp⟩
      intro outcome' hsame
      rw [← Except.ok.inj hsame]
      exact hswapped
    · obtain ⟨e, rfl, hrec⟩ := execute_stops hm hd hfree h hf hio
      exact ⟨iff_of_false (by simp) h, by simp, fun _ _ => hrec⟩

/-- `test_mock_three_stage_exchange`: the default settings. -/
theorem mock_exchange_iff_defaults :
    ∃ outcome v, Prog.Finish MockStep (TradeCoordinator.execute sampleStore (sampleMon 0)).run
        ⟨⟨emptyDisk, []⟩, Mocks.init (sampleMon 1) (sampleMon 2) 2 true true false none none⟩
        (.ok outcome) v ∧
      Swapped sampleStore (sampleMon 1) (sampleMon 2) (sampleMon 0) 2 outcome v := by
  have hP : (sampleMon 0).holdsMail = false := by decide
  have hA : (sampleMon 1).holdsMail = false := by decide
  have hB : (sampleMon 2).holdsMail = false := by decide
  obtain ⟨⟨ended, v, hf, hio⟩, hall⟩ := mock_exchange_iff sampleStore (sampleMon 1) (sampleMon 2)
    (sampleMon 0) 2 true true false none none (d := emptyDisk) rfl
  obtain ⟨hiff, hswapped, _⟩ := hall ended v hf hio
  have hreturns : ∃ outcome, ended = .ok outcome :=
    hiff.mpr ⟨⟨hP, hA, hB⟩, by decide, ⟨rfl, rfl, rfl⟩, by decide, by simp⟩
  obtain ⟨outcome, rfl⟩ := hreturns
  exact ⟨outcome, v, hf, hswapped outcome rfl⟩

end TradeBroker
