/-
# TradeBroker.Broker.Walk — the walk through `execute`, one specification per statement.

Each statement of the `try` body has one lemma that takes `Running` to `Running`, or to `Stopped`
when it raises, and keeps `Inv` at every crash point in between.  The three stages chain them in
the order of the source, `body_sat` chains the stages, and `execute_sat` adds the guards in front,
`_mark_recovery`, and the closes of the `finally` clause.

A transition never fails its own check here, and never fails to encode: the books are true when it
is called (`Booked`), so the only way it raises is a failing I/O call.

What a raise leaves is said twice, for two kinds of questions.  `Failed` with `Recovered` is the account
on a file system that works: the exception is the one that was raised, and the journal has it.
`Aftermath` is the account on ANY file system: either no journal was ever closed, or the last one that was
installed is the closed one, and in front of it stands what made the body raise (`Blamed`), each journal
of the main line having been written while nothing was wrong (`WhenWritten Balanced`).  The exit status is
read off the second (`Broker.Main`), the recorded exception off the first (`Broker.Safety`).

The lemmas about the stages are long because the stages are: they follow the source statement by
statement, and each statement is one rule.
-/
import TradeBroker.Broker.Invariant

namespace TradeBroker

open Lib

-- Programs are compared by running them: keep the bytes of a record out of that.
attribute [local irreducible] Pokemon100.heldItem

/-! ## §1 — what the checks mean. -/

namespace JournalRecord

theorem check_eq_ok {record : JournalRecord} {s : JournalState} {u : Update}
    (hs : s = .recoveryRequired ∨ record.state.next = some s)
    (ht : record.state.terminal = false)
    (hh : checkHashes record.pokemon ((u.pokemon.map Dict.entries).getD []) = .ok ())
    (hslot : checkSlot u.selectedGbaSlot = .ok ()) : record.check s u = .ok () := by
  have h1 : ¬ (s ≠ .recoveryRequired ∧ record.state.next ≠ some s) := by
    intro hc
    rcases hs with hs | hs
    · exact hc.1 hs
    · exact hc.2 hs
  unfold check
  rw [if_neg h1, if_neg (by rw [ht]; exact Bool.false_ne_true)]
  show (checkHashes _ _ >>= fun _ => checkSlot _) = _
  rw [hh]
  exact hslot

theorem terminal_of_next {s s' : JournalState} (h : s.next = some s') : s.terminal = false := by
  cases s <;> first | rfl | simp [JournalState.next] at h

/-- A transition along the chain that carries only a note passes the check. -/
theorem check_note {record : JournalRecord} {s : JournalState} {note : PyStr}
    (h : record.state.next = some s) : record.check s { note := note } = .ok () :=
  check_eq_ok (Or.inr h) (terminal_of_next h) rfl rfl

end JournalRecord

namespace TradeCoordinator

theorem validateResult_ok {r : TradeResult} {P : Pokemon100} {n : String} :
    validateResult r P n = .ok () ↔ r.offeredMon = P ∧ r.commitConfirmed = true := by
  unfold validateResult
  by_cases h : r.offeredMon = P <;> cases hc : r.commitConfirmed <;> simp [h]

theorem validateResult_error {r : TradeResult} {P : Pokemon100} {name : String} {e : Exc}
    (h : validateResult r P name = .error e) : e.isException = true ∧ e.encodable = true := by
  unfold validateResult at h
  split at h
  · injection h with h
    subst h
    exact ⟨rfl, by simp [Exc.encodable, ExcType.name]⟩
  · split at h
    · injection h with h
      subst h
      exact ⟨rfl, by simp [Exc.encodable, ExcType.name]⟩
    · exact absurd h (by simp)

theorem validateGbaResult_ok {r : GbaTradeResult} {b : Pokemon100} :
    validateGbaResult r b = .ok () ↔ r.offeredMon = b ∧ r.commitConfirmed = true ∧
      (0 ≤ r.selectedSlot ∧ r.selectedSlot ≤ 5) ∧ r.linkClosed = true := by
  unfold validateGbaResult
  cases hv : validateResult r.toTradeResult b "physical GBA" with
  | error e =>
      have hn : ¬ (r.offeredMon = b ∧ r.commitConfirmed = true) := by
        rw [← validateResult_ok (n := "physical GBA"), hv]
        simp
      simp only [reduceCtorEq, false_iff]
      tauto
  | ok u =>
      have ho := validateResult_ok.mp hv
      by_cases hs : 0 ≤ r.selectedSlot ∧ r.selectedSlot ≤ 5 <;> cases hl : r.linkClosed <;>
        simp [ho, hs]

theorem validateGbaResult_error {r : GbaTradeResult} {b : Pokemon100} {e : Exc}
    (h : validateGbaResult r b = .error e) : e.isException = true ∧ e.encodable = true := by
  unfold validateGbaResult at h
  split at h
  · rename_i e' hv
    injection h with h
    subst h
    exact validateResult_error hv
  · split at h
    · injection h with h
      subst h
      exact ⟨rfl, by simp [Exc.encodable, ExcType.name]⟩
    · split at h
      · injection h with h
        subst h
        exact ⟨rfl, by simp [Exc.encodable, ExcType.name]⟩
      · exact absurd h (by simp)

/-- A refused result is no request for recovery: its class is an `EndpointError` or a `CommitNotConfirmed`,
and its text encodes. -/
theorem validateResult_ordinary {r : TradeResult} {P : Pokemon100} {name : String} {e : Exc}
    (h : validateResult r P name = .error e) : e.Ordinary := by
  refine ⟨(validateResult_error h).1, ?_⟩
  unfold validateResult at h
  split at h
  · rw [← Except.error.inj h]
    rfl
  · split at h
    · rw [← Except.error.inj h]
      rfl
    · exact absurd h (by simp)

theorem validateGbaResult_ordinary {r : GbaTradeResult} {b : Pokemon100} {e : Exc}
    (h : validateGbaResult r b = .error e) : e.Ordinary := by
  refine ⟨(validateGbaResult_error h).1, ?_⟩
  unfold validateGbaResult at h
  split at h
  · rename_i e' hv
    rw [← Except.error.inj h]
    exact (validateResult_ordinary hv).unreported
  · split at h
    · rw [← Except.error.inj h]
      rfl
    · split at h
      · rw [← Except.error.inj h]
        rfl
      · exact absurd h (by simp)

theorem validateReturned_ok {returned P : Pokemon100} :
    validateReturned returned P = .ok () ↔ returned = P := by
  unfold validateReturned
  by_cases h : returned = P <;> simp [h]

theorem validateReturned_error {returned P : Pokemon100} {e : Exc}
    (h : validateReturned returned P = .error e) : e.isException = true ∧ e.encodable = true := by
  unfold validateReturned at h
  split at h
  · injection h with h
    subst h
    exact ⟨rfl, by simp [Exc.encodable, ExcType.name]⟩
  · exact absurd h (by simp)

/-- A placeholder that came back wrong is the one refusal that asks for recovery by its class. -/
theorem validateReturned_recovery {returned P : Pokemon100} {e : Exc}
    (h : validateReturned returned P = .error e) : e.isRecoveryRequired = true := by
  unfold validateReturned at h
  split at h
  · rw [← Except.error.inj h]
    rfl
  · exact absurd h (by simp)

end TradeCoordinator

/-! ### the transitions that carry data

Each passes the check of the journal and books the progress that its trade leads to. -/

namespace Booked

variable {P b a : Pokemon100} {slot : Int} {r : JournalRecord} {note : String}

theorem capture_B (h : Booked P .start r) (hs : r.state = .switchStage1Started) (b : Pokemon100) :
    let u : Update :=
      { note := note
        pokemon := some (.ofList [("B", some b.sha256)])
        locations := some (.ofList [("B", "broker"), ("P", "switch")]) }
    r.check .switchBCaptured u = .ok () ∧
      ∀ now, encodable now = true → Booked P (.gotB b) (r.advance .switchBCaptured now u) := by
  have hnext : r.state.next = some .switchBCaptured := by
    rw [hs]
    rfl
  refine ⟨JournalRecord.check_eq_ok (Or.inr hnext) (JournalRecord.terminal_of_next hnext) ?_ rfl, ?_⟩
  · rw [h.pokemon]
    rfl
  · intro now hnow
    refine h.advance hnext (by simp [Progress.states]) hnow (encodable_lit _) rfl ?_ ?_ h.slot
      (by simp)
    · show r.pokemon.update _ = _
      rw [h.pokemon]
      rfl
    · show r.locations.update _ = _
      rw [h.locations, hs]
      rfl

theorem capture_A (h : Booked P (.gotB b) r) (hs : r.state = .gbaStageStarted) (a : Pokemon100)
    (hslot : 0 ≤ slot ∧ slot ≤ 5) :
    let u : Update :=
      { note := note
        pokemon := some (.ofList [("A", some a.sha256)])
        locations := some (.ofList [("A", "broker"), ("B", "gba")])
        selectedGbaSlot := some slot }
    r.check .gbaACaptured u = .ok () ∧
      ∀ now, encodable now = true → Booked P (.gotA b a slot) (r.advance .gbaACaptured now u) := by
  have hnext : r.state.next = some .gbaACaptured := by
    rw [hs]
    rfl
  refine ⟨JournalRecord.check_eq_ok (Or.inr hnext) (JournalRecord.terminal_of_next hnext) ?_ ?_, ?_⟩
  · rw [h.pokemon]
    rfl
  · show (if 0 ≤ slot ∧ slot ≤ 5 then _ else _) = _
    rw [if_pos hslot]
  · intro now hnow
    refine h.advance hnext (by simp [Progress.states]) hnow (encodable_lit _) rfl ?_ ?_ rfl (by simp)
    · show r.pokemon.update _ = _
      rw [h.pokemon]
      rfl
    · show r.locations.update _ = _
      rw [h.locations, hs]
      rfl

theorem commit_A (h : Booked P (.gotA b a slot) r) (hs : r.state = .switchStage2Started)
    (returned : Pokemon100) :
    let u : Update :=
      { note := note
        locations := some (.ofList
          [("A", "switch"), ("P", "broker (unverified candidate)"), ("B", "gba")]) }
    r.check .aCommittedToSwitch u = .ok () ∧
      ∀ now, encodable now = true →
        Booked P (.gotP b a slot returned) (r.advance .aCommittedToSwitch now u) := by
  have hnext : r.state.next = some .aCommittedToSwitch := by
    rw [hs]
    rfl
  refine ⟨JournalRecord.check_eq_ok (Or.inr hnext) (JournalRecord.terminal_of_next hnext) rfl rfl, ?_⟩
  intro now hnow
  refine h.advance hnext (by simp [Progress.states]) hnow (encodable_lit _) rfl h.pokemon ?_ h.slot
    (by simp)
  show r.locations.update _ = _
  rw [h.locations, hs]
  rfl

/-- Only the original placeholder completes the exchange: the books of the last state name it as the record
that came back. -/
theorem complete (h : Booked P (.gotP b a slot P) r) (hs : r.state = .aCommittedToSwitch) :
    let u : Update := { note := note, locations := some (.ofList [("P", "broker")]) }
    r.check .complete u = .ok () ∧
      ∀ now, encodable now = true → Booked P (.gotP b a slot P) (r.advance .complete now u) := by
  have hnext : r.state.next = some .complete := by
    rw [hs]
    rfl
  refine ⟨JournalRecord.check_eq_ok (Or.inr hnext) (JournalRecord.terminal_of_next hnext) rfl rfl, ?_⟩
  intro now hnow
  refine h.advance hnext (by simp [Progress.states]) hnow (encodable_lit _) rfl h.pokemon ?_ h.slot
    (fun _ => ⟨b, a, slot, rfl⟩)
  show r.locations.update _ = _
  rw [h.locations, hs]
  rfl

end Booked

/-! ## §2 — one lemma per statement. -/

section Statements

variable {a0 : ArtifactPath → Option Bytes} {P : Pokemon100} {g ga g' : Progress}
  {pend : List Trade} {l : Locals} {w : World}

/-- The answer of a call that only logs one event: on return the main line goes on, on a raise the body stops
with that exception. -/
theorem Running.answered (h : Running a0 P g pend ga l w) (hs : l.record.state ≠ .complete)
    {f : Except Exc Unit → Event} (ht : ∀ a, (f a).trade? = none)
    (hf : (f (.ok ())).isFile = false) (hok : (f (.ok ())).raised? = none)
    (herr : ∀ e, (f (.error e)).raised? = some e)
    (hp : ∀ e, ∀ t ∈ pend, HookRaised t (w.log (f (.error e))).trace)
    (answer : Except Exc Unit) :
    Open a0 P (w.log (f answer)) ∧
      Ends (fun _ v => Running a0 P g pend ga l v) (fun e v => Stopped a0 P e l v) answer
        (w.log (f answer)) := by
  refine ⟨h.isOpen.log (ht answer), ?_⟩
  cases answer with
  | ok u => exact h.log (ht _) hok hf
  | error e => exact h.raise hs (ht _) (herr e) (hp e)

namespace TradeCoordinator

theorem connect_sat (h : Running a0 P g [] g l w) (hs : l.record.state ≠ .complete)
    (console : Console) :
    Method.Sat Step (Open a0 P) (Method.lift (connect console)) l w
      (fun _ l' v => l' = l ∧ Running a0 P g [] g l v) (Stopped a0 P) := by
  refine Method.Sat.lift ⟨h.isOpen, ?_⟩
  intro answer v hv
  obtain rfl : v = w.log (.connect console answer) := hv
  obtain ⟨hinv, hend⟩ := h.answered hs (f := fun a => .connect console a) (fun _ => rfl) rfl rfl
    (fun _ => rfl) (fun _ t ht => absurd ht (by simp)) answer
  refine ⟨hinv, ?_⟩
  cases answer with
  | ok u => exact ⟨rfl, hend⟩
  | error e => exact hend

theorem waitForTradeMenu_sat (h : Running a0 P g [] g l w) (hs : l.record.state ≠ .complete) :
    Method.Sat Step (Open a0 P) (Method.lift waitForTradeMenu) l w
      (fun _ l' v => l' = l ∧ Running a0 P g [] g l v) (Stopped a0 P) := by
  refine Method.Sat.lift ⟨h.isOpen, ?_⟩
  intro answer v hv
  obtain rfl : v = w.log (.waitForTradeMenu answer) := hv
  obtain ⟨hinv, hend⟩ := h.answered hs (f := fun a => .waitForTradeMenu a) (fun _ => rfl) rfl rfl
    (fun _ => rfl) (fun _ t ht => absurd ht (by simp)) answer
  refine ⟨hinv, ?_⟩
  cases answer with
  | ok u => exact ⟨rfl, hend⟩
  | error e => exact hend

/-- A hook with a trade pending is one of the three in front of a write, and it is called directly
behind the `trade_once` whose result it delays. -/
theorem hook_sat (h : Running a0 P g pend ga l w) (hs : l.record.state ≠ .complete) (b : Boundary)
    (hb : pend = [] ∨ b.beforePersist = true ∧ ∀ t ∈ pend, [.trade t] <:+ w.trace) :
    Method.Sat Step (Open a0 P) (hook b) l w
      (fun _ l' v => l' = l ∧ Running a0 P g pend ga l v) (Stopped a0 P) := by
  refine Method.Sat.lift (x := faultHook b l.record) ⟨h.isOpen, ?_⟩
  intro answer v hv
  obtain rfl : v = w.log (.faultHook b answer) := hv
  have hp : ∀ e, ∀ t ∈ pend, HookRaised t (w.log (.faultHook b (.error e))).trace := by
    intro e t ht
    rcases hb with rfl | ⟨hb, hlast⟩
    · exact absurd ht (by simp)
    · obtain ⟨tr, htr⟩ := hlast t ht
      refine ⟨b, e, hb, tr, [], ?_⟩
      rw [World.log_trace, ← htr]
      simp
  obtain ⟨hinv, hend⟩ := h.answered hs (f := fun a => .faultHook b a) (fun _ => rfl) rfl rfl
    (fun _ => rfl) hp answer
  refine ⟨hinv, ?_⟩
  cases answer with
  | ok u => exact ⟨rfl, hend⟩
  | error e => exact hend

/-- A check: what it raises is a refusal, of the pending trade or of the placeholder, and nothing was written
in between. -/
theorem ofExcept_sat (h : Running a0 P g pend g l w) (hs : l.record.state ≠ .complete)
    {r : Except Exc Unit} (href : ∀ e, r = .error e → Refusal P g pend e) :
    Method.Sat Step (Open a0 P) (Method.lift (ofExcept r)) l w
      (fun _ l' v => l' = l ∧ v = w ∧ r = .ok ()) (Stopped a0 P) := by
  refine Method.Sat.lift ⟨h.isOpen, ?_⟩
  cases r with
  | ok u => exact ⟨rfl, rfl, rfl⟩
  | error e => exact h.stop hs (href e rfl)

end TradeCoordinator

/-! ### the trades -/

/-- The trade that a progress requests, as it enters the trace: the journal that announces it is durable at
that moment. -/
theorem Running.trade (h : Running a0 P g [] g l w) {q : Request} (hq : g.request P = some q)
    (hs : l.record.state = q.state) {t : Trade} (hc : t.console = q.console)
    (ho : t.offered = q.offered) (hd : t.durable = w.disk.journal) :
    Requested P g t ∧ Position a0 P g [t] g l.record (w.log (.trade t)) := by
  have hreq : Requested P g t :=
    ⟨q, l.record, hq, hc, ho, h.position.booked, hs, hd.trans h.journal⟩
  refine ⟨hreq, h.position.booked, ?_, ?_, h.position.shelf_eq, Or.inl rfl⟩
  · obtain ⟨ts, hts, hacc⟩ := h.position.accounts
    refine ⟨ts, ?_, hacc⟩
    rw [World.log_trace, trades_append, hts]
    simp [trades, Event.trade?]
  · refine Or.inr ⟨t, rfl, hreq, ?_⟩
    rw [hq, hs]
    rfl

/-- A trade that came back with a result. -/
theorem Running.traded (h : Running a0 P g [] g l w) {q : Request} (hq : g.request P = some q)
    (hs : l.record.state = q.state) {t : Trade} (hc : t.console = q.console)
    (ho : t.offered = q.offered) (hd : t.durable = w.disk.journal)
    (hr : (Event.trade t).raised? = none) : Running a0 P g [t] g l (w.log (.trade t)) where
  position := (h.trade hq hs hc ho hd).2
  journal := h.journal
  reached := by
    rw [World.log_trace, statesWritten_append, h.reached]
    simp [statesWritten, Event.stateWritten?]
  noFault := by
    intro hm
    rcases List.mem_append.mp hm with hm | hm
    · exact h.noFault hm
    · exact absurd hm (by simp)
  noRaise := by
    rw [World.log_trace, raised_append, h.noRaise]
    simp [raised, hr]
  written := h.written.append (by simp)

/-- A trade that raised: whether the console swapped is not known, and the trade stays pending for good. -/
theorem Running.tradeRaised (h : Running a0 P g [] g l w) {q : Request} (hq : g.request P = some q)
    (hs : l.record.state = q.state) {t : Trade} (hc : t.console = q.console)
    (ho : t.offered = q.offered) (hd : t.durable = w.disk.journal) {e : Exc}
    (hr : t.outcome = .raised e) : Stopped a0 P e l (w.log (.trade t)) := by
  have hraised : (Event.trade t).raised? = some e := by
    obtain ⟨c, o, d, out, sw⟩ := t
    obtain rfl : out = .raised e := hr
    rfl
  have hpos := (h.trade hq hs hc ho hd).2
  refine ⟨⟨g, [t], g, l.record, hpos, Or.inl h.journal⟩, ⟨g, [t], g, hpos, ?_⟩, ?_, ?_,
    h.written.append (by simp), h.filled, ?_⟩
  · intro _ _ t' ht'
    obtain rfl : t' = t := by simpa using ht'
    refine Or.inl ?_
    rw [hr]
    cases g <;> rfl
  · intro e' he'
    rw [World.log_trace, raised_append, h.noRaise] at he'
    simpa [raised, hraised] using he'
  · refine hpos.blamed (.call ?_ ?_ ?_)
    · intro hm
      rcases List.mem_append.mp hm with hm | hm
      · exact h.noFault hm
      · exact absurd hm (by simp)
    · rw [World.log_trace, raised_append]
      simp [raised, hraised]
    · intro t' ht'
      obtain rfl : t' = t := by simpa using ht'
      exact Or.inl hr
  · intro _
    refine ⟨h.journal, ?_, ?_⟩
    · rw [World.log_trace, statesWritten_append, h.reached]
      simp [statesWritten, Event.stateWritten?]
    · rw [hs]
      cases g <;> simp only [Progress.request, Option.some.injEq, reduceCtorEq] at hq <;>
        subst hq <;> simp

namespace TradeCoordinator

theorem switchTradeOnce_sat (h : Running a0 P g [] g l w) {offered : Pokemon100} {s : JournalState}
    (hq : g.request P = some ⟨.switch, offered, s⟩) (hs : l.record.state = s) :
    Method.Sat Step (Open a0 P) (Method.lift (switchTradeOnce offered)) l w
      (fun r l' v => l' = l ∧ ∃ t, t.outcome = .switchResult r ∧ [.trade t] <:+ v.trace ∧
        Running a0 P g [t] g l v)
      (Stopped a0 P) := by
  refine Method.Sat.lift ⟨h.isOpen, ?_⟩
  intro answer v hv
  obtain ⟨swapped, rfl⟩ := hv
  cases answer with
  | ok r =>
      have hrun := h.traded hq hs (t := ⟨.switch, offered, w.disk.journal, .switchResult r, swapped⟩)
        rfl rfl rfl rfl
      exact ⟨hrun.isOpen, rfl, _, rfl, List.suffix_append _ _, hrun⟩
  | error e =>
      have hstop := h.tradeRaised hq hs
        (t := ⟨.switch, offered, w.disk.journal, .raised e, swapped⟩) rfl rfl rfl rfl
      exact ⟨hstop.isOpen, hstop⟩

theorem gbaTradeOnce_sat (h : Running a0 P g [] g l w) {offered : Pokemon100} {s : JournalState}
    (hq : g.request P = some ⟨.gba, offered, s⟩) (hs : l.record.state = s) :
    Method.Sat Step (Open a0 P) (Method.lift (gbaTradeOnce offered)) l w
      (fun r l' v => l' = l ∧ ∃ t, t.outcome = .gbaResult r ∧ [.trade t] <:+ v.trace ∧
        Running a0 P g [t] g l v)
      (Stopped a0 P) := by
  refine Method.Sat.lift ⟨h.isOpen, ?_⟩
  intro answer v hv
  obtain ⟨swapped, rfl⟩ := hv
  cases answer with
  | ok r =>
      have hrun := h.traded hq hs (t := ⟨.gba, offered, w.disk.journal, .gbaResult r, swapped⟩)
        rfl rfl rfl rfl
      exact ⟨hrun.isOpen, rfl, _, rfl, List.suffix_append _ _, hrun⟩
  | error e =>
      have hstop := h.tradeRaised hq hs
        (t := ⟨.gba, offered, w.disk.journal, .raised e, swapped⟩) rfl rfl rfl rfl
      exact ⟨hstop.isOpen, hstop⟩

end TradeCoordinator

/-! ### the writes -/

theorem shelf_append {a0 : ArtifactPath → Option Bytes} {tx label : PyStr} {mon : Pokemon100}
    (h : g'.records P = g.records P ++ [(label, mon)]) :
    shelf a0 tx P g' =
      Function.update (shelf a0 tx P g) ⟨tx, label, mon.sha256⟩ (some mon.raw) := by
  unfold shelf
  rw [h, List.foldl_append]
  rfl

/-- The record of a settled trade, saved before the journal mentions it; the artifacts are now one record
ahead. -/
theorem Running.saved (h : Running a0 P g pend g l w) {t : Trade} (hp : pend = [t])
    (hset : g.settle P t.outcome = some g') {label : PyStr} {mon : Pokemon100}
    (hrec : g'.records P = g.records P ++ [(label, mon)]) :
    Running a0 P g pend g' l
      (w.install (.artifact (JournalStore.artifactOf l.record label mon) mon.raw)) where
  position :=
    { booked := h.position.booked
      accounts := by
        have ht : trades (w.install (.artifact (JournalStore.artifactOf l.record label mon)
            mon.raw)).trace = trades w.trace := by
          simp [trades, Event.trade?]
        rw [ht]
        exact h.position.accounts
      pending := h.position.pending
      shelf_eq := by
        show Function.update w.disk.artifacts _ _ = _
        rw [h.position.shelf_eq, shelf_append hrec]
        rfl
      shelved := Or.inr ⟨t, hp, hset⟩ }
  journal := h.journal
  reached := by
    rw [World.install_trace, statesWritten_append, h.reached]
    simp [statesWritten, Event.stateWritten?]
  noFault := by
    intro hm
    rcases List.mem_append.mp hm with hm | hm
    · exact h.noFault hm
    · exact absurd hm (by simp)
  noRaise := by
    rw [World.install_trace, raised_append, h.noRaise]
    simp [raised, Event.raised?]
  written := h.written.append (by simp)

/-- A write failed: an I/O error is in the trace, and memory still has its position, which the disk may not
have. -/
theorem Stopped.ofFault {r : JournalRecord} {v : World} {e : Exc} {n : Nat} (hl : l.record = r)
    (hpos : Position a0 P g pend ga r v) (hinv : Open a0 P v) (hraised : raised v.trace = [])
    (hwritten : WhenWritten (Balanced P) v.trace) (hfilled : Filled P v) (he : e.Ordinary)
    (hn : 0 < n) : Stopped a0 P e l (v.faults n) := by
  have hio := ioError_mem_faults v hn
  have hfaults : ∀ text, .installed (.journal text) ∉ List.replicate n Event.ioError := by
    intro text hm
    exact absurd (List.eq_of_mem_replicate hm) (by simp)
  subst hl
  refine ⟨hinv.faults n, ⟨g, pend, ga, hpos.faults n, fun hc => absurd hio hc⟩, ?_,
    (hpos.faults n).blamed (.write hio he), hwritten.append hfaults, hfilled,
    fun hc => absurd hio hc⟩
  intro e' he'
  rw [raised_faults, hraised] at he'
  exact absurd he' (by simp)

namespace TradeCoordinator

variable (journal : JournalStore)

theorem saveArtifact_sat {t : Trade} (h : Running a0 P g [t] g l w)
    (hset : g.settle P t.outcome = some g') {label : PyStr} {mon : Pokemon100}
    (hl : label ∈ JournalStore.artifactLabels)
    (hrec : g'.records P = g.records P ++ [(label, mon)]) :
    Method.Sat Step (Open a0 P) (saveArtifact journal label mon) l w
      (fun _ l' v => l' = l ∧ Running a0 P g [t] g' l v) (Stopped a0 P) := by
  have hsaved := h.saved rfl hset hrec
  refine Method.Sat.lift (x := journal.saveArtifact l.record label mon) ?_
  refine (JournalStore.saveArtifact_sat journal hl h.isOpen.faults hsaved.isOpen.faults).mono
    (fun _ hv => hv) ?_ ?_
  · intro _ v _ hv
    subst hv
    exact ⟨rfl, hsaved⟩
  · intro e v _ hv
    obtain ⟨he, n, hn, rfl | rfl⟩ := hv
    · exact Stopped.ofFault rfl h.position h.isOpen h.noRaise h.written h.filled he hn
    · exact Stopped.ofFault rfl hsaved.position hsaved.isOpen hsaved.noRaise hsaved.written
        hsaved.filled he hn

/-- **A transition of the walk.**  The check passes and the new record is booked at `g'`; then the
journal moves to it, or an I/O call fails with memory already there. -/
theorem transition_sat (g' : Progress) (h : Running a0 P g pend ga l w) {s : JournalState}
    {u : Update}
    (hc : l.record.check s u = .ok ())
    (hpos : ∀ now, encodable now = true → Position a0 P g' [] g' (l.record.advance s now u) w) :
    Method.Sat Step (Open a0 P) (transition journal s u) l w
      (fun _ l' v => (∃ now, l' = { l with record := l.record.advance s now u }) ∧
        Running a0 P g' [] g' l' v) (Stopped a0 P) := by
  have hdoc : ∀ now, encodable now = true →
      Open a0 P (w.install (.journal (.json (l.record.advance s now u).document))) := by
    intro now hnow
    exact ⟨g', [], g', _, (hpos now hnow).installJournal _, Or.inl rfl⟩
  refine Prog.Sat.bind (JournalStore.transition_sat journal hc h.isOpen.faults
    fun now hnow => (hdoc now hnow).faults) ?_
  intro ended v hv hend
  obtain ⟨written, r'⟩ := ended
  obtain ⟨now, hnow, rfl, hend⟩ := hend
  have hnew := hpos now hnow
  have hinstalled := hnew.installJournal (.json (l.record.advance s now u).document)
  have hraised : raised (w.install (.journal (.json (l.record.advance s now u).document))).trace
      = [] := by
    rw [World.install_trace, raised_append, h.noRaise]
    simp [raised, Event.raised?]
  -- The journal is only asked to move on when the trades are accounted for.
  have hwritten : WhenWritten (Balanced P)
      (w.install (.journal (.json (l.record.advance s now u).document))).trace :=
    h.written.install ⟨h.noFault, h.noRaise, hnew.settled⟩ _
  refine ⟨hv, ?_⟩
  cases written with
  | ok u' =>
      obtain ⟨_, rfl⟩ := hend
      refine ⟨⟨now, rfl⟩, hinstalled, rfl, ?_, ?_, hraised, hwritten⟩
      · rw [World.install_trace, statesWritten_append, h.reached]
        show _ ++ List.filterMap Event.stateWritten? [_] = _
        rw [List.filterMap_cons, stateWritten?_document]
        show _ = (l.record.history ++ [_]).map HistoryEntry.state
        rw [List.map_append]
        rfl
      · intro hm
        rcases List.mem_append.mp hm with hm | hm
        · exact h.noFault hm
        · exact absurd hm (by simp)
  | error e =>
      rcases hend with ⟨_, henc, _⟩ | ⟨he, n, hn, rfl | rfl⟩
      · have htexts := hnew.booked.texts.encodable_document
        rw [JournalRecord.document, htexts] at henc
        exact absurd henc (by simp)
      · exact Stopped.ofFault rfl hnew h.isOpen h.noRaise h.written h.filled he hn
      · exact Stopped.ofFault rfl hinstalled (hdoc now hnow) hraised hwritten
          ⟨g', _, hnew.booked, rfl⟩ he hn

end TradeCoordinator

/-- A step along the chain inside one progress, with nothing pending, so that only the state and the note
change. -/
theorem Running.step (h : Running a0 P g [] g l w) {s : JournalState} {now note : PyStr}
    (hnow : encodable now = true) (hnote : encodable note = true)
    (hnext : l.record.state.next = some s) (hspan : s ∈ g.states)
    (hl : l.record.state.locations = s.locations) (hs : s ≠ .complete) :
    Position a0 P g [] g (l.record.advance s now { note := note }) w where
  booked := h.position.booked.advance_note hnext hspan hnow hnote hl hs
  accounts := h.position.accounts
  pending := Or.inl rfl
  shelf_eq := h.position.shelf_eq
  shelved := Or.inl rfl

/-- The step that settles the pending trade: journal, artifacts and trades are level again. -/
theorem Running.settled {t : Trade} (h : Running a0 P g [t] g' l w)
    (hset : g.settle P t.outcome = some g') {r : JournalRecord} (hb : Booked P g' r)
    (htx : r.transactionId = l.record.transactionId) : Position a0 P g' [] g' r w where
  booked := hb
  accounts := by
    obtain ⟨ts, hts, hacc⟩ := h.position.accounts
    rcases h.position.pending with hp | ⟨t', hp, hreq, _⟩
    · exact absurd hp (by simp)
    · obtain rfl : t = t' := by simpa using hp
      exact ⟨ts ++ [t], by rw [hts, List.append_nil], hacc.settle hreq hset⟩
  pending := Or.inl rfl
  shelf_eq := by
    rw [h.position.shelf_eq, htx]
  shelved := Or.inl rfl

end Statements

/-! ## §3 — the stages. -/

namespace TradeCoordinator

variable (journal : JournalStore) {a0 : ArtifactPath → Option Bytes} {P : Pokemon100} {l : Locals}
  {w : World}

/-- A transition inside one progress, with its note only. -/
theorem transition_note_sat {g : Progress} (h : Running a0 P g [] g l w) {s s' : JournalState}
    {note : String} (hs : l.record.state = s) (hnext : s.next = some s') (hspan : s' ∈ g.states)
    (hl : s.locations = s'.locations) (hne : s' ≠ .complete) :
    Method.Sat Step (Open a0 P) (transition journal s' { note := note }) l w
      (fun _ l' v => l'.record.state = s' ∧ Running a0 P g [] g l' v) (Stopped a0 P) := by
  subst hs
  refine (transition_sat journal g h (JournalRecord.check_note hnext) ?_).mono (fun _ hv => hv) ?_
    (fun _ _ _ _ he => he)
  · intro now hnow
    exact h.step hnow (encodable_lit note) hnext hspan hl hne
  · intro _ l' v _ hl'
    obtain ⟨⟨now, rfl⟩, hrun⟩ := hl'
    exact ⟨rfl, hrun⟩

theorem switchStage1_sat (h : Running a0 P .start [] .start l w) (hs : l.record.state = .idle) :
    Method.Sat Step (Open a0 P) (switchStage1 journal P) l w
      (fun b l' v => l'.record.state = .placeholderOnSwitch ∧
        Running a0 P (.gotB b) [] (.gotB b) l' v) (Stopped a0 P) := by
  unfold switchStage1
  refine Method.Sat.bind (transition_note_sat journal h hs rfl (by decide) rfl (by decide)) ?_
  intro _ l1 w1 _ h1
  obtain ⟨hs1, h1⟩ := h1
  have hne1 : l1.record.state ≠ .complete := by
    rw [hs1]
    decide
  refine Method.Sat.bind (hook_sat h1 hne1 _ (Or.inl rfl)) ?_
  intro _ l2 w2 _ h2
  obtain ⟨rfl, h2⟩ := h2
  refine Method.Sat.bind (waitForTradeMenu_sat h2 hne1) ?_
  intro _ l3 w3 _ h3
  obtain ⟨rfl, h3⟩ := h3
  refine Method.Sat.bind (switchTradeOnce_sat h3 rfl hs1) ?_
  intro first l4 w4 _ h4
  obtain ⟨rfl, t, ht, hlast, h4⟩ := h4
  refine Method.Sat.bind (hook_sat h4 hne1 _ (Or.inr ⟨rfl, by simpa using hlast⟩)) ?_
  intro _ l5 w5 _ h5
  obtain ⟨rfl, h5⟩ := h5
  -- The two checks together are the acceptance condition of the first trade.
  have hsettle : Progress.settle P .start t.outcome =
      if first.offeredMon = P ∧ first.commitConfirmed = true ∧ first.receivedMon.holdsMail = false
      then some (.gotB first.receivedMon) else none := by
    rw [ht]
    rfl
  refine Method.Sat.bind (ofExcept_sat h5 hne1 ?_) ?_
  · intro e he
    refine .ofUnsettled (validateResult_ordinary he) (validateResult_error he).2 ?_
    rw [hsettle, if_neg]
    intro hc
    rw [validateResult_ok.mpr ⟨hc.1, hc.2.1⟩] at he
    exact absurd he (by simp)
  intro _ l6 w6 _ h6
  obtain ⟨rfl, rfl, hvalid⟩ := h6
  have hvalid := validateResult_ok.mp hvalid
  refine Method.Sat.bind (ofExcept_sat h5 hne1 ?_) ?_
  · intro e he
    refine .ofUnsettled (Pokemon100.refuseMail_ordinary he) (Pokemon100.refuseMail_error he).2.2 ?_
    rw [hsettle, if_neg]
    intro hc
    rw [(Pokemon100.refuseMail_error he).1] at hc
    exact absurd hc.2.2 (by simp)
  intro _ l7 w7 _ h7
  obtain ⟨rfl, rfl, hmail⟩ := h7
  have hset : Progress.settle P .start t.outcome = some (.gotB first.receivedMon) := by
    rw [hsettle, if_pos ⟨hvalid.1, hvalid.2, Pokemon100.refuseMail_ok.mp hmail⟩]
  refine Method.Sat.bind (saveArtifact_sat journal h5 hset (by decide) rfl) ?_
  intro _ l8 w8 _ h8
  obtain ⟨rfl, h8⟩ := h8
  obtain ⟨hcheck, hbooked⟩ := h8.position.booked.capture_B hs1 first.receivedMon
  refine Method.Sat.bind (transition_sat journal (.gotB first.receivedMon) h8 hcheck
    fun now hnow => h8.settled hset (hbooked now hnow) rfl) ?_
  intro _ l9 w9 _ h9
  obtain ⟨⟨now, rfl⟩, h9⟩ := h9
  refine Method.Sat.bind (transition_note_sat journal h9 rfl rfl (by simp [Progress.states]) rfl
    (by decide)) ?_
  intro _ l10 w10 _ h10
  obtain ⟨hs10, h10⟩ := h10
  refine Method.Sat.bind (hook_sat h10 (by rw [hs10]; decide) _ (Or.inl rfl)) ?_
  intro _ l11 w11 hv h11
  obtain ⟨rfl, h11⟩ := h11
  exact Method.Sat.pure hv ⟨hs10, h11⟩

theorem gbaStage_sat {b : Pokemon100} (h : Running a0 P (.gotB b) [] (.gotB b) l w)
    (hs : l.record.state = .placeholderOnSwitch) :
    Method.Sat Step (Open a0 P) (gbaStage journal b) l w
      (fun a l' v => l'.record.state = .bCommittedToGba ∧
        ∃ slot, Running a0 P (.gotA b a slot) [] (.gotA b a slot) l' v) (Stopped a0 P) := by
  unfold gbaStage
  refine Method.Sat.bind (transition_note_sat journal h hs rfl (by simp [Progress.states]) rfl
    (by decide)) ?_
  intro _ l1 w1 _ h1
  obtain ⟨hs1, h1⟩ := h1
  have hne1 : l1.record.state ≠ .complete := by
    rw [hs1]
    decide
  refine Method.Sat.bind (hook_sat h1 hne1 _ (Or.inl rfl)) ?_
  intro _ l2 w2 _ h2
  obtain ⟨rfl, h2⟩ := h2
  refine Method.Sat.bind (gbaTradeOnce_sat h2 rfl hs1) ?_
  intro result l3 w3 _ h3
  obtain ⟨rfl, t, ht, hlast, h3⟩ := h3
  refine Method.Sat.bind (hook_sat h3 hne1 _ (Or.inr ⟨rfl, by simpa using hlast⟩)) ?_
  intro _ l4 w4 _ h4
  obtain ⟨rfl, h4⟩ := h4
  have hsettle : Progress.settle P (.gotB b) t.outcome =
      if result.offeredMon = b ∧ result.commitConfirmed = true ∧
        (0 ≤ result.selectedSlot ∧ result.selectedSlot ≤ 5) ∧ result.linkClosed = true ∧
        result.receivedMon.holdsMail = false
      then some (.gotA b result.receivedMon result.selectedSlot) else none := by
    rw [ht]
    rfl
  refine Method.Sat.bind (ofExcept_sat h4 hne1 ?_) ?_
  · intro e he
    refine .ofUnsettled (validateGbaResult_ordinary he) (validateGbaResult_error he).2 ?_
    rw [hsettle, if_neg]
    intro hc
    rw [validateGbaResult_ok.mpr ⟨hc.1, hc.2.1, hc.2.2.1, hc.2.2.2.1⟩] at he
    exact absurd he (by simp)
  intro _ l5 w5 _ h5
  obtain ⟨rfl, rfl, hvalid⟩ := h5
  have hvalid := validateGbaResult_ok.mp hvalid
  refine Method.Sat.bind (ofExcept_sat h4 hne1 ?_) ?_
  · intro e he
    refine .ofUnsettled (Pokemon100.refuseMail_ordinary he) (Pokemon100.refuseMail_error he).2.2 ?_
    rw [hsettle, if_neg]
    intro hc
    rw [(Pokemon100.refuseMail_error he).1] at hc
    exact absurd hc.2.2.2.2 (by simp)
  intro _ l6 w6 _ h6
  obtain ⟨rfl, rfl, hmail⟩ := h6
  have hset : Progress.settle P (.gotB b) t.outcome =
      some (.gotA b result.receivedMon result.selectedSlot) := by
    rw [hsettle, if_pos ⟨hvalid.1, hvalid.2.1, hvalid.2.2.1, hvalid.2.2.2,
      Pokemon100.refuseMail_ok.mp hmail⟩]
  refine Method.Sat.bind (saveArtifact_sat journal h4 hset (by decide) rfl) ?_
  intro _ l7 w7 _ h7
  obtain ⟨rfl, h7⟩ := h7
  obtain ⟨hcheck, hbooked⟩ :=
    h7.position.booked.capture_A hs1 result.receivedMon hvalid.2.2.1
  refine Method.Sat.bind (transition_sat journal (.gotA b result.receivedMon result.selectedSlot) h7
    hcheck fun now hnow => h7.settled hset (hbooked now hnow) rfl) ?_
  intro _ l8 w8 _ h8
  obtain ⟨⟨now, rfl⟩, h8⟩ := h8
  refine Method.Sat.bind (transition_note_sat journal h8 rfl rfl (by simp [Progress.states]) rfl
    (by decide)) ?_
  intro _ l9 w9 _ h9
  obtain ⟨hs9, h9⟩ := h9
  refine Method.Sat.bind (hook_sat h9 (by rw [hs9]; decide) _ (Or.inl rfl)) ?_
  intro _ l10 w10 hv h10
  obtain ⟨rfl, h10⟩ := h10
  exact Method.Sat.pure hv ⟨hs9, _, h10⟩

/-- What holds when the body returns: the journal says `COMPLETE`, the trades are the three settled ones, and
the outcome names what they brought. -/
def Completed (a0 : ArtifactPath → Option Bytes) (P : Pokemon100) (outcome : TransactionOutcome)
    (l : Locals) (w : World) : Prop :=
  ∃ b a slot, Running a0 P (.gotP b a slot P) [] (.gotP b a slot P) l w ∧
    l.record.state = .complete ∧ outcome = ⟨l.record.transactionId, b, a, P⟩

theorem switchStage2_sat {b a : Pokemon100} {slot : Int}
    (h : Running a0 P (.gotA b a slot) [] (.gotA b a slot) l w)
    (hs : l.record.state = .bCommittedToGba) :
    Method.Sat Step (Open a0 P) (switchStage2 journal P b a) l w (Completed a0 P)
      (Stopped a0 P) := by
  unfold switchStage2
  refine Method.Sat.bind (transition_note_sat journal h hs rfl (by simp [Progress.states]) rfl
    (by decide)) ?_
  intro _ l1 w1 _ h1
  obtain ⟨hs1, h1⟩ := h1
  have hne1 : l1.record.state ≠ .complete := by
    rw [hs1]
    decide
  refine Method.Sat.bind (hook_sat h1 hne1 _ (Or.inl rfl)) ?_
  intro _ l2 w2 _ h2
  obtain ⟨rfl, h2⟩ := h2
  refine Method.Sat.bind (waitForTradeMenu_sat h2 hne1) ?_
  intro _ l3 w3 _ h3
  obtain ⟨rfl, h3⟩ := h3
  refine Method.Sat.bind (switchTradeOnce_sat h3 rfl hs1) ?_
  intro second l4 w4 _ h4
  obtain ⟨rfl, t, ht, hlast, h4⟩ := h4
  refine Method.Sat.bind (hook_sat h4 hne1 _ (Or.inr ⟨rfl, by simpa using hlast⟩)) ?_
  intro _ l5 w5 _ h5
  obtain ⟨rfl, h5⟩ := h5
  -- The returned record is not checked for mail: only the offer and the commit count here.
  have hsettle : Progress.settle P (.gotA b a slot) t.outcome =
      if second.offeredMon = a ∧ second.commitConfirmed = true
      then some (.gotP b a slot second.receivedMon) else none := by
    rw [ht]
    rfl
  refine Method.Sat.bind (ofExcept_sat h5 hne1 ?_) ?_
  · intro e he
    refine .ofUnsettled (validateResult_ordinary he) (validateResult_error he).2 ?_
    rw [hsettle, if_neg]
    intro hc
    rw [validateResult_ok.mpr hc] at he
    exact absurd he (by simp)
  intro _ l6 w6 _ h6
  obtain ⟨rfl, rfl, hvalid⟩ := h6
  have hset : Progress.settle P (.gotA b a slot) t.outcome =
      some (.gotP b a slot second.receivedMon) := by
    rw [hsettle, if_pos (validateResult_ok.mp hvalid)]
  refine Method.Sat.bind (saveArtifact_sat journal h5 hset (by decide) rfl) ?_
  intro _ l7 w7 _ h7
  obtain ⟨rfl, h7⟩ := h7
  obtain ⟨hcheck, hbooked⟩ := h7.position.booked.commit_A hs1 second.receivedMon
  refine Method.Sat.bind (transition_sat journal (.gotP b a slot second.receivedMon) h7 hcheck
    fun now hnow => h7.settled hset (hbooked now hnow) rfl) ?_
  intro _ l8 w8 _ h8
  obtain ⟨⟨now, rfl⟩, h8⟩ := h8
  refine Method.Sat.bind (hook_sat h8 (by simp) _ (Or.inl rfl)) ?_
  intro _ l9 w9 _ h9
  obtain ⟨rfl, h9⟩ := h9
  refine Method.Sat.bind (ofExcept_sat h9 (by simp) fun e he =>
    ⟨(validateReturned_error he).1, (validateReturned_error he).2,
      Or.inr ⟨validateReturned_recovery he, rfl⟩⟩) ?_
  intro _ l10 w10 _ h10
  obtain ⟨rfl, rfl, hreturned⟩ := h10
  have hreturned : second.receivedMon = P := validateReturned_ok.mp hreturned
  rw [hreturned] at h9
  obtain ⟨hcheck, hbooked⟩ := h9.position.booked.complete rfl
  refine Method.Sat.bind (transition_sat journal (.gotP b a slot P) h9 hcheck fun now hnow =>
    ⟨hbooked now hnow, h9.position.accounts, Or.inl rfl, h9.position.shelf_eq, Or.inl rfl⟩) ?_
  intro _ l11 w11 hv h11
  obtain ⟨⟨now', rfl⟩, h11⟩ := h11
  refine Method.Sat.pure hv ⟨b, a, slot, h11, rfl, ?_⟩
  rw [hreturned]

/-- **The `try` body**, from a fresh journal: the three stages one behind the other, and `Open` at every point
between. -/
theorem body_sat (h : Running a0 P .start [] .start l w) (hs : l.record.state = .idle) :
    Method.Sat Step (Open a0 P) (body journal P) l w (Completed a0 P) (Stopped a0 P) := by
  have hne : l.record.state ≠ .complete := by
    rw [hs]
    decide
  unfold body
  refine Method.Sat.bind (connect_sat h hne .switch) ?_
  intro _ l1 w1 hv1 h1
  obtain ⟨rfl, h1⟩ := h1
  refine Method.Sat.bind (Method.Sat.assign (Q := fun _ l' v => l'.record = l1.record ∧
    Running a0 P .start [] .start l' v) hv1 ⟨rfl, ⟨h1.1, h1.2, h1.3, h1.4, h1.5, h1.6⟩⟩) ?_
  intro _ l2 w2 _ h2
  obtain ⟨hr2, h2⟩ := h2
  refine Method.Sat.bind (connect_sat h2 (by rw [hr2]; exact hne) .gba) ?_
  intro _ l3 w3 hv3 h3
  obtain ⟨rfl, h3⟩ := h3
  refine Method.Sat.bind (Method.Sat.assign (Q := fun _ l' v => l'.record = l3.record ∧
    Running a0 P .start [] .start l' v) hv3 ⟨rfl, ⟨h3.1, h3.2, h3.3, h3.4, h3.5, h3.6⟩⟩) ?_
  intro _ l4 w4 _ h4
  obtain ⟨hr4, h4⟩ := h4
  refine Method.Sat.bind (switchStage1_sat journal h4 (by rw [hr4, hr2]; exact hs)) ?_
  intro b l5 w5 _ h5
  refine Method.Sat.bind (gbaStage_sat journal h5.2 h5.1) ?_
  intro a l6 w6 _ h6
  obtain ⟨hs6, slot, h6⟩ := h6
  exact switchStage2_sat journal h6 hs6

end TradeCoordinator

/-! ## §4 — `except`, `finally` and the guards in front. -/

/-- The file system works, and what endpoints and hooks raise is an `Exception` whose text
encodes. -/
def Tame (tr : List Event) : Prop :=
  .ioError ∉ tr ∧
    ∀ ev ∈ tr, ∀ e, ev.failure? = some e → e.isException = true ∧ e.encodable = true

theorem Tame.of_append {tr tr' : List Event} (h : Tame (tr ++ tr')) : Tame tr := by
  refine ⟨fun hm => h.1 (List.mem_append_left _ hm), ?_⟩
  intro ev hev
  exact h.2 ev (List.mem_append_left _ hev)

theorem Tame.raised {tr : List Event} (h : Tame tr) {e : Exc} (he : e ∈ raised tr) :
    e.isException = true ∧ e.encodable = true := by
  obtain ⟨ev, hev, hr⟩ := List.mem_filterMap.mp he
  refine h.2 ev hev e ?_
  cases ev with
  | close c a => exact absurd hr (by simp [Event.raised?])
  | _ => exact hr

/-- The journal after `execute` raised `e` and recorded it: a booked record, closed with the class and the
text of `e`. -/
def Recovered (a0 : ArtifactPath → Option Bytes) (P : Pokemon100) (e : Exc) (w : World) : Prop :=
  ∃ g pend ga r now, Position a0 P g pend ga r w ∧ r.state ≠ .complete ∧
    w.disk.journal = some (.json (r.recovered now e.describe).document) ∧
    statesWritten w.trace = r.history.map HistoryEntry.state ++ [.recoveryRequired] ∧
    ∀ e' ∈ raised w.trace, e' = e

/-- A close raised what `except Exception` does not catch. -/
def Interrupted (tr : List Event) : Prop :=
  ∃ c e, Event.close c (.error e) ∈ tr ∧ e.isException = false

/-- What an `e` that is no exception of a close leaves on disk, on any file system.  Either no
journal was ever closed, or the last journal that was installed is the closed one: in front of it
(`tr`) is what made the body raise `e`, behind it (`rest`) no journal is installed any more. -/
inductive Aftermath (P : Pokemon100) (e : Exc) (w : World) : Prop
  | unclosed : w.disk.journal = none ∨ Filled P w → WhenWritten (Balanced P) w.trace →
      Aftermath P e w
  | closed {tr rest : List Event} {g : Progress} {r : JournalRecord} {now : PyStr} :
      Booked P g r → Blamed P e tr → (∀ e' ∈ raised tr, e' = e) → WhenWritten (Balanced P) tr →
      w.trace = tr ++ .installed (.journal (.json (r.recovered now e.describe).document)) :: rest →
      (∀ text, .installed (.journal text) ∉ rest) →
      w.disk.journal = some (.json (r.recovered now e.describe).document) → Aftermath P e w

/-- What comes later and leaves the journal alone makes no difference: closes, and file calls that fail. -/
theorem Aftermath.extend {P : Pokemon100} {e : Exc} {w v : World} {evs : List Event}
    (h : Aftermath P e w) (hj : v.disk.journal = w.disk.journal) (ht : v.trace = w.trace ++ evs)
    (hevs : ∀ text, .installed (.journal text) ∉ evs) : Aftermath P e v := by
  cases h with
  | unclosed hfilled hwritten =>
      refine .unclosed ?_ ?_
      · rw [Filled, hj]
        exact hfilled
      · rw [ht]
        exact hwritten.append hevs
  | @closed tr rest g r now hb hblamed hsame hwritten htrace hrest hjournal =>
      have htrace' : v.trace = tr ++
          .installed (.journal (.json (r.recovered now e.describe).document)) :: (rest ++ evs) := by
        rw [ht, htrace, List.append_assoc, List.cons_append]
      have hrest' : ∀ text, .installed (.journal text) ∉ rest ++ evs := by
        intro text hm
        rcases List.mem_append.mp hm with hm | hm
        · exact hrest text hm
        · exact hevs text hm
      exact .closed hb hblamed hsame hwritten htrace' hrest' (hj.trans hjournal)

theorem Aftermath.faults {P : Pokemon100} {e : Exc} {w : World} (h : Aftermath P e w) (n : Nat) :
    Aftermath P e (w.faults n) := by
  refine h.extend rfl rfl ?_
  intro text hm
  exact absurd (List.eq_of_mem_replicate hm) (by simp)

/-- What holds when `execute` raises `e`, the placeholder being free of mail: the invariant, the account of
the trades, and the aftermath. -/
structure Failed (a0 : ArtifactPath → Option Bytes) (P : Pokemon100) (e : Exc) (w : World) :
    Prop where
  position : .ioError ∉ w.trace → ∃ g pend ga r, Position a0 P g pend ga r w ∧
    JournalIs r w.disk.journal ∧ (ga = g → ∀ t ∈ pend, Unsettled P g t w.trace)
  recovered : Tame w.trace → Recovered a0 P e w
  aftermath : Interrupted w.trace ∨ Aftermath P e w

/-- What holds when `execute` returns: what held when the body did, with the closes behind it. -/
def Returned (a0 : ArtifactPath → Option Bytes) (P : Pokemon100) (outcome : TransactionOutcome)
    (w : World) : Prop :=
  ∃ b a slot r, Position a0 P (.gotP b a slot P) [] (.gotP b a slot P) r w ∧
    w.disk.journal = some (.json r.document) ∧ r.state = .complete ∧
    outcome = ⟨r.transactionId, b, a, P⟩ ∧ Balanced P w.trace

theorem Unsettled.append {P : Pokemon100} {g : Progress} {t : Trade} {tr : List Event}
    (h : Unsettled P g t tr) (tr' : List Event) : Unsettled P g t (tr ++ tr') := by
  rcases h with h | ⟨b, e, hb, hm⟩
  · exact Or.inl h
  · exact Or.inr ⟨b, e, hb, hm.trans (List.prefix_append tr tr').isInfix⟩

theorem Failed.ofFault {a0 : ArtifactPath → Option Bytes} {P : Pokemon100} {e : Exc} {w : World}
    (h : .ioError ∈ w.trace) (ha : Aftermath P e w) : Failed a0 P e w :=
  ⟨fun hc => absurd h hc, fun hc => absurd h hc.1, Or.inr ha⟩

namespace TradeCoordinator

variable (journal : JournalStore) {a0 : ArtifactPath → Option Bytes} {P : Pokemon100} {l : Locals}
  {w : World}

/-- `_mark_recovery` never lets an exception out, and when the file system works it closes the journal with
the text of `e`.  Where a write fails, the journal is closed or it is not, and the trace says which. -/
theorem markRecovery_sat {e : Exc} (h : Stopped a0 P e l w) :
    Act.Sat Step (Open a0 P) (markRecovery journal l.record e) w (fun _ v => Failed a0 P e v)
      (fun _ _ => False) := by
  obtain ⟨g, pend, ga, hpos, hunsettled⟩ := h.position
  unfold markRecovery
  by_cases hterm : l.record.state.terminal = true
  · -- Memory is at `COMPLETE`: its write raised, so an I/O call has failed.
    rw [if_pos hterm]
    refine Act.Sat.pure h.isOpen (Failed.ofFault ?_ (.unclosed (Or.inr h.filled) h.written))
    by_contra hio
    exact (h.synced hio).2.2 (hpos.booked.terminal_iff.mp hterm)
  · rw [if_neg hterm]
    have hne : l.record.state ≠ .complete := fun hc => hterm (hpos.booked.terminal_iff.mpr hc)
    have hinstalled : ∀ now, Position a0 P g pend ga l.record
        (w.install (.journal (.json (l.record.recovered now e.describe).document))) :=
      fun now => hpos.installJournal _
    have hunclosed : Aftermath P e w := .unclosed (Or.inr h.filled) h.written
    have hclosed : ∀ now, Aftermath P e
        (w.install (.journal (.json (l.record.recovered now e.describe).document))) :=
      fun now => .closed hpos.booked h.blamed h.same h.written rfl (by simp) rfl
    refine Prog.Sat.bind (JournalStore.transition_sat journal
      (JournalRecord.check_eq_ok (Or.inl rfl) (by simpa using hterm) rfl rfl) h.isOpen.faults
      fun now _ => Open.faults ⟨g, pend, ga, _, hinstalled now,
        Or.inr ⟨hne, now, e.describe, rfl⟩⟩) ?_
    intro ended v hv hend
    obtain ⟨written, r'⟩ := ended
    obtain ⟨now, hnow, rfl, hend⟩ := hend
    cases written with
    | ok u =>
        obtain ⟨_, rfl⟩ := hend
        refine ⟨hv, ?_, ?_, Or.inr (hclosed now)⟩
        · intro hio
          have hio' : .ioError ∉ w.trace := fun hm => hio (List.mem_append_left _ hm)
          exact ⟨g, pend, ga, l.record, hinstalled now, Or.inr ⟨hne, now, e.describe, rfl⟩,
            fun hg t ht => (hunsettled hio' hg t ht).append _⟩
        · intro htame
          have htame' : Tame w.trace := htame.of_append
          obtain ⟨_, hreached, _⟩ := h.synced htame'.1
          refine ⟨g, pend, ga, l.record, now, hinstalled now, hne, rfl, ?_, ?_⟩
          · rw [World.install_trace, statesWritten_append, hreached]
            show _ ++ List.filterMap Event.stateWritten? [_] = _
            rw [List.filterMap_cons, stateWritten?_document]
            rfl
          · intro e' he'
            rw [World.install_trace, raised_append] at he'
            exact h.same e' (by simpa [raised, Event.raised?] using he')
    | error e' =>
        have hexc : e'.isException = true := by
          rcases hend with ⟨he', _⟩ | ⟨he', _⟩
          · exact he'
          · exact he'.isException
        show Prog.Sat Step (Open a0 P) _ (Prog.done (if e'.isException then _ else _)) v
        rw [if_pos hexc]
        refine ⟨hv, ?_⟩
        rcases hend with ⟨_, henc, rfl⟩ | ⟨_, n, hn, rfl | rfl⟩
        · -- The text of `e` does not encode, so the world is not tame.
          refine ⟨fun hio => ⟨g, pend, ga, l.record, hpos, Or.inl (h.synced hio).1,
            hunsettled hio⟩, ?_, Or.inr hunclosed⟩
          intro htame
          have he : e.encodable = true := by
            rcases h.blamed.cause with hc | ⟨_, hc | hc⟩
            · exact (htame.raised hc).2
            · exact hc
            · exact absurd hc htame.1
          have htexts := hpos.booked.recovered_texts e.describe hnow
            (by rw [Exc.encodable_describe]; exact he)
          rw [JournalRecord.document] at henc
          exact absurd (htexts.encodable_document.symm.trans henc) (by simp)
        · exact Failed.ofFault (ioError_mem_faults _ hn) (hunclosed.faults n)
        · exact Failed.ofFault (ioError_mem_faults _ hn) ((hclosed now).faults n)

theorem handle_sat {l : Locals} {ended : Except Exc TransactionOutcome}
    (hinv : Open a0 P w)
    (h : Ends (fun o w => Completed a0 P o l w) (fun e w => Stopped a0 P e l w) ended w) :
    Act.Sat Step (Open a0 P) (handle journal l.record ended) w (Returned a0 P) (Failed a0 P) := by
  cases ended with
  | ok outcome =>
      obtain ⟨b, a, slot, hrun, hs, ho⟩ := h
      exact Act.Sat.pure hinv ⟨b, a, slot, l.record, hrun.position, hrun.journal, hs, ho,
        hrun.noFault, hrun.noRaise, hrun.position.settled⟩
  | error e =>
      have hstop : Stopped a0 P e l w := h
      show Act.Sat Step (Open a0 P) (if e.isException then _ else _) w _ _
      by_cases he : e.isException = true
      · rw [if_pos he]
        refine Act.Sat.bind ((markRecovery_sat journal hstop).mono (fun _ hv => hv)
          (fun _ _ _ hv => hv) (fun _ _ _ hv => hv.elim)) ?_
        intro _ v hv hfailed
        exact Act.Sat.throw hv hfailed
      · rw [if_neg he]
        refine Act.Sat.throw hinv ⟨?_, ?_, Or.inr (.unclosed (Or.inr hstop.filled) hstop.written)⟩
        · intro hio
          obtain ⟨g, pend, ga, hpos, hunsettled⟩ := hstop.position
          exact ⟨g, pend, ga, l.record, hpos, Or.inl (hstop.synced hio).1, hunsettled hio⟩
        · intro htame
          rcases hstop.blamed.cause with hc | ⟨hc, _⟩
          · exact absurd (htame.raised hc).1 he
          · exact absurd hc he

theorem Failed.logClose {e : Exc} {console : Console} {answer : Except Exc Unit}
    (h : Failed a0 P e w) : Failed a0 P e (w.log (.close console answer)) where
  position := by
    intro hio
    obtain ⟨g, pend, ga, r, hpos, hj, hu⟩ := h.position fun hm => hio (List.mem_append_left _ hm)
    exact ⟨g, pend, ga, r, hpos.log rfl, hj, fun hg t ht => (hu hg t ht).append _⟩
  recovered := by
    intro htame
    obtain ⟨g, pend, ga, r, now, hpos, hs, hj, hw, hsame⟩ := h.recovered htame.of_append
    refine ⟨g, pend, ga, r, now, hpos.log rfl, hs, hj, ?_, ?_⟩
    · rw [World.log_trace, statesWritten_append, hw]
      simp [statesWritten, Event.stateWritten?]
    · intro e' he'
      rw [World.log_trace, raised_append] at he'
      exact hsame e' (by simpa [raised, Event.raised?] using he')
  aftermath := by
    rcases h.aftermath with ⟨c, e', hm, he'⟩ | ha
    · exact Or.inl ⟨c, e', List.mem_append_left _ hm, he'⟩
    · exact Or.inr (ha.extend rfl rfl (by simp))

theorem Ends.logClose {answer : Except Exc TransactionOutcome} {console : Console}
    {closed : Except Exc Unit} (h : Ends (Returned a0 P) (Failed a0 P) answer w) :
    Ends (Returned a0 P) (Failed a0 P) answer (w.log (.close console closed)) := by
  cases answer with
  | ok outcome =>
      obtain ⟨b, a, slot, r, hpos, hj, hs, ho, hio, hraise, hacc⟩ := h
      refine ⟨b, a, slot, r, hpos.log rfl, hj, hs, ho, ?_, ?_, ?_⟩
      · simpa using hio
      · rw [World.log_trace, raised_append, hraise]
        rfl
      · obtain ⟨g, hacc⟩ := hacc
        refine ⟨g, ?_⟩
        have hnone : trades [Event.close console closed] = [] := rfl
        rw [World.log_trace, trades_append, hnone, List.append_nil]
        exact hacc
  | error e => exact Failed.logClose h

/-- A close that raises a `BaseException` replaces whatever was on its way out. -/
theorem Ends.interrupted {answer : Except Exc TransactionOutcome} {console : Console} {e : Exc}
    (h : Ends (Returned a0 P) (Failed a0 P) answer w) (he : ¬ e.isException = true) :
    Failed a0 P e (w.log (.close console (.error e))) where
  position := by
    intro hio
    have hio' : .ioError ∉ w.trace := fun hm => hio (List.mem_append_left _ hm)
    cases answer with
    | ok outcome =>
        obtain ⟨b, a, slot, r, hpos, hj, _⟩ := h
        exact ⟨_, _, _, r, hpos.log rfl, Or.inl hj, fun _ t ht => absurd ht (by simp)⟩
    | error e' =>
        obtain ⟨g, pend, ga, r, hpos, hj, hu⟩ := h.position hio'
        exact ⟨g, pend, ga, r, hpos.log rfl, hj, fun hg t ht => (hu hg t ht).append _⟩
  recovered := by
    intro htame
    exact absurd (htame.2 (.close console (.error e)) (by simp) e rfl).1 he
  aftermath := Or.inl ⟨console, e, by simp, by simpa using he⟩

theorem closeIf_sat {answer : Except Exc TransactionOutcome} (connected : Bool) (console : Console)
    (hinv : Open a0 P w) (h : Ends (Returned a0 P) (Failed a0 P) answer w) :
    Act.Sat Step (Open a0 P) (closeIf connected console) w
      (fun _ v => Ends (Returned a0 P) (Failed a0 P) answer v) (Failed a0 P) := by
  unfold closeIf
  cases connected with
  | false => exact Act.Sat.pure hinv h
  | true =>
      refine Act.Sat.bind (R := fun r v => v = w.log (.close console r)) ?_ ?_
      · refine ⟨hinv, ?_⟩
        intro r v hv
        obtain rfl : v = w.log (.close console r) := hv
        exact ⟨hinv.log rfl, rfl⟩
      · intro closed v hv hclosed
        subst hclosed
        cases closed with
        | ok u => exact Act.Sat.pure hv (Ends.logClose h)
        | error e =>
            show Act.Sat Step (Open a0 P) (if e.isException then _ else _) _ _ _
            by_cases he : e.isException = true
            · rw [if_pos he]
              exact Act.Sat.pure hv (Ends.logClose h)
            · rw [if_neg he]
              exact Act.Sat.throw hv (Ends.interrupted h he)

/-! ### in front of the `try` -/

/-- With no journal on disk the restart guard lets the transaction through. -/
theorem requireNewTransaction_sat {I : World → Prop} (hj : w.disk.journal = none)
    (h0 : ∀ n, I (w.faults n)) :
    Act.Sat Step I journal.requireNewTransaction w (fun _ v => v = w) (fun _ v => v = w.faults 1) := by
  have hw : I w := by simpa using h0 0
  unfold JournalStore.requireNewTransaction
  refine Act.Sat.bind ((JournalStore.pathExists_sat hw (h0 1)).mono (fun _ hv => hv)
    (fun _ _ _ hv => hv) ?_) ?_
  · rintro e v _ ⟨_, rfl⟩
    rfl
  · intro present v hv hp
    obtain ⟨rfl, rfl⟩ := hp
    rw [hj]
    exact Act.Sat.pure hv rfl

/-- The artifact of the placeholder is in place, and the journal of `record` is not yet. -/
abbrev withPlaceholder (P : Pokemon100) (record : JournalRecord) (w : World) : World :=
  w.install (.artifact (JournalStore.artifactOf record "P" P) P.raw)

section Fresh

variable (ha : w.disk.artifacts = a0) (ht : w.trace = []) (u : Uuid) {now : PyStr}
  (hnow : encodable now = true)

include ha ht hnow

theorem fresh_position : Position a0 P .start [] .start (JournalRecord.fresh u.str now P)
    (withPlaceholder P (JournalRecord.fresh u.str now P) w) := by
  refine ⟨Booked.fresh u hnow P, ⟨[], ?_, .start⟩, Or.inl rfl, ?_, Or.inl rfl⟩
  · rw [World.install_trace, ht]
    rfl
  · show Function.update w.disk.artifacts _ _ = _
    rw [ha]
    rfl

/-- The journal that `create` writes names the hash of `P` and no trade: it is balanced. -/
theorem fresh_written : WhenWritten (Balanced P)
    ((withPlaceholder P (JournalRecord.fresh u.str now P) w).install
      (.journal (.json (JournalRecord.fresh u.str now P).document))).trace := by
  refine WhenWritten.install ?_ ⟨?_, ?_, (fresh_position ha ht u hnow).settled⟩ _
  · rw [World.install_trace, ht]
    exact WhenWritten.append .nil (by simp)
  · simp [ht]
  · rw [World.install_trace, ht]
    rfl

/-- Behind the write, memory and disk hold the same record, and nothing has failed. -/
theorem fresh_running : Running a0 P .start [] .start ⟨JournalRecord.fresh u.str now P, false, false⟩
    ((withPlaceholder P (JournalRecord.fresh u.str now P) w).install
      (.journal (.json (JournalRecord.fresh u.str now P).document))) := by
  refine ⟨(fresh_position ha ht u hnow).installJournal _, rfl, ?_, ?_, ?_, fresh_written ha ht u hnow⟩
  · rw [World.install_trace, World.install_trace, ht, statesWritten_append]
    show _ ++ List.filterMap Event.stateWritten? [_] = _
    rw [List.filterMap_cons, stateWritten?_document]
    rfl
  · simp [ht]
  · rw [World.install_trace, World.install_trace, ht]
    rfl

end Fresh

theorem create_sat (hj : w.disk.journal = none) (ha : w.disk.artifacts = a0) (ht : w.trace = []) :
    Act.Sat Step (Inv a0 P) (journal.create P) w
      (fun record v => record.state = .idle ∧
        Running a0 P .start [] .start ⟨record, false, false⟩ v)
      (fun e v => .ioError ∈ v.trace ∧ Aftermath P e v) := by
  have hblank : Blank a0 P w := ⟨hj, Or.inl ha, by simp [ht]⟩
  have hinv : ∀ n, Inv a0 P (w.faults n) := fun n => Or.inl (hblank.faults n)
  have hw : Inv a0 P w := Or.inl hblank
  unfold JournalStore.create
  -- As long as there is no journal there is nothing to report.
  have hnone : ∀ e, Aftermath P e w := by
    refine fun e => .unclosed (Or.inl hj) ?_
    rw [ht]
    exact .nil
  refine Act.Sat.bind ((JournalStore.pathExists_sat hw (hinv 1)).mono (fun _ hv => hv)
    (fun _ _ _ hv => hv) ?_) ?_
  · rintro e v _ ⟨_, rfl⟩
    exact ⟨ioError_mem_faults w (by omega), (hnone e).faults 1⟩
  intro present v _ hp
  obtain ⟨rfl, rfl⟩ := hp
  rw [hj]
  refine Act.Sat.bind (JournalStore.clock_sat hw) ?_
  intro now v' _ hnow
  obtain ⟨hnow, rfl⟩ := hnow
  refine Act.Sat.bind (JournalStore.uuid4_sat hw) ?_
  intro u v' _ hu
  subst hu
  -- First the artifact of `P`, then the journal that names its hash.
  have hsaved : Blank a0 P (withPlaceholder P (JournalRecord.fresh u.str now P) v') := by
    refine ⟨hj, Or.inr ⟨u.str, ?_⟩, by simp [ht, Event.isFile]⟩
    show Function.update v'.disk.artifacts _ _ = _
    rw [ha]
    rfl
  have hquiet : ∀ e, Aftermath P e (withPlaceholder P (JournalRecord.fresh u.str now P) v') :=
    fun e => (hnone e).extend rfl rfl (by simp)
  have hrun := fresh_running (P := P) ha ht u hnow
  refine Act.Sat.bind ((JournalStore.saveArtifact_sat journal (by decide) hinv
    fun n => Or.inl (hsaved.faults n)).mono (fun _ hv => hv) (fun _ _ _ hv => hv) ?_) ?_
  · rintro e v _ ⟨_, n, hn, rfl | rfl⟩
    · exact ⟨ioError_mem_faults _ hn, (hnone e).faults n⟩
    · exact ⟨ioError_mem_faults _ hn, (hquiet e).faults n⟩
  intro _ v _ hv
  subst hv
  refine Act.Sat.bind ((JournalStore.write_sat journal (fun n => Or.inl (hsaved.faults n))
    (fun n => Or.inr (Open.faults ⟨_, _, _, _, hrun.position, Or.inl rfl⟩ n))).mono (fun _ hv => hv)
    (fun _ _ _ hv => hv) ?_) ?_
  · intro e v _ hv
    rcases hv with ⟨_, henc, _⟩ | ⟨_, n, hn, rfl | rfl⟩
    · rw [hrun.position.booked.texts.encodable_document] at henc
      exact absurd henc (by simp)
    · exact ⟨ioError_mem_faults _ hn, (hquiet e).faults n⟩
    · exact ⟨ioError_mem_faults _ hn, Aftermath.faults
        (.unclosed (Or.inr ⟨.start, _, hrun.position.booked, rfl⟩) hrun.written) n⟩
  intro _ v hv hdone
  obtain ⟨_, rfl⟩ := hdone
  exact Act.Sat.pure hv ⟨rfl, hrun⟩

/-- **`execute`, from a disk without a journal**, on any file system and with any endpoints, at every point
where it may be stopped. -/
theorem execute_sat (d : Disk) (hj : d.journal = none) (P : Pokemon100) :
    Act.Sat Step (Inv d.artifacts P) (execute journal P) ⟨d, []⟩ (Returned d.artifacts P)
      (fun e v => (P.holdsMail = true ∧ v.trace = []) ∨ Failed d.artifacts P e v) := by
  have hblank : Blank d.artifacts P ⟨d, []⟩ := ⟨hj, Or.inl rfl, by simp⟩
  unfold execute
  refine Act.Sat.bind (R := fun _ v => v = ⟨d, []⟩) (Act.Sat.ofExcept (Or.inl hblank) ?_) ?_
  · cases hm : P.refuseMail with
    | ok u => rfl
    | error e => exact Or.inl ⟨(Pokemon100.refuseMail_error hm).1, rfl⟩
  intro _ v _ hv
  subst hv
  refine Act.Sat.bind ((requireNewTransaction_sat journal hj
    fun n => Or.inl (hblank.faults n)).mono (fun _ hv => hv) (fun _ _ _ hv => hv) ?_) ?_
  · rintro e _ _ rfl
    have hnone : Aftermath P e ⟨d, []⟩ := .unclosed (Or.inl hj) .nil
    exact Or.inr (Failed.ofFault (ioError_mem_faults _ (by omega)) (hnone.faults 1))
  intro _ v _ hv
  subst hv
  refine Act.Sat.bind ((create_sat journal hj rfl rfl).mono (fun _ hv => hv)
    (fun _ _ _ hv => hv) (fun _ _ _ hv => Or.inr (Failed.ofFault hv.1 hv.2))) ?_
  intro record v _ hrecord
  -- From here on a journal is durable.
  suffices hopen : Act.Sat Step (Open d.artifacts P) _ v (Returned d.artifacts P)
      (Failed d.artifacts P) from
    hopen.mono (fun _ hv => Or.inr hv) (fun _ _ _ hv => hv) (fun _ _ _ hv => Or.inr hv)
  refine Act.Sat.bind (R := fun ended v => MEnds (Completed d.artifacts P) (Stopped d.artifacts P)
    ended v) (Prog.Sat.bind (body_sat journal hrecord.2 hrecord.1)
      fun ended v hv hend => ⟨hv, hend⟩) ?_
  intro ended v hv hend
  obtain ⟨ended, l⟩ := ended
  have hends : Ends (fun o w => Completed d.artifacts P o l w)
      (fun e w => Stopped d.artifacts P e l w) ended v := by
    cases ended with
    | ok o => exact hend
    | error e => exact hend
  refine Act.Sat.bind (Act.Sat.attempt (handle_sat journal hv hends)) ?_
  intro answer v hv hanswer
  refine Act.Sat.bind (closeIf_sat _ .gba hv hanswer) ?_
  intro _ v hv hanswer
  refine Act.Sat.bind (closeIf_sat _ .switch hv hanswer) ?_
  intro _ v hv hanswer
  exact Act.Sat.ofExcept hv hanswer

end TradeCoordinator

end TradeBroker
