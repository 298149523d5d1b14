/-
# TradeBroker.Broker.Safety — what a journal says, and what an exception leaves.

Three results about one invocation of `execute(P)`, read off the walk:

* `COMPLETE` is durable only after the three trades, each confirmed and checked, the last one
  giving back `P` byte for byte; and when `execute` returns, that is what it returns.
* When the file system works, an exception that leaves `execute` is in the journal: the history is
  the chain of the states that were really durable, closed by one `RECOVERY_REQUIRED` entry with the
  class and the text of that very exception.
* A record that a console has already given away is on disk when `execute` ends, AS LONG AS nothing
  raises between the trade and the write: the hook and the checks come first, so a refused result
  is not saved (`refused_mail_is_lost`).

The condition of the third result is `Undisturbed`: it is enough in every run, and the counterexample under
it shows what it is needed for.  It asks nothing of a trade that was not confirmed, since nothing irreversible
was received by it; behind a confirmed one it asks that the hook returns and that the checks pass, and both
are read off the trace, not off what was saved.

All three assume nothing about the endpoints beyond what they state.  An endpoint that lies is believed by
the broker, and what the broker then writes down is what it was told.
-/
import TradeBroker.Broker.Restart

namespace TradeBroker

open Lib

-- Programs are compared by running them: keep the bytes of a record out of that.
attribute [local irreducible] Pokemon100.heldItem

variable (journal : JournalStore)

/-! ## §1 — `COMPLETE` means exchanged. -/

/-- The three trades of a finished exchange, with everything the broker checked. -/
def Exchanged (P b a : Pokemon100) (tr : List Event) : Prop :=
  ∃ t1 t2 t3 r1 r2 r3, trades tr = [t1, t2, t3] ∧
    (t1.console = .switch ∧ t1.offered = P ∧ t1.outcome = .switchResult r1 ∧ r1.offeredMon = P ∧
      r1.commitConfirmed = true ∧ r1.receivedMon = b ∧ b.holdsMail = false) ∧
    (t2.console = .gba ∧ t2.offered = b ∧ t2.outcome = .gbaResult r2 ∧ r2.offeredMon = b ∧
      r2.commitConfirmed = true ∧ (0 ≤ r2.selectedSlot ∧ r2.selectedSlot ≤ 5) ∧
      r2.linkClosed = true ∧ r2.receivedMon = a ∧ a.holdsMail = false) ∧
    (t3.console = .switch ∧ t3.offered = a ∧ t3.outcome = .switchResult r3 ∧ r3.offeredMon = a ∧
      r3.commitConfirmed = true ∧ r3.receivedMon = P)

/-- The journal names exactly the three records and where they are: their hashes, their locations and the
state. -/
def SaysExchanged (P b a : Pokemon100) (raw : RawRecord) : Prop :=
  raw.state = .complete ∧
    raw.pokemon = JournalRecord.rawPokemon
      (.ofList [("A", some a.sha256), ("B", some b.sha256), ("P", some P.sha256)]) ∧
    raw.locations = JournalRecord.rawLocations
      (.ofList [("A", "switch"), ("B", "gba"), ("P", "broker")])

theorem Requested.call {P : Pokemon100} {g : Progress} {t : Trade} {q : Request}
    (h : Requested P g t) (hq : g.request P = some q) :
    t.console = q.console ∧ t.offered = q.offered := by
  obtain ⟨q', _, hq', hc, ho, _⟩ := h
  obtain rfl : q = q' := Option.some.inj (hq.symm.trans hq')
  exact ⟨hc, ho⟩

theorem Accounts.exchanged {P b a : Pokemon100} {slot : Int} {tr : List Event}
    (h : Accounts P (.gotP b a slot P) (trades tr)) : Exchanged P b a tr := by
  obtain ⟨ts2, t3, r3, hts, h2, hq3, ho3, hr3⟩ := h.of_gotP
  obtain ⟨ts1, t2, r2, rfl, h1, hq2, ho2, hr2⟩ := h2.of_gotA
  obtain ⟨t1, r1, rfl, hq1, ho1, hr1⟩ := h1.of_gotB
  have hc1 := hq1.call rfl
  have hc2 := hq2.call rfl
  have hc3 := hq3.call rfl
  refine ⟨t1, t2, t3, r1, r2, r3, hts, ?_, ?_, ?_⟩
  · obtain ⟨hoff, hcom, hmail, rfl⟩ := hr1
    exact ⟨hc1.1, hc1.2, ho1, hoff, hcom, rfl, hmail⟩
  · obtain ⟨hoff, hcom, hslot, hclosed, hmail, rfl, _⟩ := hr2
    exact ⟨hc2.1, hc2.2, ho2, hoff, hcom, hslot, hclosed, rfl, hmail⟩
  · exact ⟨hc3.1, hc3.2, ho3, hr3⟩

/-- A position at the end of the chain, with nothing pending. -/
theorem Position.exchanged {a0 : ArtifactPath → Option Bytes} {P b a : Pokemon100} {slot : Int}
    {ga : Progress} {r : JournalRecord} {w : World}
    (h : Position a0 P (.gotP b a slot P) [] ga r w) (hs : r.state = .complete) :
    Exchanged P b a w.trace ∧ SaysExchanged P b a r.raw := by
  obtain ⟨ts, hts, hacc⟩ := h.accounts
  rw [List.append_nil] at hts
  rw [← hts] at hacc
  refine ⟨hacc.exchanged, hs, ?_, ?_⟩
  · show JournalRecord.rawPokemon r.pokemon = _
    rw [h.booked.pokemon]
    rfl
  · show JournalRecord.rawLocations r.locations = _
    rw [h.booked.locations, hs]
    rfl

theorem Position.complete {a0 : ArtifactPath → Option Bytes} {P : Pokemon100} {g ga : Progress}
    {pend : List Trade} {r : JournalRecord} {w : World} (h : Position a0 P g pend ga r w)
    (hs : r.state = .complete) :
    ∃ b a, Exchanged P b a w.trace ∧ SaysExchanged P b a r.raw := by
  obtain ⟨b, a, slot, rfl⟩ := h.booked.returned hs
  have hpend : pend = [] := by
    rcases h.pending with hp | ⟨t, _, _, hreq⟩
    · exact hp
    · exact absurd hreq (by simp [Progress.request])
  subst hpend
  exact ⟨b, a, h.exchanged hs⟩

theorem load_recovered {P : Pokemon100} {g : Progress} {r : JournalRecord} (h : Booked P g r)
    (now error : PyStr) :
    JournalText.load journal (.json (r.recovered now error).document) =
      .ok (r.recovered now error).raw :=
  RawRecord.fromJsonDict_asJsonDict (h.recovered_loadable now error)

/-- **A durable `COMPLETE` is the truth**, at every crash point of every run, and so is the outcome
that `execute` returns. -/
theorem complete_only_after_exchange {d : Disk} {P : Pokemon100}
    {q : Prog Op Ret (Except Exc TransactionOutcome)} {v : World}
    (hr : Prog.Reach Step (TradeCoordinator.execute journal P).run ⟨d, []⟩ q v) :
    (∀ text raw, v.disk.journal = some text → d.journal ≠ some text →
        text.load journal = .ok raw → raw.state = .complete →
        ∃ b a, Exchanged P b a v.trace ∧ SaysExchanged P b a raw) ∧
      (∀ outcome, q = .done (.ok outcome) →
        ∃ text raw b a, v.disk.journal = some text ∧ text.load journal = .ok raw ∧
          Exchanged P b a v.trace ∧ SaysExchanged P b a raw ∧
          outcome = ⟨raw.transactionId, b, a, P⟩) := by
  cases hd : d.journal with
  | some text0 =>
      have hsat := Act.Sat.reach (TradeCoordinator.execute_blocked_sat journal hd P) hr
      refine ⟨?_, ?_⟩
      · -- The only text this run can have written is closed for recovery.
        intro text raw hj hne hload hs
        rcases hsat.inv.journal with hj' | ⟨raw0, now, _, _, hj'⟩
        · exact absurd (hj'.symm.trans hj) hne
        · obtain rfl := Option.some.inj (hj.symm.trans hj')
          have hstate := RawRecord.state_of_fromJsonDict hload
          rw [hs] at hstate
          exact absurd hstate (by simp [RawRecord.restarted, RawRecord.recover])
      · intro outcome hq
        subst hq
        exact hsat.2.elim
  | none =>
      have hsat := Act.Sat.reach (TradeCoordinator.execute_sat journal d hd P) hr
      refine ⟨?_, ?_⟩
      · intro text raw hj _ hload hs
        rcases hsat.inv with hblank | ⟨g, pend, ga, r, hpos, hjournal⟩
        · rw [hblank.journal] at hj
          exact absurd hj (by simp)
        · rcases hjournal with hjournal | ⟨_, now, error, hjournal⟩
          · obtain rfl := Option.some.inj (hj.symm.trans hjournal)
            obtain rfl := Except.ok.inj ((load_document journal hpos.booked).symm.trans hload)
            exact hpos.complete hs
          · obtain rfl := Option.some.inj (hj.symm.trans hjournal)
            obtain rfl := Except.ok.inj
              ((load_recovered journal hpos.booked now error).symm.trans hload)
            exact absurd hs (by simp [JournalRecord.raw, JournalRecord.recovered])
      · intro outcome hq
        subst hq
        obtain ⟨b, a, slot, r, hpos, hj, hs, rfl, _⟩ := hsat.2
        obtain ⟨htrades, hsays⟩ := hpos.exchanged hs
        exact ⟨_, r.raw, b, a, hj, load_document journal hpos.booked, htrades, hsays, rfl⟩

theorem complete_only_after_exchange_goodRun :
    ∃ text raw b a, goodRun.2.disk.journal = some text ∧ text.load sampleStore = .ok raw ∧
      Exchanged (sampleMon 0) b a goodRun.2.trace ∧ SaysExchanged (sampleMon 0) b a raw ∧
      (⟨Script.txid.str, sampleMon 2, sampleMon 1, sampleMon 0⟩ : TransactionOutcome) =
        ⟨raw.transactionId, b, a, sampleMon 0⟩ :=
  (complete_only_after_exchange sampleStore goodRun_finish).2 _ (by rw [goodRun_eval.1])

/-! ## §2 — an exception is recorded. -/

/-- The history of a record that was closed for recovery: the chain up to the state it was in, and one entry
more. -/
theorem recovered_history {P : Pokemon100} {g : Progress} {r : JournalRecord} (h : Booked P g r)
    (now error : PyStr) :
    (r.recovered now error).raw.history.map RawEntry.state =
      (r.state.upTo ++ [JournalState.recoveryRequired]).map (fun s => .str s.value) := by
  show ((r.history ++ [_]).map _).map RawEntry.state = _
  rw [List.map_map, ← h.history, List.map_append, List.map_append, List.map_map]
  rfl

/-- **What an exception leaves.**  On a working file system, with endpoints and hooks that raise
`Exception`s with encodable texts, an exception `e` that leaves `execute` is the one that was raised
in the body; the journal is `RECOVERY_REQUIRED` with `e` as its last error; its history is the chain
of the states that were durable, closed by one recovery entry; its hashes and locations are those of
the last state of the chain.  The answers of the closes do not matter. -/
theorem execute_raise_is_recorded {d : Disk} (hd : d.journal = none) {P : Pokemon100}
    (hmail : P.holdsMail = false) {e : Exc} {v : World}
    (hf : Prog.Finish Step (TradeCoordinator.execute journal P).run ⟨d, []⟩ (.error e) v)
    (htame : Tame v.trace) :
    ∃ text raw g ts pend, ∃ s : JournalState, v.disk.journal = some text ∧
      text.load journal = .ok raw ∧ raw.state = .recoveryRequired ∧ raw.lastError = .str e.describe ∧
      (∀ e' ∈ raised v.trace, e' = e) ∧
      s ∈ JournalState.chain ∧ s ≠ .complete ∧
      raw.history.map RawEntry.state =
        (s.upTo ++ [JournalState.recoveryRequired]).map (fun s => .str s.value) ∧
      statesWritten v.trace = s.upTo ++ [.recoveryRequired] ∧
      trades v.trace = ts ++ pend ∧ Accounts P g ts ∧ pend.length ≤ 1 ∧ s ∈ g.states ∧
      raw.pokemon = JournalRecord.rawPokemon (g.hashes P) ∧
      raw.locations = JournalRecord.rawLocations s.locations := by
  obtain ⟨_, hpost⟩ := Act.Sat.finish (TradeCoordinator.execute_sat journal d hd P) hf
  have hfailed : Failed d.artifacts P e v := by
    rcases hpost with ⟨hm, _⟩ | hpost
    · rw [hmail] at hm
      exact absurd hm (by simp)
    · exact hpost
  obtain ⟨g, pend, ga, r, now, hpos, hne, hj, hwritten, hsame⟩ := hfailed.recovered htame
  obtain ⟨ts, hts, hacc⟩ := hpos.accounts
  refine ⟨_, (r.recovered now e.describe).raw, g, ts, pend, r.state, hj,
    load_recovered journal hpos.booked now e.describe, rfl, rfl, hsame,
    Progress.mem_chain hpos.booked.span, hne, recovered_history hpos.booked now e.describe, ?_, hts,
    hacc, ?_, hpos.booked.span, ?_, ?_⟩
  · rw [hwritten, hpos.booked.history]
  · rcases hpos.pending with rfl | ⟨t, rfl, _⟩ <;> simp
  · show JournalRecord.rawPokemon r.pokemon = _
    rw [hpos.booked.pokemon]
  · show JournalRecord.rawLocations r.locations = _
    rw [hpos.booked.locations]

/-- A run in which the GBA does not connect and the close of the Switch fails too; the second error is
swallowed and the first is recorded. -/
def failedRun : Except Exc TransactionOutcome × World :=
  ({ Script.exchange (sampleMon 2) (sampleMon 1) (sampleMon 0) with
      connect := fun console => if console = .gba then .error ⟨.endpointError, "no adapter"⟩ else .ok ()
      close := fun _ => .error ⟨.osError, "gone"⟩ } : Script).play sampleStore (sampleMon 0) emptyDisk

theorem execute_raise_is_recorded_failedRun :
    ∃ text raw g ts pend, ∃ s : JournalState, failedRun.2.disk.journal = some text ∧
      text.load sampleStore = .ok raw ∧ raw.state = .recoveryRequired ∧
      raw.lastError = .str (Exc.describe ⟨.endpointError, "no adapter"⟩) ∧
      (∀ e' ∈ raised failedRun.2.trace, e' = ⟨.endpointError, "no adapter"⟩) ∧
      s ∈ JournalState.chain ∧ s ≠ .complete ∧
      raw.history.map RawEntry.state =
        (s.upTo ++ [JournalState.recoveryRequired]).map (fun s => .str s.value) ∧
      statesWritten failedRun.2.trace = s.upTo ++ [.recoveryRequired] ∧
      trades failedRun.2.trace = ts ++ pend ∧ Accounts (sampleMon 0) g ts ∧ pend.length ≤ 1 ∧
      s ∈ g.states ∧ raw.pokemon = JournalRecord.rawPokemon (g.hashes (sampleMon 0)) ∧
      raw.locations = JournalRecord.rawLocations s.locations := by
  have heval : failedRun.1 = .error ⟨.endpointError, "no adapter"⟩ ∧
      failedRun.2.trace.all Event.tame = true := by
    decide +kernel
  have hrun : Prog.Finish Step (TradeCoordinator.execute sampleStore (sampleMon 0)).run
      ⟨emptyDisk, []⟩ failedRun.1 failedRun.2 := Script.play_finish _ _ _ _
  rw [heval.1] at hrun
  exact execute_raise_is_recorded sampleStore rfl (by decide +kernel) hrun (tame_of_all heval.2)

/-! ## §3 — which received records are on disk. -/

/-- The record that an irreversible trade brought: it came back with the commit confirmed. -/
def Trade.committed? (t : Trade) : Option Pokemon100 :=
  match t.outcome with
  | .raised _ => none
  | .switchResult r => if r.commitConfirmed then some r.receivedMon else none
  | .gbaResult r => if r.commitConfirmed then some r.receivedMon else none

/-- Every record that the broker got irreversibly is in the artifact directory of the transaction
that the journal names. -/
def Preserved (v : World) : Prop :=
  ∀ t ∈ trades v.trace, ∀ m, t.committed? = some m →
    ∃ text raw path, v.disk.journal = some text ∧ text.load journal = .ok raw ∧
      path.transactionId = raw.transactionId ∧ v.disk.artifacts path = some m.raw

/-- The checks in front of the write, for the trade number `n`. -/
def Trade.Passes (n : Nat) (t : Trade) : Prop :=
  match n, t.outcome with
  | 0, .switchResult r => r.offeredMon = t.offered ∧ r.receivedMon.holdsMail = false
  | 1, .gbaResult r => r.offeredMon = t.offered ∧ (0 ≤ r.selectedSlot ∧ r.selectedSlot ≤ 5) ∧
      r.linkClosed = true ∧ r.receivedMon.holdsMail = false
  | 2, .switchResult r => r.offeredMon = t.offered
  | _, _ => False

/-- Nothing raises between an irreversible trade and the write of what it brought: the hook that is
called directly behind it returns, and its result passes the checks of its stage.  Both clauses ask
this of confirmed results only.  Behind a result without the commit the hook may raise and the checks
may fail: no console has given anything away there, so nothing can be lost. -/
structure Undisturbed (tr : List Event) : Prop where
  hooks : ∀ t : Trade, t.committed?.isSome = true → ¬ HookRaised t tr
  checks : ∀ (n : Nat) (t : Trade), (trades tr)[n]? = some t → t.committed?.isSome = true → t.Passes n

/-- The number of trades that a progress has behind it. -/
def Progress.stage : Progress → Nat
  | .start => 0
  | .gotB _ => 1
  | .gotA _ _ _ => 2
  | .gotP _ _ _ _ => 3

/-- A settled trade adds its record to the artifacts, as the one file of its label. -/
theorem settle_records {P : Pokemon100} {g g' : Progress} {t : Trade} {m : Pokemon100}
    (h : g.settle P t.outcome = some g') (hm : t.committed? = some m) :
    g'.stage = g.stage + 1 ∧ ∃ label, g'.records P = g.records P ++ [(label, m)] := by
  unfold Trade.committed? at hm
  cases g' with
  | start => exact absurd h settle_ne_start
  | gotB b =>
      obtain ⟨rfl, r, ho, _, hc, _, hr⟩ := settle_gotB h
      rw [ho] at hm
      obtain rfl : r.receivedMon = m := by simpa [hc] using hm
      exact ⟨rfl, "B", by rw [← hr]; rfl⟩
  | gotA b a slot =>
      obtain ⟨rfl, r, ho, _, hc, _, _, _, hr, _⟩ := settle_gotA h
      rw [ho] at hm
      obtain rfl : r.receivedMon = m := by simpa [hc] using hm
      exact ⟨rfl, "A", by rw [← hr]; rfl⟩
  | gotP b a slot returned =>
      obtain ⟨rfl, r, ho, _, hc, hr⟩ := settle_gotP h
      rw [ho] at hm
      obtain rfl : r.receivedMon = m := by simpa [hc] using hm
      exact ⟨rfl, "P_RETURNED", by rw [← hr]; rfl⟩

/-- A trade that settles was committed, so a record that was received irreversibly is settled or pending. -/
theorem committed_of_settle {P : Pokemon100} {g g' : Progress} {t : Trade}
    (h : g.settle P t.outcome = some g') : ∃ m, t.committed? = some m := by
  unfold Trade.committed?
  cases g' with
  | start => exact absurd h settle_ne_start
  | gotB b =>
      obtain ⟨_, r, ho, _, hc, _⟩ := settle_gotB h
      exact ⟨r.receivedMon, by simp [ho, hc]⟩
  | gotA b a slot =>
      obtain ⟨_, r, ho, _, hc, _⟩ := settle_gotA h
      exact ⟨r.receivedMon, by simp [ho, hc]⟩
  | gotP b a slot returned =>
      obtain ⟨_, r, ho, _, hc, _⟩ := settle_gotP h
      exact ⟨r.receivedMon, by simp [ho, hc]⟩

/-- The settled trades of a progress are as many as its stage, and each has its record on the
shelf. -/
theorem Accounts.records_mem {P : Pokemon100} {g : Progress} {ts : List Trade}
    (h : Accounts P g ts) :
    ts.length = g.stage ∧ ∀ t ∈ ts, ∀ m, t.committed? = some m → ∃ label, (label, m) ∈ g.records P := by
  induction h with
  | start => exact ⟨rfl, by simp⟩
  | @settle g g' ts t _ _ hset ih =>
      obtain ⟨m', hm'⟩ := committed_of_settle hset
      obtain ⟨hstage, label, hrec⟩ := settle_records hset hm'
      refine ⟨by rw [List.length_append, ih.1, hstage]; rfl, ?_⟩
      intro t' ht' m hm
      rw [hrec]
      rcases List.mem_append.mp ht' with ht' | ht'
      · obtain ⟨label', hl⟩ := ih.2 t' ht' m hm
        exact ⟨label', List.mem_append_left _ hl⟩
      · obtain rfl : t' = t := by simpa using ht'
        obtain rfl := Option.some.inj (hm'.symm.trans hm)
        exact ⟨label, by simp⟩

/-- A committed result of the requested trade that passes the checks of its stage settles it. -/
theorem Requested.settles {P : Pokemon100} {g : Progress} {t : Trade} (h : Requested P g t)
    (hp : t.Passes g.stage) (hc : t.committed?.isSome = true) :
    ∃ g', g.settle P t.outcome = some g' := by
  unfold Trade.Passes at hp
  unfold Trade.committed? at hc
  cases g with
  | start =>
      have hoff := (h.call rfl).2
      cases ho : t.outcome with
      | switchResult r =>
          simp only [ho, Progress.stage] at hp hc
          refine ⟨.gotB r.receivedMon, ?_⟩
          simp only [Progress.settle]
          rw [if_pos ⟨hp.1.trans hoff, by simpa using hc, hp.2⟩]
      | raised e => simp [ho, Progress.stage] at hp
      | gbaResult r => simp [ho, Progress.stage] at hp
  | gotB b =>
      have hoff := (h.call rfl).2
      cases ho : t.outcome with
      | gbaResult r =>
          simp only [ho, Progress.stage] at hp hc
          refine ⟨.gotA b r.receivedMon r.selectedSlot, ?_⟩
          simp only [Progress.settle]
          rw [if_pos ⟨hp.1.trans hoff, by simpa using hc, hp.2.1, hp.2.2.1, hp.2.2.2⟩]
      | raised e => simp [ho, Progress.stage] at hp
      | switchResult r => simp [ho, Progress.stage] at hp
  | gotA b a slot =>
      have hoff := (h.call rfl).2
      cases ho : t.outcome with
      | switchResult r =>
          simp only [ho, Progress.stage] at hp hc
          refine ⟨.gotP b a slot r.receivedMon, ?_⟩
          simp only [Progress.settle]
          rw [if_pos ⟨hp.trans hoff, by simpa using hc⟩]
      | raised e => simp [ho, Progress.stage] at hp
      | gbaResult r => simp [ho, Progress.stage] at hp
  | gotP b a slot returned => exact absurd hp (by simp [Progress.stage])

/-- A position whose pending trade, if it was not recorded, was disturbed. -/
theorem Position.preserved {a0 : ArtifactPath → Option Bytes} {P : Pokemon100} {g ga : Progress}
    {pend : List Trade} {r : JournalRecord} {w : World} (h : Position a0 P g pend ga r w)
    (hj : JournalIs r w.disk.journal) (hu : Undisturbed w.trace)
    (hun : ga = g → ∀ t ∈ pend, Unsettled P g t w.trace) : Preserved journal w := by
  have hload : ∃ text raw, w.disk.journal = some text ∧ text.load journal = .ok raw ∧
      raw.transactionId = r.transactionId := by
    rcases hj with hj | ⟨_, now, error, hj⟩
    · exact ⟨_, _, hj, load_document journal h.booked, rfl⟩
    · exact ⟨_, _, hj, load_recovered journal h.booked now error, rfl⟩
  obtain ⟨text, raw, htext, hraw, htx⟩ := hload
  obtain ⟨ts, hts, hacc⟩ := h.accounts
  obtain ⟨hlen, hmem⟩ := hacc.records_mem
  intro t ht m hm
  suffices hrec : ∃ label, (label, m) ∈ ga.records P by
    obtain ⟨label, hrec⟩ := hrec
    refine ⟨text, raw, ⟨r.transactionId, label, m.sha256⟩, htext, hraw, htx.symm, ?_⟩
    rw [h.shelf_eq]
    exact shelf_get hrec
  rw [hts] at ht
  rcases List.mem_append.mp ht with ht | ht
  · -- A settled trade: its record is on the shelf of `g`, and the shelf only grows.
    obtain ⟨label, hrec⟩ := hmem t ht m hm
    rcases h.shelved with rfl | ⟨t', _, hset⟩
    · exact ⟨label, hrec⟩
    · obtain ⟨m', hm'⟩ := committed_of_settle hset
      obtain ⟨_, label', hrec'⟩ := settle_records hset hm'
      exact ⟨label, by rw [hrec']; exact List.mem_append_left _ hrec⟩
  · rcases h.pending with rfl | ⟨t', rfl, hreq, _⟩
    · exact absurd ht (by simp)
    obtain rfl : t = t' := by simpa using ht
    have hpasses : t.Passes g.stage := by
      refine hu.checks g.stage t ?_ (by rw [hm]; rfl)
      rw [hts, ← hlen]
      simp
    obtain ⟨g', hset⟩ := hreq.settles hpasses (by rw [hm]; rfl)
    obtain ⟨_, label, hrec⟩ := settle_records hset hm
    rcases h.shelved with rfl | ⟨t', ht', hset'⟩
    · -- Not saved: then it was not settled, or the hook raised.
      rcases hun rfl t (by simp) with hnone | hraised
      · rw [hset] at hnone
        exact absurd hnone (by simp)
      · exact absurd hraised (hu.hooks t (by rw [hm]; rfl))
    · obtain rfl : t = t' := by simpa using ht'
      obtain rfl := Option.some.inj (hset.symm.trans hset')
      exact ⟨label, by rw [hrec]; simp⟩

/-- **Which records survive.**  On a working file system, in every run in which nothing raises
between an irreversible trade and the write that follows it, every record that was received
irreversibly is on disk when `execute` ends, whatever it ends with. -/
theorem undisturbed_run_preserves {d : Disk} {P : Pokemon100}
    {result : Except Exc TransactionOutcome} {v : World}
    (hf : Prog.Finish Step (TradeCoordinator.execute journal P).run ⟨d, []⟩ result v)
    (hio : .ioError ∉ v.trace) (hu : Undisturbed v.trace) : Preserved journal v := by
  cases hd : d.journal with
  | some text =>
      have hkept := (Act.Sat.finish (TradeCoordinator.execute_blocked_sat journal hd P) hf).1
      intro t ht
      rw [trades_of_idle (idle_of_isFile (P := P) hkept.local_)] at ht
      exact absurd ht (by simp)
  | none =>
      obtain ⟨_, hpost⟩ := Act.Sat.finish (TradeCoordinator.execute_sat journal d hd P) hf
      cases result with
      | ok outcome =>
          obtain ⟨b, a, slot, r, hpos, hj, _⟩ := hpost
          exact hpos.preserved journal (Or.inl hj) hu fun _ t ht => absurd ht (by simp)
      | error e =>
          rcases hpost with ⟨_, htrace⟩ | hfailed
          · intro t ht
            rw [htrace] at ht
            exact absurd ht (by simp [trades])
          · obtain ⟨g, pend, ga, r, hpos, hj, hunsettled⟩ := hfailed.position hio
            exact hpos.preserved journal hj hu hunsettled

instance Trade.decidablePasses : (n : Nat) → (t : Trade) → Decidable (t.Passes n)
  | 0, ⟨_, offered, _, .switchResult r, _⟩ =>
      inferInstanceAs (Decidable (r.offeredMon = offered ∧ r.receivedMon.holdsMail = false))
  | 1, ⟨_, offered, _, .gbaResult r, _⟩ =>
      inferInstanceAs (Decidable (r.offeredMon = offered ∧
        (0 ≤ r.selectedSlot ∧ r.selectedSlot ≤ 5) ∧ r.linkClosed = true ∧
        r.receivedMon.holdsMail = false))
  | 2, ⟨_, offered, _, .switchResult r, _⟩ => inferInstanceAs (Decidable (r.offeredMon = offered))
  | 0, ⟨_, _, _, .raised _, _⟩ => inferInstanceAs (Decidable False)
  | 0, ⟨_, _, _, .gbaResult _, _⟩ => inferInstanceAs (Decidable False)
  | 1, ⟨_, _, _, .raised _, _⟩ => inferInstanceAs (Decidable False)
  | 1, ⟨_, _, _, .switchResult _, _⟩ => inferInstanceAs (Decidable False)
  | 2, ⟨_, _, _, .raised _, _⟩ => inferInstanceAs (Decidable False)
  | 2, ⟨_, _, _, .gbaResult _, _⟩ => inferInstanceAs (Decidable False)
  | _ + 3, _ => inferInstanceAs (Decidable False)

theorem undisturbed_of_passes {tr : List Event} (h : raised tr = [])
    (hc : (trades tr).zipIdx.all (fun tn => decide (tn.1.Passes tn.2)) = true) :
    Undisturbed tr := by
  refine ⟨?_, ?_⟩
  · rintro t _ ⟨b, e, _, hin⟩
    have hm : Event.faultHook b (.error e) ∈ tr := hin.subset (by simp)
    have hr : e ∈ raised tr := List.mem_filterMap.mpr ⟨_, hm, rfl⟩
    rw [h] at hr
    exact absurd hr (by simp)
  · intro n t ht _
    rw [List.all_eq_true] at hc
    have hmem : (t, n) ∈ (trades tr).zipIdx := List.mem_zipIdx_iff_getElem?.mpr ht
    exact of_decide_eq_true (hc _ hmem)

theorem undisturbed_run_preserves_goodRun :
    .ioError ∉ goodRun.2.trace ∧ Undisturbed goodRun.2.trace ∧ (trades goodRun.2.trace).length = 3 ∧
      Preserved sampleStore goodRun.2 := by
  obtain ⟨_, htame, hraised, _⟩ := goodRun_eval
  obtain ⟨_, _, _, htrades⟩ := goodRun_trades
  have hio : .ioError ∉ goodRun.2.trace := (tame_of_all htame).1
  have hu : Undisturbed goodRun.2.trace := by
    have hfree : (sampleMon 1).holdsMail = false ∧ (sampleMon 2).holdsMail = false := by
      decide +kernel
    refine undisturbed_of_passes hraised ?_
    rw [htrades]
    simp [Trade.Passes, hfree.1, hfree.2]
  exact ⟨hio, hu, by rw [htrades]; rfl,
    undisturbed_run_preserves sampleStore goodRun_finish hio hu⟩

/-! ### the record that is lost -/

/-- What is in an artifact file was there before or was installed by the run. -/
theorem artifacts_installed {α : Type} {p q : Prog Op Ret α} {d : Disk} {v : World}
    (hr : Prog.Reach Step p ⟨d, []⟩ q v) {path : ArtifactPath} {bytes : Bytes}
    (h : v.disk.artifacts path = some bytes) :
    d.artifacts path = some bytes ∨ .installed (.artifact path bytes) ∈ v.trace := by
  let I : World → Prop := fun w => ∀ path bytes, w.disk.artifacts path = some bytes →
    d.artifacts path = some bytes ∨ .installed (.artifact path bytes) ∈ w.trace
  refine Prog.Reach.inv (I := I) ?_ hr (fun path bytes hp => Or.inl hp) path bytes h
  intro w op r w' hs hw path bytes hp
  have hold : w.disk.artifacts path = some bytes → ∀ evs,
      d.artifacts path = some bytes ∨ .installed (.artifact path bytes) ∈ w.trace ++ evs := by
    intro hb evs
    rcases hw path bytes hb with hb | hb
    · exact Or.inl hb
    · exact Or.inr (List.mem_append_left _ hb)
  rcases hs.disk with ⟨hdisk, evs, htrace, _⟩ | ⟨target, _, rfl⟩
  · rw [hdisk] at hp
    rw [htrace]
    exact hold hp evs
  · cases target with
    | journal text => exact hold hp _
    | artifact path' bytes' =>
        have hp : Function.update w.disk.artifacts path' (some bytes') path = some bytes := hp
        by_cases hpath : path = path'
        · subst hpath
          rw [Function.update_self] at hp
          obtain rfl := Option.some.inj hp
          exact Or.inr (by simp)
        · rw [Function.update_of_ne hpath] at hp
          exact hold hp _

/-- A record that holds the first Mail item. -/
def mailMon : Pokemon100 :=
  ⟨List.replicate 34 0 ++ [121] ++ List.replicate 65 0, by simp⟩

/-- The Switch gives away a record that holds mail, and confirms the commit. -/
def mailRun : Except Exc TransactionOutcome × World :=
  (Script.exchange mailMon (sampleMon 1) (sampleMon 0)).play sampleStore (sampleMon 0) emptyDisk

/-- The event does not put `bytes` into an artifact file. -/
def Event.sparesArtifact (bytes : Bytes) : Event → Bool
  | .installed (.artifact _ written) => decide (written ≠ bytes)
  | _ => true

/-- **A refused record is lost.**  The trade is confirmed, `refuse_mail` raises, and no artifact
file has the bytes of the record that the Switch no longer holds. -/
theorem refused_mail_is_lost :
    Prog.Finish Step (TradeCoordinator.execute sampleStore (sampleMon 0)).run ⟨emptyDisk, []⟩
        mailRun.1 mailRun.2 ∧
      .ioError ∉ mailRun.2.trace ∧
      (∃ t ∈ trades mailRun.2.trace, t.committed? = some mailMon) ∧
      (∀ path, mailRun.2.disk.artifacts path ≠ some mailMon.raw) ∧
      ¬ Preserved sampleStore mailRun.2 := by
  have hrun : Prog.Finish Step (TradeCoordinator.execute sampleStore (sampleMon 0)).run
      ⟨emptyDisk, []⟩ mailRun.1 mailRun.2 := Script.play_finish _ _ _ _
  have heval : (trades mailRun.2.trace).any (fun t => decide (t.committed? = some mailMon)) = true ∧
      mailRun.2.trace.all (Event.sparesArtifact mailMon.raw) = true ∧
      mailRun.2.trace.all Event.tame = true := by
    decide +kernel
  have htrade : ∃ t ∈ trades mailRun.2.trace, t.committed? = some mailMon := by
    obtain ⟨t, ht, hm⟩ := List.any_eq_true.mp heval.1
    exact ⟨t, ht, of_decide_eq_true hm⟩
  have habsent : ∀ path, mailRun.2.disk.artifacts path ≠ some mailMon.raw := by
    intro path hp
    rcases artifacts_installed hrun hp with hp | hp
    · exact absurd hp (by simp [emptyDisk])
    · have := List.all_eq_true.mp heval.2.1 _ hp
      simp [Event.sparesArtifact] at this
  refine ⟨hrun, (tame_of_all heval.2.2).1, htrade, habsent, ?_⟩
  intro hpres
  obtain ⟨t, ht, hm⟩ := htrade
  obtain ⟨_, _, path, _, _, _, hp⟩ := hpres t ht mailMon hm
  exact habsent path hp

end TradeBroker
