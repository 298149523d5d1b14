/-
# TradeBroker.Broker.Main — the exit status of the command line, and what it says of the journal.

`broker/main.py` from the point where the placeholder and the endpoints are there.  `main` picks its
exit status from the CLASS of the exception that leaves `execute`: 2 for `RecoveryRequired`, 1 for
any other `BrokerError`, a traceback for the rest.  The journal is closed with `RECOVERY_REQUIRED`
for ANY `Exception`.  The two agree when an earlier journal is found, because the restart guard
raises `RecoveryRequired` itself; after a trade of its own the program reports recovery only if that
is what the endpoint happened to raise, or if the returned placeholder is the wrong one.

`recovery_reported_iff` is the exact condition, on any file system (`Reportable`):

* Where a journal was there before, a failing file-system call must not find it in recovery, and must
  not come after the guard has put the closed journal in its place (`Spared`).
* Where there was none, nothing that `main` reports as an error may come in front of an `os.replace`
  of the journal that goes through (`WhenWritten Untroubled`): no failed file-system call, no exception
  of another class, no refused result.  The walk supplies both halves of this: every journal of the
  main line is written while the accounts are balanced, and the closed one is the last
  (`Aftermath`, `Blamed`).

Two runs break it.  In `adapter_lost_exits_with_one` the GBA adapter is not there, in
`full_disk_exits_with_one` the disk is full for a moment: the journal asks for recovery both times,
and the command line says `ERROR` and exits with 1.
-/
import TradeBroker.Broker.Safety

namespace TradeBroker

open Lib

/-! ## §1 — `main`. -/

namespace Exc

/-- `except BrokerError` catches it. -/
def isBrokerError (e : Exc) : Bool :=
  match e.type with
  | .osError => false
  | .fileNotFoundError => false
  | .unicodeEncodeError => false
  | .unicodeDecodeError => false
  | .attributeError => false
  | .foreign _ _ => false
  | _ => true

end Exc

/-- How the process ends: the status and what `main` printed to `stderr`, or an exception that
nothing caught. -/
inductive Exit where
  | returned (status : Int) (stderr : PyStr)
  | uncaught (e : Exc)
  deriving DecidableEq

/-- The `except` clauses of `main`. -/
def exitOf : Except Exc Unit → Exit
  | .ok () => .returned 0 []
  | .error e =>
      if e.isRecoveryRequired then .returned 2 ("RECOVERY_REQUIRED: " ++ e.text)
      else if e.isBrokerError then .returned 1 ("ERROR: " ++ e.text)
      else .uncaught e

/-- `_demo_mon(label)`, the label given by its code. -/
def demoMon (label : UInt8) : Pokemon100 := ⟨(List.replicate 100 0).set 8 label, by simp⟩

/-- `assert condition`. -/
def assertThat (condition : Bool) : Broker Unit :=
  if condition then pure () else throw ⟨.foreign "AssertionError" true, []⟩

/-- What is left to run once `--status` is out of the way.  The mock demo looks at what the two mock
endpoints own when `execute` is back. -/
inductive Mode where
  | mockDemo (gbaOwned switchOwned : Pokemon100)
  | real (placeholder : Pokemon100)

/-- The assertions of `_run_mock` on what the three parties own. -/
def assertSwapped (gbaOwned switchOwned brokerOwned : Pokemon100) : Broker Unit := do
  assertThat (decide (gbaOwned = demoMon 66))
  assertThat (decide (switchOwned = demoMon 65))
  assertThat (decide (brokerOwned = demoMon 80))

namespace Mode

def placeholder : Mode → Pokemon100
  | .mockDemo _ _ => demoMon 80
  | .real placeholder => placeholder

/-- What follows `execute`: `_run_mock` asserts, `_run_real` does not. -/
def afterwards : Mode → TransactionOutcome → Broker Unit
  | .mockDemo gbaOwned switchOwned, outcome =>
      assertSwapped gbaOwned switchOwned outcome.brokerMon
  | .real _, _ => pure ()

/-- `_run_mock` and `_run_real`, from the call of `execute` on. -/
def run (journal : JournalStore) (mode : Mode) : Broker Unit := do
  let outcome ← TradeCoordinator.execute journal mode.placeholder
  mode.afterwards outcome

end Mode

/-- `main`, for a run that is not a status query. -/
def main (journal : JournalStore) (mode : Mode) : Prog Op Ret Exit := do
  let ended ← (mode.run journal).run
  pure (exitOf ended)

/-- The durable journal loads, and asks for recovery. -/
def InRecovery (journal : JournalStore) (d : Disk) : Prop :=
  ∃ text raw, d.journal = some text ∧ text.load journal = .ok raw ∧ raw.state = .recoveryRequired

/-- What the command line owes its user: a journal that asks for recovery is reported as such. -/
def ReportsRecovery (journal : JournalStore) (exit : Exit) (d : Disk) : Prop :=
  InRecovery journal d → ∃ text, exit = .returned 2 ("RECOVERY_REQUIRED: " ++ text)

/-- The report depends on the class of the exception alone. -/
theorem reportsRecovery_error {journal : JournalStore} {e : Exc} {d : Disk} :
    ReportsRecovery journal (exitOf (.error e)) d ↔
      (InRecovery journal d → e.isRecoveryRequired = true) := by
  refine forall_congr' fun _ => ?_
  by_cases he : e.isRecoveryRequired = true
  · have hexit : exitOf (.error e) = .returned 2 ("RECOVERY_REQUIRED: " ++ e.text) := if_pos he
    rw [hexit]
    exact ⟨fun _ => he, fun _ => ⟨e.text, rfl⟩⟩
  · have hexit : ∀ text, exitOf (.error e) ≠ .returned 2 text := by
      intro text
      show (if e.isRecoveryRequired then _ else if e.isBrokerError then _ else _) ≠ _
      rw [if_neg he]
      split <;> simp
    exact ⟨fun ⟨text, htext⟩ => absurd htext (hexit _), fun hc => absurd hc he⟩

/-! ## §2 — what may stand in front of a journal. -/

/-- What trade number `n` came back with passes the checks of its stage, if it came back at all. -/
def Trade.Accepted (n : Nat) (t : Trade) : Prop :=
  (∃ e, t.outcome = .raised e) ∨ (t.committed?.isSome = true ∧ t.Passes n)

/-- So far nothing has happened that `main` would report as anything else than recovery: no
file-system call has failed, whatever was raised asks for recovery by its class, and every trade
result passes the checks.  (The one refusal that is missing here, a placeholder that came back
changed, does ask for recovery.) -/
structure Untroubled (tr : List Event) : Prop where
  files : .ioError ∉ tr
  raises : ∀ e ∈ raised tr, e.isRecoveryRequired = true
  results : ∀ (n : Nat) (t : Trade), (trades tr)[n]? = some t → t.Accepted n

theorem Untroubled.of_append {tr tr' : List Event} (h : Untroubled (tr ++ tr')) : Untroubled tr where
  files := fun hm => h.files (List.mem_append_left _ hm)
  raises := by
    intro e he
    refine h.raises e ?_
    rw [raised_append]
    exact List.mem_append_left _ he
  results := by
    intro n t ht
    refine h.results n t ?_
    obtain ⟨hn, -⟩ := List.getElem?_eq_some_iff.mp ht
    rw [trades_append, List.getElem?_append_left hn]
    exact ht

/-- Nothing in front of any journal either. -/
theorem Untroubled.written {tr : List Event} (h : Untroubled tr) : WhenWritten Untroubled tr := by
  rintro pre text ⟨rest, rfl⟩
  rw [List.append_assoc] at h
  exact h.of_append

section Accepted

variable {P : Pokemon100} {g g' : Progress} {t : Trade} {ts : List Trade}

/-- The trade that settled a progress passed the checks of its stage. -/
theorem Requested.accepted (h : Requested P g t) (hset : g.settle P t.outcome = some g') :
    t.Accepted g.stage := by
  obtain ⟨m, hm⟩ := committed_of_settle hset
  refine Or.inr ⟨by rw [hm]; rfl, ?_⟩
  unfold Trade.Passes
  cases g' with
  | start => exact absurd hset settle_ne_start
  | gotB b =>
      obtain ⟨rfl, r, ho, hoff, _, hmail, _⟩ := settle_gotB hset
      rw [ho]
      exact ⟨hoff.trans (h.call rfl).2.symm, hmail⟩
  | gotA b a slot =>
      obtain ⟨rfl, r, ho, hoff, _, hslot, hclosed, hmail, _⟩ := settle_gotA hset
      rw [ho]
      exact ⟨hoff.trans (h.call rfl).2.symm, hslot, hclosed, hmail⟩
  | gotP b a slot returned =>
      obtain ⟨rfl, r, ho, hoff, _⟩ := settle_gotP hset
      rw [ho]
      exact hoff.trans (h.call rfl).2.symm

/-- Trades that are accounted for were all accepted. -/
theorem Accounts.accepted (h : Accounts P g ts) :
    ∀ (n : Nat) (t : Trade), ts[n]? = some t → t.Accepted n := by
  induction h with
  | start =>
      intro n t ht
      exact absurd ht (by simp)
  | @settle g g' ts t hacc hreq hset ih =>
      intro n t' ht'
      rw [List.getElem?_append] at ht'
      split at ht'
      · exact ih n t' ht'
      · rename_i hn
        obtain ⟨hlen, hget⟩ := List.getElem?_eq_some_iff.mp ht'
        have hlen : n - ts.length = 0 := by simpa using hlen
        obtain rfl : n = ts.length := by omega
        obtain rfl : t = t' := by simpa using hget
        rw [hacc.records_mem.1]
        exact hreq.accepted hset

/-- A result that did not settle its trade did not pass. -/
theorem Requested.not_accepted (h : Requested P g t) (hset : g.settle P t.outcome = none)
    (hr : ∀ e, t.outcome ≠ .raised e) : ¬ t.Accepted g.stage := by
  rintro (⟨e, he⟩ | ⟨hcom, hpass⟩)
  · exact hr e he
  · obtain ⟨g', hg'⟩ := h.settles hpass hcom
    rw [hset] at hg'
    exact absurd hg' (by simp)

end Accepted

theorem Balanced.untroubled {P : Pokemon100} {tr : List Event} (h : Balanced P tr) : Untroubled tr where
  files := h.noFault
  raises := by simp [h.noRaise]
  results := by
    obtain ⟨g, hacc⟩ := h.accounts
    exact hacc.accepted

/-- **The class of the exception.**  Where no hook raised, the body raised a request for recovery
exactly when nothing else went wrong. -/
theorem Blamed.untroubled_iff {P : Pokemon100} {e : Exc} {tr : List Event} (h : Blamed P e tr)
    (hsame : ∀ e' ∈ raised tr, e' = e) (hhook : ∀ b e', Event.faultHook b (.error e') ∉ tr) :
    Untroubled tr ↔ e.isRecoveryRequired = true := by
  obtain ⟨g, pend, ts, htrades, hacc, hreq, hcause⟩ := h
  cases hcause with
  | write hio he =>
      refine iff_of_false (fun hu => hu.files hio) ?_
      rw [he.unreported]
      exact Bool.false_ne_true
  | call hio hraised hpend =>
      constructor
      · intro hu
        exact hu.raises e hraised
      · intro he
        refine ⟨hio, fun e' he' => by rw [hsame e' he']; exact he, ?_⟩
        intro n t ht
        rw [htrades, List.getElem?_append] at ht
        split at ht
        · exact hacc.accepted n t ht
        · -- The trade that raised, or one whose hook did.
          rcases hpend t (List.mem_of_getElem? ht) with hraise | ⟨b, e', _, hin⟩
          · exact Or.inl ⟨e, hraise⟩
          · exact absurd (hin.subset (by simp)) (hhook b e')
  | check hio hquiet href =>
      rcases href.reason with ⟨he, t, rfl, hset⟩ | ⟨he, rfl⟩
      · -- A refused result is the last trade.
        refine iff_of_false ?_ (by rw [he]; exact Bool.false_ne_true)
        intro hu
        have hlast : (trades tr)[g.stage]? = some t := by
          rw [htrades, ← hacc.records_mem.1]
          simp
        refine (hreq t (by simp)).not_accepted hset ?_ (hu.results _ t hlast)
        intro e' he'
        have hmem : t ∈ trades tr := List.mem_of_getElem? hlast
        obtain ⟨ev, hev, ht⟩ := List.mem_filterMap.mp hmem
        have hraised : e' ∈ raised tr := by
          refine List.mem_filterMap.mpr ⟨ev, hev, ?_⟩
          cases ev with
          | trade t' =>
              obtain rfl : t' = t := Option.some.inj ht
              obtain ⟨c, o, d, out, sw⟩ := t'
              obtain rfl : out = .raised e' := he'
              rfl
          | _ => cases ht
        rw [hquiet] at hraised
        exact absurd hraised (by simp)
      · refine iff_of_true ⟨hio, by simp [hquiet], ?_⟩ he
        rw [htrades, List.append_nil]
        exact hacc.accepted

section Report

-- Programs are compared by running them: keep the bytes of a record out of that.
attribute [local irreducible] Pokemon100.heldItem

/-! ## §3 — a journal that was there before. -/

/-- What an earlier journal asks of the file system: when one of its calls fails, the journal must
neither have asked for recovery before, nor be replaced by a closed one that loads.  The guard raises
what the failing call made of itself then, and not its own `RecoveryRequired`. -/
def Spared (journal : JournalStore) (d : Disk) (tr : List Event) : Prop :=
  .ioError ∈ tr → ¬ InRecovery journal d ∧
    ∀ text, .installed (.journal text) ∈ tr → ∀ raw, text.load journal ≠ .ok raw

/-- The exception and the disk of a run agree as they should exactly when the journal that was there
before is spared. -/
def GuardReports (journal : JournalStore) (d : Disk) (e : Exc) (v : World) : Prop :=
  (InRecovery journal v.disk → e.isRecoveryRequired = true) ↔ Spared journal d v.trace

section GuardReports

variable {journal : JournalStore} {d : Disk} {e : Exc} {v : World}

/-- No call failed. -/
theorem GuardReports.quiet (hio : .ioError ∉ v.trace)
    (h : InRecovery journal v.disk → e.isRecoveryRequired = true) : GuardReports journal d e v :=
  iff_of_true h fun hm => absurd hm hio

/-- A call failed, and the journal is the one that was there. -/
theorem GuardReports.untouched (he : e.Ordinary) (hio : .ioError ∈ v.trace)
    (hj : v.disk.journal = d.journal) (ht : ∀ text, .installed (.journal text) ∉ v.trace) :
    GuardReports journal d e v := by
  have hsame : InRecovery journal v.disk ↔ InRecovery journal d := by
    unfold InRecovery
    rw [hj]
  rw [GuardReports, hsame, he.unreported]
  constructor
  · intro h _
    exact ⟨fun hrec => absurd (h hrec) (by simp), fun text hm => absurd hm (ht text)⟩
  · intro h hrec
    exact absurd hrec (h hio).1

/-- A call failed after the closed journal was put in place. -/
theorem GuardReports.closed {r : RawRecord} (he : e.Ordinary) (hio : .ioError ∈ v.trace)
    (hrec : ¬ InRecovery journal d) (hstate : r.state = .recoveryRequired)
    (hj : v.disk.journal = some (.json (.obj r.asJsonDict)))
    (ht : ∀ text, .installed (.journal text) ∈ v.trace ↔ text = .json (.obj r.asJsonDict)) :
    GuardReports journal d e v := by
  rw [GuardReports, he.unreported]
  constructor
  · intro h _
    refine ⟨hrec, ?_⟩
    intro text hm raw hload
    obtain rfl := (ht text).mp hm
    have hs : raw.state = .recoveryRequired := (RawRecord.state_of_fromJsonDict hload).trans hstate
    exact absurd (h ⟨_, raw, hj, hload, hs⟩) (by simp)
  · rintro h ⟨text, raw, htext, hload, -⟩
    obtain rfl := Option.some.inj (hj.symm.trans htext)
    exact absurd hload ((h hio).2 _ ((ht _).mpr rfl) raw)

/-- Calls failed and nothing else happened. -/
theorem GuardReports.faults (he : e.Ordinary) {n : Nat} (hn : 0 < n) :
    GuardReports journal d e ((⟨d, []⟩ : World).faults n) :=
  .untouched he (ioError_mem_faults _ hn) rfl (by simp [World.faults, List.mem_replicate])

end GuardReports

namespace JournalStore

/-- A journal that does not load does not ask for recovery. -/
theorem not_inRecovery {self : JournalStore} {d : Disk} {text : JournalText} {e : Exc}
    (hd : d.journal = some text) (hload : text.load self = .error e) : ¬ InRecovery self d := by
  rintro ⟨text', raw, htext', hraw, -⟩
  obtain rfl := Option.some.inj (hd.symm.trans htext')
  rw [hload] at hraw
  exact absurd hraw (by simp)

section Guard

variable {self : JournalStore} {d : Disk} {text : JournalText} {raw : RawRecord}

/-- A journal that loads and is not closed does not ask for recovery yet. -/
theorem not_inRecovery_of_open (hd : d.journal = some text) (hload : text.load self = .ok raw)
    (hopen : raw.state.terminal = false) : ¬ InRecovery self d := by
  rintro ⟨text', raw', htext', hload', hstate⟩
  obtain rfl : text = text' := Option.some.inj (hd.symm.trans htext')
  obtain rfl : raw = raw' := Except.ok.inj (hload.symm.trans hload')
  rw [hstate] at hopen
  exact absurd hopen (by simp [JournalState.terminal])

/-- The journal was closed for recovery, and calls failed behind it. -/
theorem guardReports_restarted (hrec : ¬ InRecovery self d) (now : PyStr) {e : Exc} (he : e.Ordinary) {n : Nat}
    (hn : 0 < n) : GuardReports self d e (World.faults (World.install ⟨d, []⟩
      (.journal (.json (.obj (raw.restarted now).asJsonDict)))) n) := by
  refine .closed (r := raw.restarted now) he (ioError_mem_faults _ hn) hrec rfl rfl ?_
  intro text'
  simp [World.faults, List.mem_replicate]

/-- **Closing the journal**: a terminal one is left alone, an open one is closed; a call that fails leaves the
disk as it was or with the closed journal on it. -/
theorem markRestart_reports_sat (hd : d.journal = some text) (hload : text.load self = .ok raw) :
    Act.Sat Step (fun _ => True) (self.markRestart raw) ⟨d, []⟩
      (fun _ v => v = ⟨d, []⟩ ∨ (raw.state.terminal = false ∧ ∃ now,
        v = World.install ⟨d, []⟩ (.journal (.json (.obj (raw.restarted now).asJsonDict)))))
      (fun e v => GuardReports self d e v) := by
  unfold markRestart
  by_cases hterm : raw.state.terminal = true
  · rw [if_pos hterm]
    exact Act.Sat.pure trivial (Or.inl rfl)
  · rw [if_neg hterm]
    have hterm : raw.state.terminal = false := by simpa using hterm
    have hrec := not_inRecovery_of_open hd hload hterm
    refine Act.Sat.bind (clock_sat trivial) ?_
    rintro now _ _ ⟨_, rfl⟩
    refine (write_sat self (fun _ => trivial) fun _ => trivial).mono (fun _ hv => hv) ?_ ?_
    · rintro _ _ _ ⟨_, rfl⟩
      exact Or.inr ⟨hterm, now, rfl⟩
    · rintro e v _ (⟨_, _, rfl⟩ | ⟨he, n, hn, rfl | rfl⟩)
      · -- An unfinished journal whose text does not encode stays unfinished.
        exact .quiet (by simp) fun h => absurd h hrec
      · exact .faults he hn
      · exact guardReports_restarted hrec now he hn

end Guard

/-- **The restart guard reports recovery**: with a journal present, what it raises is a
`RecoveryRequired`, unless a file-system call fails or the journal cannot be read at all.  The three
places where a call can fail (the first look, the write of the closed journal, the last look) leave
the disk as it was or with the closed journal on it. -/
theorem requireNewTransaction_reports_sat (self : JournalStore) {d : Disk} {text : JournalText}
    (hd : d.journal = some text) :
    Act.Sat Step (fun _ => True) self.requireNewTransaction ⟨d, []⟩ (fun _ _ => False)
      (fun e v => GuardReports self d e v) := by
  unfold requireNewTransaction
  refine Act.Sat.bind ((pathExists_sat trivial trivial).mono (fun _ hv => hv)
    (fun _ _ _ hv => hv) ?_) ?_
  · rintro e _ _ ⟨he, rfl⟩
    exact .faults (Exc.ordinary_of_isOSError he) Nat.one_pos
  rintro present _ _ ⟨rfl, rfl⟩
  rw [hd]
  refine Act.Sat.bind ((load_sat self trivial trivial).mono (fun _ hv => hv) (fun _ _ _ hv => hv) ?_)
    ?_
  · rintro e _ _ (⟨he, rfl⟩ | ⟨rfl, text', htext', hload⟩)
    · exact .faults he Nat.one_pos
    · exact .quiet (by simp) fun hrec => absurd hrec (not_inRecovery htext' hload)
  rintro raw _ _ ⟨rfl, text', htext', hload⟩
  obtain rfl : text = text' := Option.some.inj (hd.symm.trans htext')
  refine Act.Sat.bind (markRestart_reports_sat hd hload) ?_
  intro _ w _ hw
  have hquiet : .ioError ∉ w.trace := by
    rcases hw with rfl | ⟨_, now, rfl⟩ <;> simp
  refine Act.Sat.bind ((load_sat self trivial trivial).mono (fun _ hv => hv)
    (fun _ _ _ hv => hv) ?_) ?_
  · rintro e _ _ (⟨he, rfl⟩ | ⟨rfl, text', htext', hload'⟩)
    · rcases hw with rfl | ⟨hterm, now, rfl⟩
      · exact .faults he Nat.one_pos
      · exact guardReports_restarted (not_inRecovery_of_open hd hload hterm) now he Nat.one_pos
    · exact .quiet hquiet fun hrec => absurd hrec (not_inRecovery htext' hload')
  rintro again _ _ ⟨rfl, -⟩
  exact Act.Sat.throw trivial (.quiet hquiet fun _ => rfl)

end JournalStore

theorem TradeCoordinator.execute_reports_sat (journal : JournalStore) {d : Disk}
    {text : JournalText} (hd : d.journal = some text) {P : Pokemon100} (hmail : P.holdsMail = false) :
    Act.Sat Step (fun _ => True) (execute journal P) ⟨d, []⟩ (fun _ _ => False)
      (fun e v => GuardReports journal d e v) := by
  unfold execute
  rw [Pokemon100.refuseMail_ok.mpr hmail]
  refine Act.Sat.bind (R := fun _ v => v = (⟨d, []⟩ : World)) ⟨trivial, rfl⟩ ?_
  rintro _ _ _ rfl
  refine Act.Sat.bind (JournalStore.requireNewTransaction_reports_sat journal hd) ?_
  intro _ v _ hfalse
  exact hfalse.elim

/-! ## §4 — the report and the journal. -/

/-- The assertions touch nothing. -/
theorem assertSwapped_sat {w : World} (gbaOwned switchOwned brokerOwned : Pokemon100) :
    Act.Sat Step (fun _ => True) (assertSwapped gbaOwned switchOwned brokerOwned) w
      (fun _ v => v = w) (fun _ v => v = w) := by
  have hassert : ∀ c : Bool, Act.Sat Step (fun _ => True) (assertThat c) w (fun _ v => v = w)
      (fun _ v => v = w) := by
    intro c
    cases c with
    | true => exact Act.Sat.pure trivial rfl
    | false => exact Act.Sat.throw trivial rfl
  unfold assertSwapped
  generalize decide (gbaOwned = demoMon 66) = c1
  generalize decide (switchOwned = demoMon 65) = c2
  generalize decide (brokerOwned = demoMon 80) = c3
  refine Act.Sat.bind (hassert c1) ?_
  rintro _ _ _ rfl
  refine Act.Sat.bind (hassert c2) ?_
  rintro _ _ _ rfl
  exact hassert c3

theorem Mode.afterwards_sat (mode : Mode) (outcome : TransactionOutcome) (w : World) :
    Act.Sat Step (fun _ => True) (mode.afterwards outcome) w (fun _ v => v = w)
      (fun _ v => v = w) := by
  cases mode with
  | real placeholder => exact Act.Sat.pure trivial rfl
  | mockDemo gbaOwned switchOwned => exact assertSwapped_sat _ _ _

/-- A program, then one that touches nothing, then the `except` clauses. -/
theorem exitOf_finish {x : Broker TransactionOutcome} {f : TransactionOutcome → Broker Unit}
    {w v : World} {exit : Exit} {Q : TransactionOutcome → World → Prop} {E : Exc → World → Prop}
    (h : Act.Sat Step (fun _ => True) x w Q E)
    (hf : ∀ o v, Act.Sat Step (fun _ => True) (f o) v (fun _ v' => v' = v) (fun _ v' => v' = v))
    (hfin : Prog.Finish Step ((x >>= f).run >>= fun ended => pure (exitOf ended)) w exit v) :
    (∃ o, Q o v) ∨ ∃ e, exit = exitOf (.error e) ∧ E e v := by
  have hseq : Act.Sat Step (fun _ => True) (x >>= f) w (fun _ v => ∃ o, Q o v)
      (fun e v => E e v ∨ ∃ o, Q o v) := by
    refine Act.Sat.bind (h.mono (fun _ hv => hv) (fun _ _ _ hq => hq) (fun _ _ _ he => Or.inl he)) ?_
    intro o v _ hq
    refine (hf o v).mono (fun _ hv => hv) ?_ ?_
    · rintro _ _ _ rfl
      exact ⟨o, hq⟩
    · rintro e _ _ rfl
      exact Or.inr ⟨o, hq⟩
  have hsat : Prog.Sat Step (fun _ => True)
      (fun exit v => (∃ o, Q o v) ∨ ∃ e, exit = exitOf (.error e) ∧ E e v)
      ((x >>= f).run >>= fun ended => pure (exitOf ended)) w := by
    refine Prog.Sat.bind hseq ?_
    intro ended v _ hend
    refine ⟨trivial, ?_⟩
    cases ended with
    | ok u => exact Or.inl hend
    | error e =>
        rcases hend with he | hq
        · exact Or.inr ⟨e, rfl, he⟩
        · exact Or.inl hq
  exact (Prog.Sat.finish hsat hfin).2

/-- A journal of the broker that was not closed does not ask for recovery. -/
theorem Booked.not_inRecovery {journal : JournalStore} {P : Pokemon100} {g : Progress}
    {r : JournalRecord} {d : Disk} (h : Booked P g r) (hj : d.journal = some (.json r.document)) :
    ¬ InRecovery journal d := by
  rintro ⟨text, raw, htext, hload, hs⟩
  obtain rfl := Option.some.inj (hj.symm.trans htext)
  obtain rfl := Except.ok.inj ((load_document journal h).symm.trans hload)
  exact h.ne_recoveryRequired hs

/-- **What an exception leaves, and how it is reported.**  The closed journal is put in place behind
whatever made the body raise `e`, and `e` asks for recovery exactly when nothing troubled was among
it. -/
theorem Aftermath.reports_iff {journal : JournalStore} {P : Pokemon100} {e : Exc} {v : World}
    (h : Aftermath P e v) (hhook : ∀ b e', Event.faultHook b (.error e') ∉ v.trace) :
    (InRecovery journal v.disk → e.isRecoveryRequired = true) ↔ WhenWritten Untroubled v.trace := by
  cases h with
  | unclosed hfilled hwritten =>
      refine iff_of_true ?_ (hwritten.imp fun _ hb => hb.untroubled)
      intro hrec
      rcases hfilled with hnone | ⟨g, r, hb, hj⟩
      · obtain ⟨text, -, htext, -⟩ := hrec
        exact absurd (hnone.symm.trans htext) (by simp)
      · exact absurd hrec (hb.not_inRecovery hj)
  | @closed tr rest g r now hb hblamed hsame hwritten htrace hrest hj =>
      have hload := RawRecord.fromJsonDict_asJsonDict (hb.recovered_loadable now e.describe)
      have hrec : InRecovery journal v.disk := ⟨_, (r.recovered now e.describe).raw, hj, hload, rfl⟩
      have hclass := hblamed.untroubled_iff hsame fun b e' hm =>
        hhook b e' (by rw [htrace]; exact List.mem_append_left _ hm)
      rw [← hclass, htrace]
      constructor
      · intro hu
        have hone := (hwritten.imp fun _ hb => hb.untroubled).install (hu hrec)
          (.json (r.recovered now e.describe).document)
        have hall := hone.append hrest
        rwa [List.append_assoc, List.singleton_append] at hall
      · intro hall _
        exact hall.last

/-- **What the environment must spare `main`.**  Where a journal was there before: when a file-system
call fails, it must not have asked for recovery, and the closed journal must not have taken its
place.  Where there was none: whenever an `os.replace` of the journal goes through, nothing in front
of it was trouble.  (Behind trouble there is one such `os.replace` at most, that of the closed
journal; a file system that refuses it too leaves nothing to report, and for a `BaseException` or an
exception whose text does not encode it is not asked for.) -/
structure Reportable (journal : JournalStore) (d : Disk) (tr : List Event) : Prop where
  found : d.journal.isSome = true → Spared journal d tr
  fresh : d.journal = none → WhenWritten Untroubled tr

/-- **When the command line reports recovery.**  For every run of `main` with a placeholder free of
mail, whatever the endpoints do short of a `BaseException` from a close, and whichever file-system
calls fail: the report agrees with the journal exactly when the run is `Reportable`. -/
theorem recovery_reported_iff {journal : JournalStore} {mode : Mode} {d : Disk} {v : World}
    {exit : Exit} (hmail : mode.placeholder.holdsMail = false)
    (hf : Prog.Finish Step (main journal mode) ⟨d, []⟩ exit v)
    (hhook : ∀ b e, Event.faultHook b (.error e) ∉ v.trace)
    (hclose : ∀ c e, Event.close c (.error e) ∈ v.trace → e.isException = true) :
    ReportsRecovery journal exit v.disk ↔ Reportable journal d v.trace := by
  cases hd : d.journal with
  | some text =>
      -- The restart guard raises before any endpoint is called.
      have hreportable : Reportable journal d v.trace ↔ Spared journal d v.trace :=
        ⟨fun h => h.found (by rw [hd]; rfl),
          fun h => ⟨fun _ => h, fun hnone => absurd (hd.symm.trans hnone) (by simp)⟩⟩
      have hsat := TradeCoordinator.execute_reports_sat journal hd hmail
      rcases exitOf_finish hsat mode.afterwards_sat hf with ⟨_, hfalse⟩ | ⟨e, rfl, hend⟩
      · exact hfalse.elim
      · rw [reportsRecovery_error, hreportable]
        exact hend
  | none =>
      have hreportable : Reportable journal d v.trace ↔ WhenWritten Untroubled v.trace :=
        ⟨fun h => h.fresh hd,
          fun h => ⟨fun hsome => absurd hsome (by rw [hd]; simp), fun _ => h⟩⟩
      have hsat := (TradeCoordinator.execute_sat journal d hd mode.placeholder).mono
        (J := fun _ => True) (fun _ _ => trivial) (fun _ _ _ hv => hv) fun _ _ _ hv => hv
      rw [hreportable]
      rcases exitOf_finish hsat mode.afterwards_sat hf with
        ⟨o, b, a, slot, r, hpos, hj, hs, _, hbalanced⟩ | ⟨e, rfl, hend⟩
      · -- The exchange is complete, and a complete journal does not ask for recovery.
        refine iff_of_true ?_ hbalanced.untroubled.written
        intro hrec
        exact absurd hrec (hpos.booked.not_inRecovery hj)
      · have hfailed : Failed d.artifacts mode.placeholder e v := by
          rcases hend with ⟨hm, _⟩ | hfailed
          · exact absurd (hmail.symm.trans hm) (by simp)
          · exact hfailed
        rw [reportsRecovery_error]
        rcases hfailed.aftermath with ⟨c, e', hm, he'⟩ | haftermath
        · exact absurd ((hclose c e' hm).symm.trans he') (by simp)
        · exact haftermath.reports_iff hhook

end Report

/-! ## §5 — runs that break the promise. -/

/-- A run of `main` in the scripted world. -/
def Script.main (s : Script) (d : Disk) : Exit × World :=
  Prog.run s.answer (TradeBroker.main sampleStore (.real (sampleMon 0))) ⟨d, []⟩

theorem Script.main_finish (s : Script) (d : Disk) :
    Prog.Finish Step (TradeBroker.main sampleStore (.real (sampleMon 0))) ⟨d, []⟩ (s.main d).1
      (s.main d).2 :=
  Prog.run_finish s.answer_step _ _

/-- The journal of a disk, read for the one state that matters here. -/
theorem inRecovery_of_state {journal : JournalStore} {d : Disk}
    (h : d.journal.map (fun text => (text.load journal).toOption.map RawRecord.state) =
      some (some .recoveryRequired)) : InRecovery journal d := by
  obtain ⟨text, htext, hload⟩ := Option.map_eq_some_iff.mp h
  obtain ⟨raw, hraw, hs⟩ := Option.map_eq_some_iff.mp hload
  refine ⟨text, raw, htext, ?_, hs⟩
  cases hl : text.load journal with
  | error e => simp [hl, Except.toOption] at hraw
  | ok raw' => simpa [hl, Except.toOption] using hraw

/-- An exit status of 1 is no report of recovery. -/
theorem not_reportsRecovery {journal : JournalStore} {message : PyStr} {d : Disk}
    (h : InRecovery journal d) : ¬ ReportsRecovery journal (.returned 1 message) d := by
  intro hreports
  obtain ⟨text, htext⟩ := hreports h
  exact absurd (Exit.returned.inj htext).1 (by decide)

/-- The Switch answers as it should, the GBA adapter is not there. -/
def adapterLost : Script :=
  { Script.exchange (sampleMon 2) (sampleMon 1) (sampleMon 0) with
    connect := fun console => if console = .gba then .error ⟨.endpointError, "no adapter"⟩ else .ok () }

/-- **A journal in recovery, and an exit status of 1.**  The adapter does not answer: the journal is
closed with `RECOVERY_REQUIRED`, and the command line says `ERROR: no adapter`. -/
theorem adapter_lost_exits_with_one :
    Prog.Finish Step (main sampleStore (.real (sampleMon 0))) ⟨emptyDisk, []⟩
        (adapterLost.main emptyDisk).1 (adapterLost.main emptyDisk).2 ∧
      (sampleMon 0).holdsMail = false ∧
      (adapterLost.main emptyDisk).2.trace.all Event.tame = true ∧
      (adapterLost.main emptyDisk).1 = .returned 1 "ERROR: no adapter" ∧
      InRecovery sampleStore (adapterLost.main emptyDisk).2.disk ∧
      ¬ ReportsRecovery sampleStore (adapterLost.main emptyDisk).1
        (adapterLost.main emptyDisk).2.disk := by
  have hmail : (sampleMon 0).holdsMail = false := by decide
  have heval : (adapterLost.main emptyDisk).2.trace.all Event.tame = true ∧
      (adapterLost.main emptyDisk).1 = .returned 1 "ERROR: no adapter" ∧
      (adapterLost.main emptyDisk).2.disk.journal.map (fun text =>
        (text.load sampleStore).toOption.map RawRecord.state) = some (some .recoveryRequired) := by
    decide +kernel
  obtain ⟨htame, hexit, hstate⟩ := heval
  have hrec := inRecovery_of_state hstate
  refine ⟨adapterLost.main_finish emptyDisk, hmail, htame, hexit, hrec, ?_⟩
  rw [hexit]
  exact not_reportsRecovery hrec

/-- The scripted world with a disk that is full when the journal of one state is to be written. -/
def Script.answerFull (s : Script) (state : JournalState) (w : World) : (op : Op) → Ret op × World
  | .file .createTemp target =>
      if Event.stateWritten? (.installed target) = some state then
        (.error ⟨.osError, "No space left on device"⟩, w.log .ioError)
      else s.answer w (.file .createTemp target)
  | op => s.answer w op

theorem Script.answerFull_step (s : Script) (state : JournalState) (w : World) (op : Op) :
    Step w op (s.answerFull state w op).1 (s.answerFull state w op).2 := by
  unfold Script.answerFull
  split
  · split
    · exact Or.inr ⟨_, rfl, rfl, rfl⟩
    · exact s.answer_step w _
  · exact s.answer_step w op

/-- The endpoints answer as they should; the first transition does not get a temporary file. -/
def fullDiskRun : Exit × World :=
  Prog.run ((Script.exchange (sampleMon 2) (sampleMon 1) (sampleMon 0)).answerFull .switchStage1Started)
    (main sampleStore (.real (sampleMon 0))) ⟨emptyDisk, []⟩

/-- **The same from a full disk.**  The `JournalError` of the write is raised into the body, the
closed journal is written a moment later, and the command line says `ERROR`. -/
theorem full_disk_exits_with_one :
    fullDiskRun.1 = .returned 1 "ERROR: atomic write failed for journal.json: No space left on device" ∧
      (∀ ev ∈ fullDiskRun.2.trace, ev.failure? = none) ∧ InRecovery sampleStore fullDiskRun.2.disk := by
  have heval :
      fullDiskRun.1 = .returned 1 "ERROR: atomic write failed for journal.json: No space left on device" ∧
      fullDiskRun.2.trace.all (fun ev => ev.failure?.isNone) = true ∧
      fullDiskRun.2.disk.journal.map (fun text =>
        (text.load sampleStore).toOption.map RawRecord.state) = some (some .recoveryRequired) := by
    decide +kernel
  obtain ⟨hexit, hquiet, hstate⟩ := heval
  refine ⟨hexit, ?_, inRecovery_of_state hstate⟩
  intro ev hev
  simpa using List.all_eq_true.mp hquiet ev hev

/-- The next run, on the journal that the lost adapter left. -/
def nextRun : Exit × World := adapterLost.main (adapterLost.main emptyDisk).2.disk

/-- It finds the journal, reports it and calls no endpoint; the run on the full disk is not one of
those that are reported. -/
theorem recovery_reported_iff_nextRun :
    nextRun.1 ≠ .returned 0 [] ∧ ReportsRecovery sampleStore nextRun.1 nextRun.2.disk ∧
      ¬ Reportable sampleStore emptyDisk fullDiskRun.2.trace := by
  have hmail : (Mode.real (sampleMon 0)).placeholder.holdsMail = false := by decide
  have heval : nextRun.2.trace.all Event.tame = true ∧
      nextRun.2.trace.all (fun ev => ev.failure?.isNone) = true ∧
      nextRun.1 ≠ .returned 0 [] ∧ (adapterLost.main emptyDisk).2.disk.journal.isSome = true := by
    decide +kernel
  obtain ⟨htame, hquiet, hexit, hsome⟩ := heval
  have hquiet : ∀ ev ∈ nextRun.2.trace, ev.failure? = none := by
    intro ev hev
    simpa using List.all_eq_true.mp hquiet ev hev
  have hf : Prog.Finish Step (main sampleStore (.real (sampleMon 0)))
      ⟨(adapterLost.main emptyDisk).2.disk, []⟩ nextRun.1 nextRun.2 := adapterLost.main_finish _
  have hiff := recovery_reported_iff hmail hf (fun b e hm => absurd (hquiet _ hm) (by simp [Event.failure?, Event.raised?]))
    (fun c e hm => absurd (hquiet _ hm) (by simp [Event.failure?]))
  refine ⟨hexit, hiff.mpr ⟨?_, ?_⟩, ?_⟩
  · intro _ hio
    exact absurd hio (tame_of_all htame).1
  · intro hnone
    rw [hnone] at hsome
    exact absurd hsome (by simp)
  · obtain ⟨hfull, hquiet, hrec⟩ := full_disk_exits_with_one
    have hf : Prog.Finish Step (main sampleStore (.real (sampleMon 0))) ⟨emptyDisk, []⟩ fullDiskRun.1
        fullDiskRun.2 := Prog.run_finish (Script.answerFull_step _ _) _ _
    rw [hfull] at hf
    have hiff := recovery_reported_iff hmail hf
      (fun b e hm => absurd (hquiet _ hm) (by simp [Event.failure?, Event.raised?]))
      (fun c e hm => absurd (hquiet _ hm) (by simp [Event.failure?]))
    exact fun hreportable => not_reportsRecovery hrec (hiff.mpr hreportable)

end TradeBroker
