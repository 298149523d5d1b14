/-
# TradeBroker.Broker.LastError — whether the exception of an endpoint reaches the journal.

`_mark_recovery` writes `f"{type(exc).__name__}: {exc}"` into the journal, and the journal is written as
UTF-8.  A text with a lone surrogate does not encode: the write raises `UnicodeEncodeError` before it touches
a file, `_mark_recovery` logs that and goes on, and the journal stays in the state in which the exception
was raised.  `failure_recorded_iff` says that on a working file system this is the only way to lose the exception.

The message need not be exotic.  `SerialTransport.open` puts the device name from the command line into it,
and a name that is not UTF-8 comes out of `surrogateescape` with lone surrogates (`unnameable_device_lost`).

The proof adds one fact to the errand.  It forwards what it is answered (`Forwards`): an endpoint that
raises ends it with that very exception, which is then the one that `_mark_recovery` sees.  So `Recorded`
can be read off what `Broker.Errand` says a run leaves behind, and no walk through `execute` is needed.

An exception that is no `Exception` is not part of the question: the `except` clause never sees it, by
design, and the hypothesis of the theorem asks for one that it does see.
-/
import TradeBroker.Broker.Errand
import TradeBroker.Broker.Main

namespace TradeBroker

open Lib

-- Programs are compared by running them: keep the bytes of a record out of that.
attribute [local irreducible] Pokemon100.heldItem

/-! ## §1 — an errand raises what it is answered with. -/

/-- The exception in the reply of an endpoint or of the hook, when the call raised. -/
def Call.raises : (c : Call) → Reply c → Option Exc
  | .connect _, .error e => some e
  | .waitForTradeMenu, .error e => some e
  | .switchTrade _, .error e => some e
  | .gbaTrade _, .error e => some e
  | .faultHook _, .error e => some e
  | _, _ => none

namespace Errand

/-- The errand is over when a call raises: nothing in the `try` body catches. -/
abbrev Forwards {α : Type} (x : Errand α) : Prop := Act.Forwards Call.raises x.run

variable {α β : Type}

theorem Forwards.bind {x : Errand α} {f : α → Errand β} (hx : Forwards x) (hf : ∀ a, Forwards (f a)) :
    Forwards (x >>= f) := Act.Forwards.bind hx hf

/-- The exception that a result is. -/
def exception? : Except Exc α → Option Exc
  | .ok _ => none
  | .error e => some e

/-- A call whose answer becomes the result, exception and all. -/
theorem Forwards.call {c : Call} {k : Reply c → Except Exc α} (h : ∀ r, c.raises r = exception? (k r)) :
    Forwards (ExceptT.mk (.call c fun r => .done (k r)) : Errand α) := by
  intro r
  refine ⟨?_, trivial⟩
  intro e he
  rw [h r] at he
  show Prog.done (k r) = Prog.done (.error e)
  cases hk : k r with
  | ok a =>
      rw [hk] at he
      cases he
  | error e' =>
      rw [hk] at he
      rw [Option.some.inj he]

theorem forwards_connect (console : Console) : Forwards (connect console) := by
  apply Forwards.call
  rintro (_ | _) <;> rfl

theorem forwards_waitForTradeMenu : Forwards waitForTradeMenu := by
  apply Forwards.call
  rintro (_ | _) <;> rfl

theorem forwards_switchTradeOnce (offered : Pokemon100) : Forwards (switchTradeOnce offered) := by
  apply Forwards.call
  rintro (_ | _) <;> rfl

theorem forwards_gbaTradeOnce (offered : Pokemon100) : Forwards (gbaTradeOnce offered) := by
  apply Forwards.call
  rintro (_ | _) <;> rfl

theorem forwards_faultHook (b : Boundary) : Forwards (faultHook b) := by
  apply Forwards.call
  rintro (_ | _) <;> rfl

theorem forwards_check (r : Except Exc Unit) : Forwards (check r) := trivial

theorem forwards_errand (P : Pokemon100) : Forwards (errand P) := by
  unfold errand
  refine .bind (forwards_connect _) fun _ => .bind (forwards_connect _) fun _ => ?_
  unfold switchStage1
  refine .bind (forwards_faultHook _) fun _ => .bind forwards_waitForTradeMenu fun _ => ?_
  refine .bind (forwards_switchTradeOnce _) fun first => .bind (forwards_faultHook _) fun _ => ?_
  refine .bind (forwards_check _) fun _ => .bind (forwards_check _) fun _ => ?_
  refine .bind (forwards_faultHook _) fun _ => ?_
  unfold gbaStage
  refine .bind (forwards_faultHook _) fun _ => .bind (forwards_gbaTradeOnce _) fun result => ?_
  refine .bind (forwards_faultHook _) fun _ => .bind (forwards_check _) fun _ => ?_
  refine .bind (forwards_check _) fun _ => .bind (forwards_faultHook _) fun _ => ?_
  unfold switchStage2
  refine .bind (forwards_faultHook _) fun _ => .bind forwards_waitForTradeMenu fun _ => ?_
  refine .bind (forwards_switchTradeOnce _) fun second => .bind (forwards_faultHook _) fun _ => ?_
  refine .bind (forwards_check _) fun _ => .bind (forwards_faultHook _) fun _ => ?_
  exact .bind (forwards_check _) fun _ => trivial

end Errand

/-! ## §2 — the exception in a run. -/

/-- A call that raised into the body is a reply that raises. -/
theorem Event.reply_of_raised {ev : Event} {e : Exc} (h : ev.raised? = some e) :
    ∃ x, ev.reply? = some x ∧ x.op.raises x.answer = some e := by
  unfold Event.raised? at h
  split at h
  · exact ⟨_, rfl, h⟩
  · exact ⟨_, rfl, h⟩
  · rename_i console offered durable e' swapped
    cases console with
    | switch => exact ⟨_, rfl, h⟩
    | gba => exact ⟨_, rfl, h⟩
  · exact ⟨_, rfl, h⟩
  · cases h

/-- An errand in whose calls `e` was raised has ended with `e`, because it ended there. -/
theorem Ran.raised {P : Pokemon100} {answer : Except Exc Exchange} {tr : List Event}
    (h : Ran P answer tr) {ev : Event} (hev : ev ∈ tr) {e : Exc} (he : ev.raised? = some e) :
    answer = .error e := by
  obtain ⟨xs, cs, hxs, hcs, hfollows⟩ := h
  obtain ⟨x, hx, hraised⟩ := Event.reply_of_raised he
  have hmem : x ∈ xs ++ cs := by
    rw [← hxs]
    exact List.mem_filterMap.mpr ⟨ev, hev, hx⟩
  rcases List.mem_append.mp hmem with hmem | hmem
  · exact (Errand.forwards_errand P).follows hfollows hmem hraised
  · -- a close raises nothing into the body
    obtain ⟨op, reply⟩ := x
    obtain ⟨c, rfl⟩ := hcs _ hmem
    cases hraised

/-- Whatever the answer of the body, the journal is the one that goes with `e`. -/
theorem Resolved.leftBehind {P : Pokemon100} {answer : Except Exc TransactionOutcome} {w : World}
    (h : Resolved P answer w) (hio : .ioError ∉ w.trace) {ev : Event} (hev : ev ∈ w.trace) {e : Exc}
    (he : ev.raised? = some e) : LeftBehind P e w.disk.journal := by
  cases answer with
  | ok outcome =>
      obtain ⟨x, r, hran, -⟩ := h
      cases hran.raised hev he
  | error e' =>
      obtain ⟨hran, hleft⟩ := h.resolve_left hio
      obtain rfl : e' = e := Except.error.inj (hran.raised hev he)
      exact hleft

/-- The durable journal asks for recovery, and says why: its `last_error` is the class name and the message of
`e`. -/
def Recorded (journal : JournalStore) (e : Exc) (d : Disk) : Prop :=
  ∃ text raw, d.journal = some text ∧ text.load journal = .ok raw ∧ raw.state = .recoveryRequired ∧
    raw.lastError = .str e.describe

/-- What is left behind asks for recovery exactly when `_mark_recovery` saw the exception and could write its
text down. -/
theorem LeftBehind.inRecovery_iff {journal : JournalStore} {P : Pokemon100} {e : Exc} {d : Disk}
    (h : LeftBehind P e d.journal) : InRecovery journal d ↔ (e.isException && e.encodable) = true := by
  obtain ⟨g, r, hb, _, hj⟩ := h
  split at hj
  · rename_i he
    obtain ⟨now, hj⟩ := hj
    have hload := RawRecord.fromJsonDict_asJsonDict (hb.recovered_loadable now e.describe)
    exact iff_of_true ⟨_, (r.recovered now e.describe).raw, hj, hload, rfl⟩ he
  · rename_i he
    exact iff_of_false (hb.not_inRecovery hj) he

theorem LeftBehind.recorded_iff {journal : JournalStore} {P : Pokemon100} {e : Exc} {d : Disk}
    (h : LeftBehind P e d.journal) : Recorded journal e d ↔ (e.isException && e.encodable) = true := by
  constructor
  · rintro ⟨text, raw, htext, hload, hs, -⟩
    exact h.inRecovery_iff.mp ⟨text, raw, htext, hload, hs⟩
  · intro he
    obtain ⟨g, r, hb, -, hj⟩ := h
    rw [if_pos he] at hj
    obtain ⟨now, hj⟩ := hj
    exact ⟨_, _, hj, load_recovered journal hb now e.describe, rfl, rfl⟩

/-- A run that reached an endpoint began without a journal and with a placeholder free of mail, since both are
checked before any endpoint is called. -/
theorem TradeCoordinator.execute_starts {journal : JournalStore} {P : Pokemon100} {d : Disk}
    {answer : Except Exc TransactionOutcome} {v : World}
    (h : Prog.Finish Step (execute journal P).run ⟨d, []⟩ answer v) {ev : Event} (hev : ev ∈ v.trace)
    {e : Exc} (he : ev.raised? = some e) : d.journal = none ∧ P.holdsMail = false := by
  constructor
  · cases hj : d.journal with
    | none => rfl
    | some text =>
        have hkept := (Act.Sat.finish (execute_blocked_sat journal hj P) h).1
        -- the guard performs file-system calls only, and these raise nothing into the body
        have hfile := hkept.local_ ev hev
        unfold Event.isFile at hfile
        split at hfile
        · cases he
        · cases he
        · cases hfile
  · cases hmail : P.refuseMail with
    | ok u => exact Pokemon100.refuseMail_ok.mp hmail
    | error e' =>
        have hrefused : Act.Sat Step (fun _ => True) (execute journal P) ⟨d, []⟩ (fun _ v => v.trace = [])
            (fun _ v => v.trace = []) := by
          unfold execute
          rw [hmail]
          exact ⟨trivial, rfl⟩
        have hends := (Act.Sat.finish hrefused h).2
        have htrace : v.trace = [] := by
          cases answer with
          | ok outcome => exact hends
          | error e => exact hends
        rw [htrace] at hev
        cases hev

/-- **An exception of an endpoint is recorded exactly when its text encodes.**  The run is any run on a
working file system in which an endpoint raised an `Exception` into `execute`. -/
theorem TradeCoordinator.failure_recorded_iff (journal : JournalStore) (P : Pokemon100) {d : Disk}
    {answer : Except Exc TransactionOutcome} {v : World}
    (h : Prog.Finish Step (execute journal P).run ⟨d, []⟩ answer v) (hio : .ioError ∉ v.trace)
    {ev : Event} (hev : ev ∈ v.trace) {e : Exc} (he : ev.raised? = some e) (hexc : e.isException = true) :
    Recorded journal e v.disk ↔ e.encodable = true := by
  obtain ⟨hj, hmail⟩ := execute_starts h hev he
  have hends := (Act.Sat.finish (execute_resolved_sat journal hj hmail) h).2
  have hleft : LeftBehind P e v.disk.journal := by
    cases answer with
    | ok outcome =>
        have hresolved : Resolved P (.ok outcome) v := hends
        exact hresolved.leftBehind hio hev he
    | error e' =>
        rcases hends with hfault | hresolved | ⟨-, answer, hresolved⟩
        · exact absurd hfault hio
        · exact hresolved.leftBehind hio hev he
        · exact hresolved.leftBehind hio hev he
  rw [hleft.recorded_iff, hexc, Bool.true_and]

/-! ## §3 — two runs. -/

/-- A file-system call failed. -/
def Event.isFault : Event → Bool
  | .ioError => true
  | _ => false

/-- What `SerialTransport.open` raises for a device whose name is the byte `0x80`: a `str` with a lone
surrogate, as the command line hands it over. -/
def unnameable : Exc :=
  ⟨.endpointError, lit "cannot open GBA adapter " ++ [⟨0xDC80, by decide⟩] ++ lit ": no such device"⟩

def unnameableDevice : Script :=
  { adapterLost with connect := fun console => if console = .gba then .error unnameable else .ok () }

def unnameableRun : Except Exc TransactionOutcome × World :=
  unnameableDevice.play sampleStore (sampleMon 0) emptyDisk

theorem unnameableRun_eval :
    unnameableRun.1 = .error unnameable ∧
      unnameableRun.2.trace.any (fun ev => decide (ev.raised? = some unnameable)) = true ∧
      unnameableRun.2.trace.any Event.isFault = false ∧
      unnameableRun.2.disk.journal.map (fun text =>
        (text.load sampleStore).toOption.map RawRecord.state) = some (some .idle) := by
  decide +kernel

/-- **An exception that is lost.**  `execute` raises, no file-system call failed, and the journal is still in
the state in which it was created. -/
theorem unnameable_device_lost :
    Prog.Finish Step (TradeCoordinator.execute sampleStore (sampleMon 0)).run ⟨emptyDisk, []⟩
        unnameableRun.1 unnameableRun.2 ∧
      unnameableRun.1 = .error unnameable ∧
      (∃ ev ∈ unnameableRun.2.trace, ev.raised? = some unnameable) ∧ .ioError ∉ unnameableRun.2.trace ∧
      unnameable.isException = true ∧ ¬ Recorded sampleStore unnameable unnameableRun.2.disk := by
  obtain ⟨hanswer, hraised, hio, hstate⟩ := unnameableRun_eval
  refine ⟨Script.play_finish _ sampleStore (sampleMon 0) emptyDisk, hanswer, ?_, ?_, rfl, ?_⟩
  · obtain ⟨ev, hev, he⟩ := List.any_eq_true.mp hraised
    exact ⟨ev, hev, of_decide_eq_true he⟩
  · intro hm
    rw [List.any_eq_true.mpr ⟨_, hm, rfl⟩] at hio
    cases hio
  · rintro ⟨text, raw, htext, hload, hs, -⟩
    rw [htext, Option.map_some, hload] at hstate
    have hidle : raw.state = .idle := Option.some.inj (Option.some.inj hstate)
    rw [hidle] at hs
    cases hs

/-- The adapter is lost, and the message can be written down. -/
def namedRun : Except Exc TransactionOutcome × World :=
  adapterLost.play sampleStore (sampleMon 0) emptyDisk

theorem namedRun_eval :
    namedRun.2.trace.any (fun ev => decide (ev.raised? = some ⟨.endpointError, "no adapter"⟩)) = true ∧
      namedRun.2.trace.all Event.tame = true := by
  decide +kernel

theorem failure_recorded_iff_named : Recorded sampleStore ⟨.endpointError, "no adapter"⟩ namedRun.2.disk := by
  obtain ⟨hraised, htame⟩ := namedRun_eval
  obtain ⟨ev, hev, he⟩ := List.any_eq_true.mp hraised
  have hfinish : Prog.Finish Step (TradeCoordinator.execute sampleStore (sampleMon 0)).run ⟨emptyDisk, []⟩
      namedRun.1 namedRun.2 := Script.play_finish _ sampleStore (sampleMon 0) emptyDisk
  have hiff := TradeCoordinator.failure_recorded_iff sampleStore (sampleMon 0) hfinish (tame_of_all htame).1 hev
    (of_decide_eq_true he) rfl
  exact hiff.mpr (by decide)

end TradeBroker
