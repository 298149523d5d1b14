/-
# TradeBroker.Journal.Atomicity — when `transition` is all or nothing.

`transition` validates the whole update before it touches the record, so a REJECTED update leaves
the caller's object and the durable journal alone.  It then mutates the object in place and writes
afterwards.  When that write raises, at whatever step, the object is already the new one: the caller
holds a record that the journal may not have.

So a run of `transition` is atomic exactly when its update is rejected, or its text encodes and every
file-system call succeeds (`transition_atomic_iff`); `diskFull_not_atomic` is a run that is not.

`transition_finish` is the list of what a run of an accepted update can end in, and both directions of the
`iff` are read off it.  The crash points in between are not this module's: a run that is stopped has no
answer, and what a restart then finds is the subject of `Journal.Reload` and `Journal.Drive`.

What follows for the caller is in `Broker.LastError`.  The coordinator marks a failed session on the
record object it holds, and after a raise of `transition` that object is ahead of the file.
-/
import TradeBroker.Broker.Script

namespace TradeBroker

open Lib

/-! ## §1 — atomicity, and when the text of the new record encodes. -/

/-- All or nothing: a raise leaves object and journal as they were, a return makes both the new
record. -/
def Atomic (record : JournalRecord) (s : JournalState) (u : Update) (w v : World)
    (answer : Except Exc Unit) (record' : JournalRecord) : Prop :=
  match answer with
  | .error _ => record' = record ∧ v.disk.journal = w.disk.journal
  | .ok () => ∃ now, record' = record.advance s now u ∧
      v.disk.journal = some (.json (record.advance s now u).document)

/-- The document of the new record encodes, the time stamps apart: it is a fact about the record and the
update before the call. -/
def Encodes (record : JournalRecord) (s : JournalState) (u : Update) : Bool :=
  (record.advance s [] u).document.encodable

theorem encodableAll_append (js js' : List Json) :
    Json.encodableAll (js ++ js') = (Json.encodableAll js && Json.encodableAll js') := by
  induction js with
  | nil => simp [Json.encodableAll]
  | cons j js ih => simp only [List.cons_append, Json.encodableAll, ih, Bool.and_assoc]

/-- Which time stamp is written does not matter, as long as it encodes, and those of the clock always do. -/
theorem encodable_advance {record : JournalRecord} {s : JournalState} {u : Update} {now : PyStr}
    (hnow : encodable now = true) :
    (record.advance s now u).document.encodable = Encodes record s u := by
  have hnil : encodable ([] : PyStr) = true := rfl
  have hentry : ∀ at_ : PyStr, encodable at_ = true →
      Json.encodableAll [RawEntry.asJson
        ⟨.int (record.sequence + 1), .str s.value, .str at_, .str u.note⟩] =
      encodable u.note := by
    intro at_ hat
    simp [Json.encodableAll, RawEntry.asJson, Json.encodable, Json.encodableFields, hat]
  have hhist : ∀ at_ : PyStr, encodable at_ = true →
      Json.encodableAll ((record.advance s at_ u).raw.history.map RawEntry.asJson) =
        (Json.encodableAll (record.raw.history.map RawEntry.asJson) && encodable u.note) := by
    intro at_ hat
    have hsplit : (record.advance s at_ u).raw.history = record.raw.history ++
        [⟨.int (record.sequence + 1), .str s.value, .str at_, .str u.note⟩] := by
      show (record.history ++ [_]).map _ = _
      rw [List.map_append]
      rfl
    rw [hsplit, List.map_append, encodableAll_append, List.map_cons, List.map_nil, hentry at_ hat]
  unfold Encodes JournalRecord.document
  simp only [RawRecord.asJsonDict, Json.encodable, Json.encodableFields, hhist now hnow,
    hhist [] hnil]
  simp only [JournalRecord.raw, JournalRecord.advance, Json.encodable, hnow, hnil]

/-! ## §2 — the runs of `transition`. -/

theorem advance_ne (record : JournalRecord) (s : JournalState) (now : PyStr) (u : Update) :
    record.advance s now u ≠ record := by
  intro h
  have hseq : record.sequence + 1 = record.sequence := congrArg JournalRecord.sequence h
  omega

/-- What a run of `transition` can end in, when its update is accepted. -/
theorem transition_finish {journal : JournalStore} {record record' : JournalRecord}
    {s : JournalState} {u : Update} {d : Disk} {v : World} {answer : Except Exc Unit}
    (hc : record.check s u = .ok ())
    (hf : Prog.Finish Step (journal.transition record s u) ⟨d, []⟩ (answer, record') v) :
    ∃ now, encodable now = true ∧ record' = record.advance s now u ∧
      ((answer = .ok () ∧ Encodes record s u = true ∧ .ioError ∉ v.trace ∧
          v.disk.journal = some (.json (record.advance s now u).document)) ∨
        ((∃ e, answer = .error e) ∧ (Encodes record s u = false ∨ .ioError ∈ v.trace))) := by
  obtain ⟨_, now, hnow, hrec, hend⟩ := Prog.Sat.finish (JournalStore.transition_sat (I := fun _ => True)
    journal hc (fun _ => trivial) (fun _ _ _ => trivial)) hf
  have hrec : record' = record.advance s now u := hrec
  refine ⟨now, hnow, hrec, ?_⟩
  cases answer with
  | ok a =>
      obtain ⟨henc, rfl⟩ := hend
      rw [encodable_advance hnow] at henc
      exact Or.inl ⟨rfl, henc, by simp, rfl⟩
  | error e =>
      refine Or.inr ⟨⟨e, rfl⟩, ?_⟩
      rcases hend with ⟨_, henc, _⟩ | ⟨_, n, hn, rfl | rfl⟩
      · rw [encodable_advance hnow] at henc
        exact Or.inl henc
      · exact Or.inr (ioError_mem_faults _ hn)
      · exact Or.inr (ioError_mem_faults _ hn)

/-- **When a transition is atomic.**  For every record, every update and every run of `transition`,
with failures anywhere: the run is all or nothing exactly when the update is rejected, or the new
text encodes and no file-system call fails. -/
theorem transition_atomic_iff {journal : JournalStore} {record : JournalRecord}
    {s : JournalState} {u : Update} {d : Disk} {v : World} {ended : Except Exc Unit × JournalRecord}
    (hf : Prog.Finish Step (journal.transition record s u) ⟨d, []⟩ ended v) :
    Atomic record s u ⟨d, []⟩ v ended.1 ended.2 ↔
      (record.check s u ≠ .ok () ∨ (Encodes record s u = true ∧ .ioError ∉ v.trace)) := by
  obtain ⟨answer, record'⟩ := ended
  cases hc : record.check s u with
  | error e =>
      -- Nothing was touched: `transition` is the raise itself.
      unfold JournalStore.transition at hf
      rw [hc] at hf
      cases hf with
      | refl =>
          simp only [ne_eq, reduceCtorEq, not_false_eq_true, true_or, iff_true]
          exact ⟨rfl, rfl⟩
  | ok a =>
      obtain ⟨now, _, rfl, hend⟩ := transition_finish hc hf
      rcases hend with ⟨rfl, henc, hio, hj⟩ | ⟨⟨e, rfl⟩, hbad⟩
      · have hatomic : Atomic record s u ⟨d, []⟩ v (.ok ()) (record.advance s now u) :=
          ⟨now, rfl, hj⟩
        exact ⟨fun _ => Or.inr ⟨henc, hio⟩, fun _ => hatomic⟩
      · constructor
        · intro hatomic
          exact absurd hatomic.1 (advance_ne record s now u)
        · intro hcond
          rcases hcond with hcond | ⟨henc, hio⟩
          · exact absurd rfl hcond
          · rcases hbad with hbad | hbad
            · rw [hbad] at henc
              exact absurd henc (by simp)
            · exact absurd hbad hio

/-! ## §3 — a run that is not atomic. -/

/-- A scripted world whose disk is full: the write to a temporary file raises, and every other call succeeds. -/
def diskFull (w : World) : (op : Op) → Ret op × World
  | .file .writeTemp _ => (.error ⟨.osError, "No space left on device"⟩, w.log .ioError)
  | op => (Script.exchange (sampleMon 2) (sampleMon 1) (sampleMon 0)).answer w op

theorem diskFull_step (w : World) (op : Op) : Step w op (diskFull w op).1 (diskFull w op).2 := by
  unfold diskFull
  split
  · exact Or.inr ⟨_, rfl, rfl, rfl⟩
  · exact Script.answer_step _ _ _

/-- A record in its first state, and the disk that has it. -/
def sampleRecord : JournalRecord := JournalRecord.fresh Script.txid.str Script.now (sampleMon 0)

def sampleDisk : Disk := ⟨some (.json sampleRecord.document), fun _ => none⟩

def fullRun : (Except Exc Unit × JournalRecord) × World :=
  Prog.run diskFull (sampleStore.transition sampleRecord .switchStage1Started { note := "start" })
    ⟨sampleDisk, []⟩

theorem fullRun_finish :
    Prog.Finish Step (sampleStore.transition sampleRecord .switchStage1Started { note := "start" })
      ⟨sampleDisk, []⟩ fullRun.1 fullRun.2 :=
  Prog.run_finish diskFull_step
    (sampleStore.transition sampleRecord .switchStage1Started { note := "start" }) ⟨sampleDisk, []⟩

/-- A raise that left the object changed is not atomic, whatever has become of the file. -/
theorem not_atomic_of_raise {record record' : JournalRecord} {s : JournalState} {u : Update}
    {w v : World} {answer : Except Exc Unit} (h : answer.isOk = false) (hm : record' ≠ record) :
    ¬ Atomic record s u w v answer record' := by
  intro hatomic
  cases answer with
  | ok a => exact absurd h (by simp [Except.isOk, Except.toBool])
  | error e => exact hm hatomic.1

/-- **Not atomic.**  The write raises before the journal is replaced, and the caller's record is
already in the new state. -/
theorem diskFull_not_atomic :
    sampleDisk.journal = some (.json sampleRecord.document) ∧
      Prog.Finish Step
        (sampleStore.transition sampleRecord .switchStage1Started { note := "start" })
        ⟨sampleDisk, []⟩ fullRun.1 fullRun.2 ∧
      fullRun.1.1.isOk = false ∧ fullRun.1.2 ≠ sampleRecord ∧
      ¬ Atomic sampleRecord .switchStage1Started { note := "start" } ⟨sampleDisk, []⟩ fullRun.2
        fullRun.1.1 fullRun.1.2 := by
  have hraise : fullRun.1.1.isOk = false := by decide +kernel
  have hmem : fullRun.1.2 ≠ sampleRecord := by
    intro h
    have hseq : fullRun.1.2.sequence = 1 := by decide +kernel
    rw [h] at hseq
    exact absurd hseq (by decide)
  exact ⟨rfl, fullRun_finish, hraise, hmem, not_atomic_of_raise hraise hmem⟩

theorem transition_atomic_iff_fullRun :
    Atomic sampleRecord .switchStage1Started { note := "start" } ⟨sampleDisk, []⟩ fullRun.2
        fullRun.1.1 fullRun.1.2 ↔
      (sampleRecord.check .switchStage1Started { note := "start" } ≠ .ok () ∨
        (Encodes sampleRecord .switchStage1Started { note := "start" } = true ∧
          .ioError ∉ fullRun.2.trace)) :=
  transition_atomic_iff fullRun_finish

end TradeBroker
