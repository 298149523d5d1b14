/-
# TradeBroker.Journal.Store — `JournalStore`: load, create, transition, artifacts, atomic writes.

`broker/journal.py` from `class JournalStore` on, as programs over the operations of
`Broker.Effects`.  `transition` mutates the caller's record object in place BEFORE it writes, so it
hands the mutated record back whether the write raises or not: its result is the pair of what it
returned (or raised) and the record object as the caller holds it afterwards.

Every program has one specification (`*_sat`): which worlds it can end in, on return and on a raise.
An I/O failure never leaves more behind than `World.faults`: the same disk and a longer trace.

The atomic write is modelled call by call, since what a failure leaves depends on which call it was:
create the temporary file, write, flush, `fsync`, close, replace, and then the directory.  Before the
replace the old file stands; after it the new one does, also when the `fsync` of the directory raises and
the caller is told that nothing was written (`WriteFailed`).

Two limits of the interpreter are left to the caller.  `json.dumps` refuses an integer of more than 4300
digits and `asdict` recurses once for every level of a value; a record of the program has small integers
and no nesting, and only a file from elsewhere can come near either of them.
-/
import TradeBroker.Broker.Effects

namespace TradeBroker

open Lib

/-- The texts of `self.path` and of its directory, as the messages print them; which file that is, is a matter
of the world. -/
structure JournalStore where
  path : PyStr
  parent : PyStr

namespace JournalStore

/-! ## §1 — the programs. -/

/-- `self.path.parent / "artifacts"` as it prints: the current directory `.` disappears from a path, and
the slash of a root is not doubled. -/
def artifactsDir (self : JournalStore) : PyStr :=
  if self.parent = "." then "artifacts"
  else if self.parent.getLast? = (lit "/").getLast? then self.parent ++ "artifacts"
  else self.parent ++ "/artifacts"

/-- The path `_atomic_bytes` is called with: the journal itself, or `<label>-<hash>.pk3` in the directory of
the transaction. -/
def pathOf (self : JournalStore) : Write → PyStr
  | .journal _ => self.path
  | .artifact p _ => self.artifactsDir ++ "/" ++ p.transactionId ++ "/" ++ p.label ++ "-" ++ p.sha256 ++ ".pk3"

/-- `except OSError as exc: raise JournalError(...) from exc`: everything that is no `OSError` goes on as it
is. -/
def wrapOSError (self : JournalStore) (target : Write) (exc : Exc) : Exc :=
  if exc.isOSError then
    ⟨.journalError, "atomic write failed for " ++ self.pathOf target ++ ": " ++ exc.text⟩
  else exc

/-- The body of the `with` block and `os.replace`: the new bytes are on the platter before the name leads to
them. -/
def stageAndReplace (target : Write) : Broker Unit := do
  fileCall .writeTemp target
  fileCall .fsyncTemp target
  replaceFile target

/-- `os.open` of the directory, `os.fsync`, and `os.close` in the inner `finally`; by then the file is
replaced. -/
def syncDirectory (target : Write) : Broker Unit := do
  fileCall .openDir target
  let synced ← Act.attempt (fileCall .fsyncDir target)
  fileCall .closeDir target
  ofExcept synced

/-- The outer `finally` when `temp_name` is still set: unlink the temporary file, then let `failure`
go on; an error of the unlink other than `FileNotFoundError` replaces it. -/
def unlinkAndRaise (target : Write) (failure : Exc) : Broker Unit := do
  let unlinked ← Act.attempt (fileCall .unlinkTemp target)
  match unlinked with
  | .ok () => throw failure
  | .error e => if e.type = .fileNotFoundError then throw failure else throw e

/-- `_atomic_bytes(path, payload)`: it returns with the new file in place, or raises with the old one or the
new one in place and no temporary file left, unless that could not be removed either. -/
def atomicBytes (self : JournalStore) (target : Write) : Broker Unit := do
  fileCall .mkdir target
  let created ← Act.attempt (fileCall .createTemp target)
  match created with
  | .error exc => throw (self.wrapOSError target exc)
  | .ok () => do
      let replaced ← Act.attempt (stageAndReplace target)
      match replaced with
      | .error exc => unlinkAndRaise target (self.wrapOSError target exc)
      | .ok () => do
          let synced ← Act.attempt (syncDirectory target)
          match synced with
          | .error exc => throw (self.wrapOSError target exc)
          | .ok () => pure ()

/-- `_write(record)`: serialise, encode, replace the journal.  A text that does not encode raises before any
file is touched. -/
def write (self : JournalStore) (record : RawRecord) : Broker Unit :=
  if (Json.obj record.asJsonDict).encodable then
    self.atomicBytes (.journal (.json (.obj record.asJsonDict)))
  else throw ⟨.unicodeEncodeError, "surrogates not allowed"⟩

/-- The artifact file of a record, named by its label and its digest, so a second record under one label is a
second file. -/
def artifactOf (record : JournalRecord) (label : PyStr) (mon : Pokemon100) : ArtifactPath :=
  ⟨record.transactionId, label, mon.sha256⟩

def artifactLabels : List PyStr := ["A", "B", "P", "P_RETURNED"]

/-- `save_artifact(record, label, mon)`: a label outside the four is refused, and the journal is not touched. -/
def saveArtifact (self : JournalStore) (record : JournalRecord) (label : PyStr)
    (mon : Pokemon100) : Broker Unit :=
  let target := Write.artifact (artifactOf record label mon) mon.raw
  if label ∈ artifactLabels then do
    fileCall .mkdir target
    self.atomicBytes target
  else throw ⟨.journalError, "invalid artifact label " ++ label⟩

end JournalStore

/-- `json.loads` of the journal text, then `from_json_dict`; the four things that can be wrong with a file are
told apart by what is raised. -/
def JournalText.load (self : JournalStore) : JournalText → Except Exc RawRecord
  | .json (.obj data) => RawRecord.fromJsonDict data
  | .json _ => .error ⟨.journalError, "journal root must be an object"⟩
  | .notJson => .error ⟨.journalError, "cannot read journal " ++ self.path ++ ": not JSON"⟩
  | .notUtf8 => .error ⟨.unicodeDecodeError, "invalid start byte"⟩

/-- `transition` on a loaded record with no `pokemon`, `locations` or slot, into
`RECOVERY_REQUIRED`: the only way the program transitions a record it did not build. -/
def RawRecord.recover (r : RawRecord) (now note error : PyStr) : RawRecord :=
  let sequence := match r.sequence with
    | .int n => .int (n + 1)
    | .bool b => .int (if b then 2 else 1)
    | .real x => .real (x + 1.0)
    | other => other
  { r with
    sequence := sequence
    state := .recoveryRequired
    updatedAt := .str now
    lastError := .str error
    history := r.history ++
      [⟨sequence, .str JournalState.recoveryRequired.value, .str now, .str note⟩] }

namespace JournalStore

/-- `load()`. -/
def load (self : JournalStore) : Broker RawRecord := do
  let text ← Act.attempt readText
  match text with
  | .ok text => ofExcept (text.load self)
  | .error exc =>
      if exc.isOSError then
        throw ⟨.journalError, "cannot read journal " ++ self.path ++ ": " ++ exc.text⟩
      else throw exc

/-- `create(placeholder)`: an existing journal is loaded and then refused, otherwise the placeholder is saved
first and the journal written after it. -/
def create (self : JournalStore) (placeholder : Pokemon100) : Broker JournalRecord := do
  let present ← pathExists
  if present then do
    let old ← self.load
    throw ⟨.recoveryRequired, "journal already exists in " ++ old.state.value ++
      "; archive it before a new transaction"⟩
  else do
    let now ← clock
    let txid ← uuid4
    let record := JournalRecord.fresh (Uuid.str txid) now placeholder
    self.saveArtifact record "P" placeholder
    self.write record.raw
    pure record

/-- `transition(record, new_state, ...)`: the answer, and the record object afterwards. -/
def transition (self : JournalStore) (record : JournalRecord) (newState : JournalState)
    (u : Update) : Prog Op Ret (Except Exc Unit × JournalRecord) :=
  match record.check newState u with
  | .error e => pure (.error e, record)
  | .ok () =>
      .call .now fun now => do
        let record := record.advance newState now u
        let written ← (self.write record.raw).run
        pure (written, record)

/-- The `transition` inside `require_new_transaction`, for a record that is not terminal: it is closed for
recovery before the refusal is raised. -/
def markRestart (self : JournalStore) (record : RawRecord) : Broker Unit :=
  if record.state.terminal then pure ()
  else do
    let now ← clock
    self.write (record.recover now "incomplete transaction detected on process start"
      ("restart detected while journal was " ++ record.state.value))

/-- `require_new_transaction()`: no journal, no objection; with one it always raises, after closing it where
it is still open. -/
def requireNewTransaction (self : JournalStore) : Broker Unit := do
  let present ← pathExists
  if present then do
    let record ← self.load
    self.markRestart record
    let again ← self.load
    throw ⟨.recoveryRequired, "journal " ++ self.path ++ " is " ++ again.state.value ++
      "; archive it before starting again"⟩
  else pure ()

/-! ## §2 — one specification per program. -/

section Primitive

variable {I : World → Prop} {w : World}

theorem fileCall_sat {call : FileCall} {t : Write} (h0 : I w) (h1 : I (w.faults 1)) :
    Act.Sat Step I (fileCall call t) w (fun _ v => v = w)
      (fun e v => e.isOSError = true ∧ v = w.faults 1) := by
  refine ⟨h0, ?_⟩
  rintro r w' (⟨rfl, rfl⟩ | ⟨e, he, rfl, rfl⟩)
  · exact ⟨h0, rfl⟩
  · exact ⟨h1, he, rfl⟩

theorem replaceFile_sat {t : Write} (h0 : I w) (h1 : I (w.faults 1)) (h2 : I (w.install t)) :
    Act.Sat Step I (replaceFile t) w (fun _ v => v = w.install t)
      (fun e v => e.isOSError = true ∧ v = w.faults 1) := by
  refine ⟨h0, ?_⟩
  rintro r w' (⟨rfl, rfl⟩ | ⟨e, he, rfl, rfl⟩)
  · exact ⟨h2, rfl⟩
  · exact ⟨h1, he, rfl⟩

theorem clock_sat (h0 : I w) {E : Exc → World → Prop} :
    Act.Sat Step I clock w (fun now v => encodable now = true ∧ v = w) E := by
  refine ⟨h0, ?_⟩
  rintro r w' ⟨hr, rfl⟩
  exact ⟨h0, hr, rfl⟩

theorem uuid4_sat (h0 : I w) {E : Exc → World → Prop} :
    Act.Sat Step I uuid4 w (fun _ v => v = w) E := by
  refine ⟨h0, ?_⟩
  rintro r w' ⟨_, rfl⟩
  exact ⟨h0, rfl⟩

theorem pathExists_sat (h0 : I w) (h1 : I (w.faults 1)) :
    Act.Sat Step I pathExists w (fun b v => b = w.disk.journal.isSome ∧ v = w)
      (fun e v => e.isOSError = true ∧ v = w.faults 1) := by
  refine ⟨h0, ?_⟩
  rintro r w' (⟨rfl, rfl⟩ | ⟨e, he, rfl, rfl⟩)
  · exact ⟨h0, rfl, rfl⟩
  · exact ⟨h1, he, rfl⟩

/-- The `JournalError` around an `OSError`. -/
theorem wrapOSError_ordinary {self : JournalStore} {t : Write} {e : Exc}
    (h : e.isOSError = true) : (self.wrapOSError t e).Ordinary := by
  rw [wrapOSError, if_pos h]
  exact ⟨rfl, rfl⟩

end Primitive

/-- How a write to `t` can fail: some calls raised, and the file is either untouched or already
replaced.  What comes out is a `JournalError`, or an `OSError` of a call that nothing wraps. -/
def WriteFailed (t : Write) (w : World) (e : Exc) (v : World) : Prop :=
  e.Ordinary ∧ ∃ n, 0 < n ∧ (v = w.faults n ∨ v = (w.install t).faults n)

section Writes

variable {I : World → Prop} {w : World} {t : Write}

theorem stageAndReplace_sat (h0 : I w) (h1 : I (w.faults 1)) (h2 : I (w.install t)) :
    Act.Sat Step I (stageAndReplace t) w (fun _ v => v = w.install t)
      (fun e v => e.isOSError = true ∧ v = w.faults 1) := by
  unfold stageAndReplace
  refine Act.Sat.bind (fileCall_sat h0 h1) ?_
  rintro _ _ _ rfl
  refine Act.Sat.bind (fileCall_sat h0 h1) ?_
  rintro _ _ _ rfl
  exact replaceFile_sat h0 h1 h2

theorem syncDirectory_sat (h0 : ∀ n, I (w.faults n)) :
    Act.Sat Step I (syncDirectory t) w (fun _ v => v = w)
      (fun e v => e.isOSError = true ∧ ∃ n, 0 < n ∧ v = w.faults n) := by
  have hw : I w := by simpa using h0 0
  unfold syncDirectory
  refine Act.Sat.bind ((fileCall_sat hw (h0 1)).mono (fun _ h => h) (fun _ _ _ h => h) ?_) ?_
  · rintro e v _ ⟨he, rfl⟩
    exact ⟨he, 1, by omega, rfl⟩
  rintro _ _ _ rfl
  refine Act.Sat.bind (Act.Sat.attempt (fileCall_sat hw (h0 1))) ?_
  rintro r v _ hr
  -- The close in the inner `finally` runs in both cases, and its own error wins.
  cases r with
  | ok u =>
      obtain rfl : v = _ := hr
      refine Act.Sat.bind ((fileCall_sat hw (h0 1)).mono (fun _ h => h) (fun _ _ _ h => h) ?_) ?_
      · rintro e v _ ⟨he, rfl⟩
        exact ⟨he, 1, by omega, rfl⟩
      · rintro _ _ _ rfl
        exact ⟨hw, rfl⟩
  | error e =>
      obtain ⟨he, rfl⟩ : e.isOSError = true ∧ v = _ := hr
      refine Act.Sat.bind ((fileCall_sat (h0 1) (by simpa using h0 2)).mono (fun _ h => h)
        (fun _ _ _ h => h) ?_) ?_
      · rintro e' v _ ⟨he', rfl⟩
        exact ⟨he', 2, by omega, by simp⟩
      · rintro _ _ _ rfl
        exact ⟨h0 1, he, 1, by omega, rfl⟩

theorem unlinkAndRaise_sat {failure : Exc} (hf : failure.Ordinary) (h0 : I w)
    (h1 : I (w.faults 1)) :
    Act.Sat Step I (unlinkAndRaise t failure) w (fun _ _ => False)
      (fun e v => e.Ordinary ∧ (v = w ∨ v = w.faults 1)) := by
  unfold unlinkAndRaise
  refine Act.Sat.bind (Act.Sat.attempt (fileCall_sat h0 h1)) ?_
  rintro r v hv hr
  cases r with
  | ok u =>
      obtain rfl : v = _ := hr
      exact ⟨h0, hf, Or.inl rfl⟩
  | error e =>
      obtain ⟨he, rfl⟩ : e.isOSError = true ∧ v = _ := hr
      show Act.Sat Step I (if e.type = .fileNotFoundError then throw failure else throw e) _ _ _
      split
      · exact ⟨h1, hf, Or.inr rfl⟩
      · exact ⟨h1, Exc.ordinary_of_isOSError he, Or.inr rfl⟩

/-- **An atomic write.**  It returns with the file replaced; when it raises, an I/O call has failed
and the file is as before or replaced. -/
theorem atomicBytes_sat (self : JournalStore) (h0 : ∀ n, I (w.faults n))
    (h1 : ∀ n, I ((w.install t).faults n)) :
    Act.Sat Step I (self.atomicBytes t) w (fun _ v => v = w.install t) (WriteFailed t w) := by
  have hw : I w := by simpa using h0 0
  have hi : I (w.install t) := by simpa using h1 0
  unfold atomicBytes
  refine Act.Sat.bind ((fileCall_sat hw (h0 1)).mono (fun _ h => h) (fun _ _ _ h => h) ?_) ?_
  · rintro e v _ ⟨he, rfl⟩
    exact ⟨Exc.ordinary_of_isOSError he, 1, by omega, Or.inl rfl⟩
  rintro _ _ _ rfl
  refine Act.Sat.bind (Act.Sat.attempt (fileCall_sat hw (h0 1))) ?_
  rintro r v _ hr
  cases r with
  | error e =>
      obtain ⟨he, rfl⟩ : e.isOSError = true ∧ v = _ := hr
      exact ⟨h0 1, wrapOSError_ordinary he, 1, by omega, Or.inl rfl⟩
  | ok u =>
      obtain rfl : v = _ := hr
      refine Act.Sat.bind (Act.Sat.attempt (stageAndReplace_sat hw (h0 1) hi)) ?_
      rintro r v _ hr
      cases r with
      | error e =>
          -- The target is untouched; `finally` removes the temporary file.
          obtain ⟨he, rfl⟩ : e.isOSError = true ∧ v = _ := hr
          refine Act.Sat.mono (unlinkAndRaise_sat (wrapOSError_ordinary he) (h0 1)
            (by simpa using h0 2)) (fun _ h => h) (fun _ _ _ h => h.elim) ?_
          rintro e' v _ ⟨he', rfl | rfl⟩
          · exact ⟨he', 1, by omega, Or.inl rfl⟩
          · exact ⟨he', 2, by omega, Or.inl (by simp)⟩
      | ok u =>
          -- Past the commit point only the directory sync can still raise.
          obtain rfl : v = _ := hr
          refine Act.Sat.bind (Act.Sat.attempt (syncDirectory_sat h1)) ?_
          rintro r v _ hr
          cases r with
          | error e =>
              obtain ⟨he, n, hn, rfl⟩ : e.isOSError = true ∧ ∃ n, 0 < n ∧ v = _ := hr
              exact ⟨h1 n, wrapOSError_ordinary he, n, hn, Or.inr rfl⟩
          | ok u =>
              obtain rfl : v = _ := hr
              exact ⟨hi, rfl⟩

/-- The write of a record: a text that does not encode is refused before any file is touched, and every other
failure is one of a file call. -/
theorem write_sat (self : JournalStore) {r : RawRecord} (h0 : ∀ n, I (w.faults n))
    (h1 : ∀ n, I ((w.install (.journal (.json (.obj r.asJsonDict)))).faults n)) :
    Act.Sat Step I (self.write r) w
      (fun _ v => (Json.obj r.asJsonDict).encodable = true ∧
        v = w.install (.journal (.json (.obj r.asJsonDict))))
      (fun e v => (e.isException = true ∧ (Json.obj r.asJsonDict).encodable = false ∧ v = w) ∨
        WriteFailed (.journal (.json (.obj r.asJsonDict))) w e v) := by
  unfold write
  by_cases he : (Json.obj r.asJsonDict).encodable = true
  · rw [if_pos he]
    exact (atomicBytes_sat self h0 h1).mono (fun _ h => h) (fun _ _ _ h => ⟨he, h⟩)
      (fun _ _ _ h => Or.inr h)
  · rw [if_neg he]
    exact ⟨by simpa using h0 0, Or.inl ⟨rfl, by simpa using he, rfl⟩⟩

theorem saveArtifact_sat (self : JournalStore) {r : JournalRecord} {label : PyStr}
    {mon : Pokemon100} (hl : label ∈ artifactLabels) (h0 : ∀ n, I (w.faults n))
    (h1 : ∀ n, I ((w.install (.artifact (artifactOf r label mon) mon.raw)).faults n)) :
    Act.Sat Step I (self.saveArtifact r label mon) w
      (fun _ v => v = w.install (.artifact (artifactOf r label mon) mon.raw))
      (WriteFailed (.artifact (artifactOf r label mon) mon.raw) w) := by
  have hw : I w := by simpa using h0 0
  show Act.Sat Step I (if label ∈ artifactLabels then _ else _) w _ _
  rw [if_pos hl]
  refine Act.Sat.bind ((fileCall_sat hw (h0 1)).mono (fun _ h => h) (fun _ _ _ h => h) ?_) ?_
  · rintro e v _ ⟨he, rfl⟩
    exact ⟨Exc.ordinary_of_isOSError he, 1, by omega, Or.inl rfl⟩
  · rintro _ _ _ rfl
    exact atomicBytes_sat self h0 h1

/-- **A transition whose update is accepted**: the caller's record is the new one in any case, the
journal is the new document on return, and may be either on a raise. -/
theorem transition_sat (self : JournalStore) {record : JournalRecord} {s : JournalState} {u : Update}
    (hc : record.check s u = .ok ()) (h0 : ∀ n, I (w.faults n))
    (h1 : ∀ now, encodable now = true → ∀ n,
      I ((w.install (.journal (.json (record.advance s now u).document))).faults n)) :
    Prog.Sat Step I (fun ended v => ∃ now, encodable now = true ∧
        ended.2 = record.advance s now u ∧
        Ends (fun _ v => (record.advance s now u).document.encodable = true ∧
            v = w.install (.journal (.json (record.advance s now u).document)))
          (fun e v => (e.isException = true ∧
              (record.advance s now u).document.encodable = false ∧ v = w) ∨
            WriteFailed (.journal (.json (record.advance s now u).document)) w e v) ended.1 v)
      (self.transition record s u) w := by
  unfold transition
  rw [hc]
  refine ⟨by simpa using h0 0, ?_⟩
  intro now v hv
  obtain ⟨hnow, hvw⟩ := hv
  subst hvw
  refine Prog.Sat.bind (write_sat self h0 (h1 now hnow)) ?_
  intro written v' hv' hend
  exact ⟨hv', now, hnow, rfl, hend⟩

end Writes

/-! ## §3 — operations that a program keeps away from. -/

section Avoids

variable {bad : Op → Prop} (self : JournalStore)

theorem syncDirectory_avoids (hfile : ∀ c t, ¬ bad (.file c t)) (t : Write) :
    (syncDirectory t).Avoids bad := by
  unfold syncDirectory
  refine Act.Avoids.bind (.perform _ (hfile _ _)) fun _ => ?_
  refine Act.Avoids.bind (.attempt (.perform _ (hfile _ _))) fun synced => ?_
  refine Act.Avoids.bind (.perform _ (hfile _ _)) fun _ => ?_
  exact .ofExcept synced

theorem unlinkAndRaise_avoids (hfile : ∀ c t, ¬ bad (.file c t)) (t : Write) (failure : Exc) :
    (unlinkAndRaise t failure).Avoids bad := by
  unfold unlinkAndRaise
  refine Act.Avoids.bind (.attempt (.perform _ (hfile _ _))) fun unlinked => ?_
  cases unlinked with
  | ok u => exact .throw failure
  | error e =>
      show (if e.type = .fileNotFoundError then throw failure else throw e : Broker Unit).Avoids bad
      split
      · exact .throw failure
      · exact .throw e

/-- A write performs its own `os.replace` and file calls, nothing else. -/
theorem atomicBytes_avoids (hfile : ∀ c t, ¬ bad (.file c t)) {t : Write} (ht : ¬ bad (.replace t)) :
    (self.atomicBytes t).Avoids bad := by
  unfold atomicBytes
  refine Act.Avoids.bind (.perform _ (hfile _ _)) fun _ => ?_
  refine Act.Avoids.bind (.attempt (.perform _ (hfile _ _))) fun created => ?_
  cases created with
  | error e => exact .throw _
  | ok u =>
      have hstage : (stageAndReplace t).Avoids bad := by
        unfold stageAndReplace
        refine Act.Avoids.bind (.perform _ (hfile _ _)) fun _ => ?_
        refine Act.Avoids.bind (.perform _ (hfile _ _)) fun _ => ?_
        exact .perform _ ht
      refine Act.Avoids.bind (.attempt hstage) fun replaced => ?_
      cases replaced with
      | error e => exact unlinkAndRaise_avoids hfile t _
      | ok u =>
          refine Act.Avoids.bind (.attempt (syncDirectory_avoids hfile t)) fun synced => ?_
          cases synced with
          | error e => exact .throw _
          | ok u => exact .pure ()

theorem write_avoids (hfile : ∀ c t, ¬ bad (.file c t)) (hjournal : ∀ text, ¬ bad (.replace (.journal text)))
    (r : RawRecord) : (self.write r).Avoids bad := by
  unfold write
  split
  · exact atomicBytes_avoids self hfile (hjournal _)
  · exact .throw _

theorem saveArtifact_avoids (hfile : ∀ c t, ¬ bad (.file c t))
    (hartifact : ∀ path bytes, ¬ bad (.replace (.artifact path bytes))) (r : JournalRecord)
    (label : PyStr) (mon : Pokemon100) : (self.saveArtifact r label mon).Avoids bad := by
  show (if label ∈ artifactLabels then _ else _ : Broker Unit).Avoids bad
  split
  · refine Act.Avoids.bind (.perform _ (hfile _ _)) fun _ => ?_
    exact atomicBytes_avoids self hfile (hartifact _ _)
  · exact .throw _

theorem load_avoids (hread : ¬ bad .readText) : self.load.Avoids bad := by
  unfold load
  refine Act.Avoids.bind (.attempt (.perform _ hread)) fun text => ?_
  cases text with
  | ok text => exact .ofExcept _
  | error e =>
      show (if e.isOSError then _ else _ : Broker RawRecord).Avoids bad
      split
      · exact .throw _
      · exact .throw _

theorem markRestart_avoids (hfile : ∀ c t, ¬ bad (.file c t))
    (hjournal : ∀ text, ¬ bad (.replace (.journal text))) (hnow : ¬ bad .now) (r : RawRecord) :
    (self.markRestart r).Avoids bad := by
  unfold markRestart
  split
  · exact .pure ()
  · exact Act.Avoids.bind (.perform _ hnow) fun now => write_avoids self hfile hjournal _

end Avoids

end JournalStore

end TradeBroker
