/-
# TradeBroker.Broker.Status — `--status`.

`_show_status` of `broker/main.py` asks whether there is a journal, reads it, and prints what it has read as JSON
once more.  The two calls need not find one drive: a transaction may be running beside them (`Beside`), and the
power may have failed any number of times before.  A `Watch` keeps what each call of the query found, and the
exception with which the file system refused it, if it did.

`status_shows_file`: what is printed is the journal file as the reading call found it, byte for byte, and the exit
status says whether that record asks for recovery — whatever the other sessions do in between.  Otherwise there
was no journal, which is said with status 0, or the file system refused one of the two calls, and its exception is
what the query ends with.

The query is proved to make no other calls than these two (`mainStatus_avoids`), so it does not matter to
anybody who runs beside it.  The other way round it is exposed: between asking and reading, the file may
have been replaced, closed, or lost with its directory, and the theorem says which drive the answer
belongs to.

An exception that the file system raised is an answer too, and a legitimate one.  It has to be on record
in the `Watch`, so a query that gave up for no reason would not satisfy `Shows`.
-/
import TradeBroker.Broker.Outage
import TradeBroker.Broker.Main

namespace TradeBroker

open Lib

-- Programs are compared by running them: keep the bytes of a record, and what is printed, out of that.
attribute [local irreducible] Pokemon100.heldItem dumps utf8

/-! ## §1 — the query. -/

/-- `print(text)`: the bytes that are written to an UTF-8 stream; a text that does not encode raises here, and
nothing is printed. -/
def printLine (text : PyStr) : Broker Bytes :=
  if encodable text then pure (utf8 (text ++ "\n")) else throw ⟨.unicodeEncodeError, "surrogates not allowed"⟩

/-- What `_show_status` prints where there is no journal. -/
def noJournal : PyStr := "No transaction journal exists."

/-- `_show_status(store)`: what it prints, and what it returns. -/
def showStatus (floatRepr : Float → PyStr) (store : JournalStore) : Broker (Bytes × Int) := do
  let present ← pathExists
  if present then do
    let record ← store.load
    let printed ← printLine (dumps floatRepr (.obj record.asJsonDict))
    pure (printed, if record.state = .recoveryRequired then 2 else 0)
  else do
    let printed ← printLine noJournal
    pure (printed, 0)

/-- `main` for a status query: what was printed before, and the exit status of the exception or of the answer. -/
def mainStatus (floatRepr : Float → PyStr) (store : JournalStore) : Prog Op Ret (Bytes × Exit) := do
  let ended ← (showStatus floatRepr store).run
  match ended with
  | .ok (printed, status) => pure (printed, .returned status [])
  | .error e => pure ([], exitOf (.error e))

/-- **The query changes nothing**: it looks at the journal, and that is all. -/
theorem mainStatus_avoids (floatRepr : Float → PyStr) (store : JournalStore) :
    (mainStatus floatRepr store).Avoids fun op => op ≠ .pathExists ∧ op ≠ .readText := by
  have hprint : ∀ text, (printLine text).Avoids fun op => op ≠ .pathExists ∧ op ≠ .readText := by
    intro text
    unfold printLine
    split
    · exact Act.Avoids.pure _
    · exact Act.Avoids.throw _
  have hshow : (showStatus floatRepr store).Avoids fun op => op ≠ .pathExists ∧ op ≠ .readText := by
    unfold showStatus
    refine Act.Avoids.bind (.perform _ fun h => h.1 rfl) ?_
    intro present
    cases present with
    | false => exact Act.Avoids.bind (hprint _) fun _ => Act.Avoids.pure _
    | true =>
        refine Act.Avoids.bind (store.load_avoids fun h => h.2 rfl) fun record => ?_
        exact Act.Avoids.bind (hprint _) fun _ => Act.Avoids.pure _
  refine Prog.Avoids.bind hshow ?_
  intro ended
  cases ended with
  | ok out => exact trivial
  | error e => exact trivial

/-! ## §2 — beside other sessions. -/

/-- A call of the query: the drive that it found, and the exception with which the file system refused it. -/
structure Look where
  op : Op
  drive : Drive
  refused : Option Exc

/-- The drive now, and the calls so far, the last one first; it is a record that no program reads. -/
structure Watch where
  now : Drive
  looks : List Look := []

/-- The exception that a call came back with. -/
def raisedBy {α : Type} : Except Exc α → Option Exc
  | .ok _ => none
  | .error e => some e

/-- The exception that a reading call came back with; the query makes no others. -/
def refusalOf : (op : Op) → Ret op → Option Exc
  | .pathExists, answer => raisedBy (α := Bool) answer
  | .readText, answer => raisedBy (α := JournalText) answer
  | _, _ => none

section Beside

variable (floatRepr : Float → PyStr) (limit : Nat)

/-- A program makes its calls on a drive that others use too: behind each call the drive may have become any
of `others`, which stands for whatever ran in between. -/
def Beside (others : Drive → Prop) : Prog.Sem Op Ret Watch := fun w op r w' =>
  (∃ d, DriveStep floatRepr limit w.now op r d) ∧ others w'.now ∧
    w'.looks = ⟨op, w.now, refusalOf op r⟩ :: w.looks

/-- What the query comes to by one of its calls: there was no journal, or the file that was read, or the exception
that the file system refused the call with. -/
inductive Shows (journal : JournalStore) (l : Look) : Bytes → Exit → Prop
  | nothing : l.op = .pathExists → l.refused = none → l.drive.volume.read .journal = none →
      Shows journal l (utf8 (noJournal ++ "\n")) (.returned 0 [])
  | file (content : Bytes) (raw : RawRecord) : l.op = .readText → l.refused = none →
      l.drive.volume.read .journal = some content → journal.loadContent limit content = .ok raw →
      Shows journal l content (.returned (if raw.state = .recoveryRequired then 2 else 0) [])
  | unreadable (e : Exc) : l.op = .readText → l.refused = some e → e.isOSError = true →
      Shows journal l [] (.returned 1 ("ERROR: " ++ ("cannot read journal " ++ journal.path ++ ": " ++ e.text)))
  | uncaught (e : Exc) : l.op = .pathExists → l.refused = some e → e.isOSError = true →
      Shows journal l [] (.uncaught e)

end Beside

section Status

variable {floatRepr : Float → PyStr} {limit : Nat} {journal : JournalStore} {losses : Prop}
  {v₀ : Volume FileName Bytes} {w : Watch}

theorem printLine_sat {text : PyStr} (htext : encodable text = true) {W : Type} {S : Prog.Sem Op Ret W}
    {I : W → Prop} {w : W} (hw : I w) {E : Exc → W → Prop} :
    Act.Sat S I (printLine text) w (fun printed w' => printed = utf8 (text ++ "\n") ∧ w' = w) E := by
  unfold printLine
  rw [if_pos htext]
  exact Act.Sat.pure hw ⟨rfl, rfl⟩

/-- An `OSError` that nobody wraps is a traceback. -/
theorem exitOf_of_isOSError {e : Exc} (h : e.isOSError = true) : exitOf (.error e) = .uncaught e := by
  obtain ⟨type, text⟩ := e
  cases type <;> first | rfl | exact absurd h Bool.false_ne_true

/-- The exception says what became of the query: the file system refused a call, or the journal it read is
none. -/
def Unanswered (limit : Nat) (journal : JournalStore) (e : Exc) (w : Watch) : Prop :=
  ∃ l ∈ w.looks, Shows limit journal l [] (exitOf (.error e))

/-- The journal is read once, and what is read is the file that the drive had at that moment. -/
theorem load_status_sat (hlimit : 3 ≤ limit) (h : Dependable floatRepr (¬ losses) w.now) {others : Drive → Prop} :
    Act.Sat (Beside floatRepr limit others) (fun _ => True) journal.load w
      (fun raw w' => ⟨.readText, w.now, none⟩ ∈ w'.looks ∧ ∃ r : JournalRecord, r.Proper ∧ raw = r.raw ∧
        w.now.volume.read .journal = some (r.journalBytes floatRepr)) (Unanswered limit journal) := by
  unfold JournalStore.load
  have hread : Act.Sat (Beside floatRepr limit others) (fun _ => True) readText w
      (fun text w' => ⟨.readText, w.now, none⟩ ∈ w'.looks ∧ ∃ r : JournalRecord, r.Proper ∧
        text = .json r.document.sorted ∧ w.now.volume.read .journal = some (r.journalBytes floatRepr))
      (fun e w' => e.isOSError = true ∧ ⟨.readText, w.now, some e⟩ ∈ w'.looks) := by
    refine ⟨trivial, ?_⟩
    rintro answer w' ⟨⟨d, -, hanswer⟩, -, hlooks⟩
    have hmem : ⟨.readText, w.now, refusalOf .readText answer⟩ ∈ w'.looks := by
      rw [hlooks]
      exact List.mem_cons_self
    rcases hanswer with ⟨content, hcontent, rfl⟩ | ⟨e, he, rfl⟩
    · obtain ⟨r, hr, rfl, -⟩ := h.journal.read hcontent
      rw [JournalStore.readContent_journalBytes hlimit hr] at hmem ⊢
      exact ⟨trivial, hmem, r, hr, rfl, hcontent⟩
    · exact ⟨trivial, he, hmem⟩
  refine Act.Sat.bind (Act.Sat.attempt hread) ?_
  rintro text w' - htext
  cases text with
  | ok text =>
      obtain ⟨hmem, r, hr, rfl, hcontent⟩ := htext
      show Act.Sat _ _ (ofExcept (JournalText.load journal (.json r.document.sorted))) _ _ _
      rw [journal.load_sorted_document hr]
      exact Act.Sat.ofExcept trivial ⟨hmem, r, hr, rfl, hcontent⟩
  | error e =>
      obtain ⟨he, hmem⟩ := htext
      show Act.Sat _ _ (if e.isOSError then _ else _ : Broker RawRecord) _ _ _
      rw [if_pos he]
      exact Act.Sat.throw trivial ⟨_, hmem, .unreadable e rfl rfl he⟩

/-- What is printed is what was read. -/
theorem showStatus_sat (hlimit : 3 ≤ limit) {others : Drive → Prop}
    (hothers : ∀ d, others d → Dependable floatRepr (¬ losses) d) :
    Act.Sat (Beside floatRepr limit others) (fun _ => True) (showStatus floatRepr journal) w
      (fun out w' => ∃ l ∈ w'.looks, Shows limit journal l out.1 (.returned out.2 []))
      (Unanswered limit journal) := by
  unfold showStatus
  refine Act.Sat.bind (R := fun present w' => others w'.now ∧ ⟨.pathExists, w.now, none⟩ ∈ w'.looks ∧
    (present = false → w.now.volume.read .journal = none)) ?_ ?_
  · refine ⟨trivial, ?_⟩
    rintro answer w' ⟨⟨d, -, hanswer⟩, hnow, hlooks⟩
    have hmem : ⟨.pathExists, w.now, refusalOf .pathExists answer⟩ ∈ w'.looks := by
      rw [hlooks]
      exact List.mem_cons_self
    rcases hanswer with rfl | ⟨e, he, rfl⟩
    · refine ⟨trivial, hnow, hmem, fun hnone => ?_⟩
      have hentry := Option.not_isSome_iff_eq_none.mp (Bool.eq_false_iff.mp hnone)
      rw [Volume.read, hentry, Option.map_none]
    · refine ⟨trivial, _, hmem, ?_⟩
      rw [exitOf_of_isOSError he]
      exact .uncaught e rfl rfl he
  rintro present w' - ⟨hnow, hmem, hnone⟩
  cases present with
  | false =>
      refine Act.Sat.bind (printLine_sat (show encodable noJournal = true from encodable_lit _) trivial) ?_
      rintro printed _ - ⟨rfl, rfl⟩
      exact Act.Sat.pure trivial ⟨_, hmem, .nothing rfl rfl (hnone rfl)⟩
  | true =>
      refine Act.Sat.bind (load_status_sat hlimit (hothers w'.now hnow)) ?_
      rintro raw w'' - ⟨hmem, r, hr, rfl, hcontent⟩
      have hprints : encodable (dumps floatRepr (.obj r.raw.asJsonDict)) = true :=
        encodable_dumps floatRepr hr.made.plain hr.encodable
      refine Act.Sat.bind (printLine_sat hprints trivial) ?_
      rintro printed _ - ⟨hprinted, rfl⟩
      -- `print` ends the line with the new line that ends the file
      have hprinted : printed = r.journalBytes floatRepr := hprinted
      subst hprinted
      exact Act.Sat.pure trivial ⟨_, hmem, .file _ r.raw rfl rfl hcontent (hr.loadContent hlimit)⟩

/-- **`--status` shows the journal as it found it.**  Whatever the machine has been through, and whatever sessions
and power losses come between the two calls of the query: it prints the bytes of the journal as the reading call
found it, and returns 2 exactly when that record asks for recovery; or the first call found no journal; or the
file system refused one of the calls, and the query ends with the exception of that call. -/
theorem status_shows_file (hlimit : 3 ≤ limit) (h₀ : v₀.maybe .journal = [none]) {d : Drive} {out : Bytes × Exit}
    {w' : Watch} (hr : Prog.Finish (Beside floatRepr limit (Lives floatRepr limit journal losses v₀))
      (mainStatus floatRepr journal) ⟨d, []⟩ out w') :
    ∃ l ∈ w'.looks, Shows limit journal l out.1 out.2 := by
  have hshow : Act.Sat (Beside floatRepr limit (Lives floatRepr limit journal losses v₀)) (fun _ => True)
      (showStatus floatRepr journal) ⟨d, []⟩ _ _ := showStatus_sat hlimit fun d hd => hd.dependable hlimit h₀
  refine (Prog.Sat.finish (I := fun _ => True) (Q := fun out w' => ∃ l ∈ w'.looks, Shows limit journal l out.1 out.2)
    (Prog.Sat.bind hshow ?_) hr).2
  rintro ended w' - hended
  cases ended with
  | ok out => exact ⟨trivial, hended⟩
  | error e => exact ⟨trivial, hended⟩

end Status

/-- The drive behind a transaction whose adapter was not there. -/
def lostDrive : Drive :=
  (Prog.run (fun d => d.answer adapterLost (fun _ => []) 3) (TradeCoordinator.execute sampleStore (sampleMon 0)).run
    ⟨newVolume, none, []⟩).2

theorem lostDrive_lives : Lives (fun _ => []) 3 sampleStore False newVolume lostDrive :=
  .session .start (Prog.run_finish (Drive.answer_step _ _ _) _ _)

/-- A query behind it. -/
def statusRun : (Bytes × Exit) × Watch :=
  Prog.run (fun w op =>
      let answer := (w.now.answer adapterLost (fun _ => []) 3 op).1
      (answer, ⟨lostDrive, ⟨op, w.now, refusalOf op answer⟩ :: w.looks⟩))
    (mainStatus (fun _ => []) sampleStore) ⟨lostDrive, []⟩

theorem statusRun_eval : statusRun.1.2 = .returned 2 [] := by
  decide +kernel

/-- It prints a journal that asks for recovery. -/
theorem status_shows_file_recovery :
    ∃ l ∈ statusRun.2.looks, ∃ raw : RawRecord, l.drive.volume.read .journal = some statusRun.1.1 ∧
      sampleStore.loadContent 3 statusRun.1.1 = .ok raw ∧ raw.state = .recoveryRequired := by
  have hfinish : Prog.Finish (Beside (fun _ => []) 3 (Lives (fun _ => []) 3 sampleStore False newVolume))
      (mainStatus (fun _ => []) sampleStore) ⟨lostDrive, []⟩ statusRun.1 statusRun.2 :=
    Prog.run_finish (fun w op => ⟨⟨_, Drive.answer_step _ _ _ w.now op⟩, lostDrive_lives, rfl⟩) _ _
  obtain ⟨l, hl, hshows⟩ := status_shows_file (Nat.le_refl 3) rfl hfinish
  rw [statusRun_eval] at hshows
  refine ⟨l, hl, ?_⟩
  generalize statusRun.1.1 = printed at hshows ⊢
  generalize hexit : (Exit.returned 2 [] : Exit) = exit at hshows
  cases hshows with
  | nothing => cases hexit
  | unreadable e => cases hexit
  | uncaught e => cases hexit
  | file content raw _ _ hread hload =>
      refine ⟨raw, hread, hload, ?_⟩
      by_contra hstate
      rw [if_neg hstate] at hexit
      cases hexit

end TradeBroker
