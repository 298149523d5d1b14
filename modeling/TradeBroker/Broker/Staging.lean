/-
# TradeBroker.Broker.Staging — what a session asks of the file system.

`Effects.Step` lets `os.replace` install the payload that its caller has in mind.  A real one moves whatever is in
the temporary file.  That the two agree is a property of the program: the file has been made and filled, with this
very payload and since the last `mkdir`, whenever `execute` comes to an `os.replace`.  It is proved here for the
program ALONE, against a world that answers anything (`Bench`), but that the journal it reads is one of its own.

* `Stage` is what the process knows of its temporary file.
* `Entitled` are the calls it may make of it.  A journal is only written as the document of a proper record.
* `execute_entitled`: every call of `execute` is one of these.
* `execute_blind`: `execute` makes the same of two texts that load into the same record.

The stage of the temporary file is a ghost of the process, as the views of `Lib.Interleave` are: closed,
created, filled with a payload.  A `mkdir` sets it back, a failed call leaves it where it may still be
used, and a replace that succeeds closes it.

Both results are proved statement by statement over the `try` body, and `Neat` is what a statement has to
satisfy: it abides, it keeps the record regular, and it does not read the journal.
-/
import TradeBroker.Lib.Refinement
import TradeBroker.Broker.PowerLoss

namespace TradeBroker

open Lib

-- Programs are compared by running them: keep the bytes of a record out of that.
attribute [local irreducible] Pokemon100.heldItem

/-! ## §1 — the temporary file. -/

/-- What the process knows of its temporary file: there is none, it was created, or it holds this payload. -/
inductive Stage where
  | closed
  | opened
  | filled (t : Write)

/-- The stage after a call, as far as the process can tell; a call that raised tells it nothing good. -/
def Stage.note (g : Stage) : (op : Op) → Ret op → Stage
  | .file .mkdir _, _ => .closed
  | .file .createTemp _, .ok () => .opened
  | .file .createTemp _, .error _ => .closed
  | .file .writeTemp t, .ok () => .filled t
  | .file .writeTemp _, .error _ => .opened
  | .file .unlinkTemp _, _ => .closed
  | .replace _, .ok () => .closed
  | _, _ => g

/-- A journal is only written as the document of a record of the program; an artifact may hold any bytes. -/
def Write.Fits : Write → Prop
  | .journal text => ∃ r : JournalRecord, r.Proper ∧ text = .json r.document
  | .artifact _ _ => True

/-- What is read was written by the program: the condition on the answers that a session may rely on. -/
def Readable (_ : Stage) : (op : Op) → Ret op → Prop
  | .readText, .ok text => ∃ r : JournalRecord, r.Proper ∧ text = .json r.document.sorted
  | _, _ => True

/-- The calls on the temporary file that a process may make: to fill what it has created, and to move into
place what it has filled with just this payload. -/
def Entitled (g : Stage) : (op : Op) → Ret op → Prop
  | .file .writeTemp _, _ => g ≠ .closed
  | .file .unlinkTemp _, _ => g ≠ .closed
  | .replace t, _ => g = .filled t ∧ t.Fits
  | _, _ => True

/-- A process alone: each operation answers as its own stage allows, and nobody else touches the temporary
file. -/
def Bench : Prog.Sem Op Ret (Stage × Prop) := localSem Stage.note Readable Entitled

/-- The operation is one on the temporary file, or moves it into its place. -/
def Op.handles : Op → Bool
  | .file .writeTemp _ => true
  | .file .unlinkTemp _ => true
  | .replace _ => true
  | _ => false

/-- The operation reads the journal. -/
def Op.reads : Op → Bool
  | .readText => true
  | _ => false

theorem entitled_of_not_handles {op : Op} (h : ¬ op.handles = true) (g : Stage) (r : Ret op) : Entitled g op r := by
  unfold Entitled
  split
  all_goals first | exact absurd rfl h | trivial

/-! ## §2 — programs that make no other calls. -/

/-- From any stage on, the program makes only calls that it is entitled to, and returns what satisfies `Q`.
That it is from any stage lets it be used behind whatever was left before. -/
def Abides {α : Type} (Q : α → Prop) (x : Broker α) : Prop :=
  ∀ y : Stage × Prop, y.2 → Act.Sat Bench (fun y => y.2) x y (fun a _ => Q a) fun _ _ => True

namespace Abides

variable {α β : Type} {Q R : α → Prop}

theorem pure {a : α} (h : Q a) : Abides Q (Pure.pure a) := fun _ hy => Act.Sat.pure hy h

theorem throw (e : Exc) : Abides Q (MonadExcept.throw e) := fun _ hy => Act.Sat.throw hy trivial

theorem bind {Q : β → Prop} {x : Broker α} {f : α → Broker β} (hx : Abides R x) (hf : ∀ a, R a → Abides Q (f a)) :
    Abides Q (x >>= f) := fun y hy => Act.Sat.bind (hx y hy) fun a y' hy' ha => hf a ha y' hy'

theorem attempt {x : Broker α} (h : Abides Q x) : Abides (fun _ => True) (Act.attempt x) := by
  intro y hy
  have hattempt : Act.Sat Bench (fun y => y.2) (Act.attempt x) y (Ends (fun a _ => Q a) fun _ _ => True)
      fun _ _ => True := Act.Sat.attempt (h y hy)
  exact hattempt.mono (fun _ hv => hv) (fun _ _ _ _ => trivial) fun _ _ _ _ => trivial

/-- A program that does not touch the temporary file abides by any stage. -/
theorem of_avoids {x : Broker α} (h : x.Avoids fun op => op.handles = true) : Abides (fun _ => True) x := by
  intro y hy
  refine (h.sat (J := fun y : Stage × Prop => y.2) ?_ (fun _ hv => hv) hy).mono (fun _ hv => hv)
    (fun _ _ _ _ => trivial) fun _ _ _ _ => trivial
  rintro y op r y' hop - ⟨-, rfl⟩
  exact entitled_of_not_handles hop y.1 r

theorem ofExcept (r : Except Exc α) : Abides (fun _ => True) (TradeBroker.ofExcept r) := of_avoids (.ofExcept r)

/-- One call that does not touch the temporary file. -/
theorem perform {op : Op} (k : Ret op → Except Exc α) (h : op.handles = false) :
    Abides (fun _ => True) (ExceptT.mk (.call op fun r => .done (k r)) : Broker α) :=
  of_avoids (.perform k (by rw [h]; exact Bool.false_ne_true))

end Abides

/-! ## §3 — the journal store. -/

namespace JournalStore

variable (self : JournalStore) {t : Write} {g : Stage} {ok : Prop} {r : JournalRecord}

/-- A call on files, and the stage behind it, whether it returns or raises. -/
theorem fileCall_bench {c : FileCall} (hok : ok) (h : ∀ answer, Entitled g (.file c t) answer) :
    Act.Sat Bench (fun y => y.2) (fileCall c t) (g, ok) (fun _ y => y.1 = g.note (.file c t) (.ok ()))
      fun e y => y.1 = g.note (.file c t) (.error e) := by
  refine ⟨hok, ?_⟩
  rintro answer _ ⟨-, rfl⟩
  cases answer with
  | ok u => exact ⟨h _, rfl⟩
  | error e => exact ⟨h _, rfl⟩

/-- What is moved is what was written, and a raise finds the temporary file still there to be removed. -/
theorem stageAndReplace_bench (ht : t.Fits) (hok : ok) :
    Act.Sat Bench (fun y => y.2) (stageAndReplace t) (.opened, ok) (fun _ _ => True) fun _ y => y.1 ≠ .closed := by
  unfold stageAndReplace
  refine Act.Sat.bind (R := fun _ y => y.1 = .filled t) ?_ ?_
  · apply (fileCall_bench hok fun _ => Stage.noConfusion).mono (fun _ hv => hv) (fun _ _ _ hy => hy)
    rintro e y _ hy
    rw [hy]
    exact Stage.noConfusion
  rintro _ ⟨g, ok⟩ hok rfl
  refine Act.Sat.bind (R := fun _ y => y.1 = .filled t) ?_ ?_
  · refine (fileCall_bench (c := .fsyncTemp) (t := t) hok fun _ => trivial).mono (fun _ hv => hv)
      (fun _ _ _ hy => hy) ?_
    rintro e y _ hy
    rw [hy]
    exact Stage.noConfusion
  rintro _ ⟨g, ok⟩ hok rfl
  refine ⟨hok, ?_⟩
  rintro answer _ ⟨-, rfl⟩
  cases answer with
  | ok u => exact ⟨⟨rfl, ht⟩, trivial⟩
  | error e => exact ⟨⟨rfl, ht⟩, Stage.noConfusion⟩

theorem unlinkAndRaise_bench {failure : Exc} (hg : g ≠ .closed) (hok : ok) :
    Act.Sat Bench (fun y => y.2) (unlinkAndRaise t failure) (g, ok) (fun _ _ => True) fun _ _ => True := by
  unfold unlinkAndRaise
  refine Act.Sat.bind (Act.Sat.attempt (fileCall_bench hok fun _ => hg)) ?_
  rintro unlinked y hy -
  cases unlinked with
  | ok u => exact Act.Sat.throw hy trivial
  | error e =>
      show Act.Sat Bench _ (if e.type = .fileNotFoundError then throw failure else throw e) _ _ _
      split
      · exact Act.Sat.throw hy trivial
      · exact Act.Sat.throw hy trivial

/-- **An atomic write abides**, whatever was left of the one before, since it makes its own temporary file. -/
theorem atomicBytes_abides (ht : t.Fits) : Abides (fun _ => True) (self.atomicBytes t) := by
  rintro ⟨g, ok⟩ hok
  unfold atomicBytes
  apply Act.Sat.bind (Abides.perform _ rfl (g, ok) hok)
  rintro _ ⟨g, ok⟩ hok -
  apply Act.Sat.bind (Act.Sat.attempt (fileCall_bench (c := .createTemp) (t := t) hok fun _ => trivial))
  rintro created ⟨g, ok⟩ hok hcreated
  cases created with
  | error e => exact Act.Sat.throw hok trivial
  | ok u =>
      obtain rfl : g = .opened := hcreated
      apply Act.Sat.bind (Act.Sat.attempt (stageAndReplace_bench ht hok))
      rintro replaced ⟨g, ok⟩ hok hreplaced
      cases replaced with
      | error e => exact unlinkAndRaise_bench hreplaced hok
      | ok u =>
          have hsync : Abides (fun _ => True) (syncDirectory t) := by
            unfold syncDirectory
            refine Abides.of_avoids (Act.Avoids.bind (.perform _ Bool.false_ne_true) fun _ => ?_)
            refine Act.Avoids.bind (.attempt (.perform _ Bool.false_ne_true)) fun synced => ?_
            exact Act.Avoids.bind (.perform _ Bool.false_ne_true) fun _ => .ofExcept synced
          apply Act.Sat.bind (Act.Sat.attempt (hsync (g, ok) hok))
          intro synced y hy _
          cases synced with
          | error e => exact Act.Sat.throw hy trivial
          | ok u => exact Act.Sat.pure hy trivial

/-- A record that the program made is written as a proper one, or not at all. -/
theorem write_abides (hmade : r.Made) (hplaces : r.locations.keys = [lit "A", lit "B", lit "P"]) :
    Abides (fun _ => True) (self.write r.raw) := by
  unfold write
  split
  · rename_i henc
    exact self.atomicBytes_abides ⟨r, ⟨hmade, hplaces, henc⟩, rfl⟩
  · exact .throw _

theorem saveArtifact_abides (r : JournalRecord) (label : PyStr) (mon : Pokemon100) :
    Abides (fun _ => True) (self.saveArtifact r label mon) := by
  show Abides _ (if label ∈ artifactLabels then _ else _)
  split
  · exact .bind (.perform _ rfl) fun _ _ => self.atomicBytes_abides trivial
  · exact .throw _

/-- What is loaded is a record of the program. -/
theorem load_abides : Abides (fun raw => ∃ r : JournalRecord, r.Proper ∧ raw = r.raw) self.load := by
  intro y hy
  unfold load
  have hread : Act.Sat Bench (fun y => y.2) readText y
      (fun text _ => ∃ r : JournalRecord, r.Proper ∧ text = .json r.document.sorted) fun _ _ => True := by
    refine ⟨hy, ?_⟩
    rintro answer _ ⟨hreadable, rfl⟩
    cases answer with
    | ok text => exact ⟨trivial, hreadable⟩
    | error e => exact ⟨trivial, trivial⟩
  apply Act.Sat.bind (Act.Sat.attempt hread)
  intro text y hy htext
  cases text with
  | ok text =>
      obtain ⟨r, hr, rfl⟩ := htext
      show Act.Sat _ _ (ofExcept (JournalText.load self (.json r.document.sorted))) _ _ _
      rw [self.load_sorted_document hr]
      exact Act.Sat.ofExcept hy ⟨r, hr, rfl⟩
  | error e =>
      show Act.Sat _ _ (if e.isOSError then _ else _ : Broker RawRecord) _ _ _
      split
      · exact Act.Sat.throw hy trivial
      · exact Act.Sat.throw hy trivial

theorem markRestart_abides (hr : r.Proper) : Abides (fun _ => True) (self.markRestart r.raw) := by
  unfold markRestart
  by_cases hterm : r.state.terminal = true
  · rw [if_pos (show r.raw.state.terminal = true from hterm)]
    exact .pure trivial
  · rw [if_neg (show ¬ r.raw.state.terminal = true from hterm)]
    refine .bind (.perform _ rfl) fun now _ => ?_
    have hc := JournalRecord.check_restart (by simpa using hterm : r.state.terminal = false)
    show Abides _ (self.write (r.raw.restarted now))
    rw [← r.raw_restarted now]
    exact self.write_abides (hr.made.advanced now hc) hr.places

theorem requireNewTransaction_abides : Abides (fun _ => True) self.requireNewTransaction := by
  unfold requireNewTransaction
  refine .bind (.perform _ rfl) fun present _ => ?_
  cases present with
  | false => exact .pure trivial
  | true =>
      refine .bind self.load_abides ?_
      rintro _ ⟨r, hr, rfl⟩
      refine .bind (self.markRestart_abides hr) fun _ _ => ?_
      exact .bind self.load_abides fun _ _ => .throw _

/-- What the caller of the store holds: a record that was made, with its three labels in order. -/
structure Regular (r : JournalRecord) : Prop where
  made : r.Made
  places : r.locations.keys = [lit "A", lit "B", lit "P"]

theorem create_abides (P : Pokemon100) : Abides Regular (self.create P) := by
  unfold create
  refine .bind (.perform _ rfl) fun present _ => ?_
  cases present with
  | true => exact .bind self.load_abides fun _ _ => .throw _
  | false =>
      refine .bind (.perform _ rfl) fun now _ => .bind (.perform _ rfl) fun txid _ => ?_
      refine .bind (self.saveArtifact_abides _ _ _) fun _ _ => ?_
      have hmade := JournalRecord.Made.created txid now P
      exact .bind (self.write_abides hmade rfl) fun _ _ => .pure ⟨hmade, rfl⟩

/-- A transition hands a regular record back, and writes no other. -/
theorem transition_abides (hr : Regular r) (s : JournalState) {u : Update}
    (hplaces : ∀ e, u.locations = some e → ∀ k ∈ e.keys, k ∈ [lit "A", lit "B", lit "P"]) {y : Stage × Prop}
    (hy : y.2) :
    Prog.Sat Bench (fun y => y.2) (fun ended _ => Regular ended.2) (self.transition r s u) y := by
  unfold transition
  cases hc : r.check s u with
  | error e => exact ⟨hy, hr⟩
  | ok a =>
      refine ⟨hy, ?_⟩
      rintro (now : PyStr) _ ⟨-, rfl⟩
      have hregular : Regular (r.advance s now u) :=
        ⟨hr.made.advanced now hc, JournalRecord.places_advance hr.places now hplaces⟩
      apply Prog.Sat.bind (self.write_abides hregular.made hregular.places _ trivial)
      intro written y hy _
      exact ⟨hy, hregular⟩

/-! ### what a text is read for -/

/-- Two texts that load into the same record are the same to the store, and so are two that fail in the same
way. -/
def SameToLoad : (op : Op) → Ret op → Ret op → Prop
  | .readText, .ok text, .ok text' => text.load self = text'.load self
  | _, r, r' => r = r'

theorem SameToLoad.refl (op : Op) (r : Ret op) : SameToLoad self op r r := by
  unfold SameToLoad
  split <;> rfl

variable {self} in
theorem SameToLoad.eq {op : Op} {r r' : Ret op} (hop : ¬ op.reads = true) (h : SameToLoad self op r r') : r = r' := by
  unfold SameToLoad at h
  split at h
  · exact absurd rfl hop
  · exact h

/-- A program that does not read the journal cannot tell two journals apart. -/
theorem blind_of_avoids {α : Type} {x : Broker α} (h : x.Avoids fun op => op.reads = true) :
    x.Blind self.SameToLoad := Prog.Avoids.blind h fun _ _ _ hop hs => hs.eq hop

theorem blind_perform {α : Type} {op : Op} (k : Ret op → Except Exc α) (h : op.reads = false) :
    Act.Blind self.SameToLoad (ExceptT.mk (.call op fun r => .done (k r)) : Broker α) :=
  self.blind_of_avoids (.perform k (by rw [h]; exact Bool.false_ne_true))

/-- **Only what a text loads into matters**: two texts that load alike are one to the program. -/
theorem load_blind : self.load.Blind self.SameToLoad := by
  refine ⟨?_, ?_⟩
  · intro answer answer' hsame
    cases answer with
    | error e =>
        obtain rfl : Except.error e = answer' := hsame
        rfl
    | ok text =>
        cases answer' with
        | error e => cases (show Except.ok text = Except.error e from hsame)
        | ok text' =>
            have hload : text.load self = text'.load self := hsame
            exact congrArg (fun loaded : Except Exc RawRecord => (ofExcept loaded).run) hload
  · intro answer
    cases answer with
    | ok text => exact trivial
    | error e =>
        show Prog.Blind _ (if e.isOSError then _ else _ : Broker RawRecord).run
        split
        · exact trivial
        · exact trivial

theorem requireNewTransaction_blind : self.requireNewTransaction.Blind self.SameToLoad := by
  unfold requireNewTransaction
  refine .bind (self.blind_perform _ rfl) fun present => ?_
  cases present with
  | false => exact trivial
  | true =>
      refine .bind self.load_blind fun record => .bind (self.blind_of_avoids ?_) fun _ => ?_
      · exact self.markRestart_avoids (fun _ _ => Bool.false_ne_true) (fun _ => Bool.false_ne_true) Bool.false_ne_true _
      · exact .bind self.load_blind fun again => trivial

theorem saveArtifact_blind (r : JournalRecord) (label : PyStr) (mon : Pokemon100) :
    (self.saveArtifact r label mon).Blind self.SameToLoad :=
  self.blind_of_avoids (self.saveArtifact_avoids (fun _ _ => Bool.false_ne_true) (fun _ _ => Bool.false_ne_true) _ _ _)

theorem write_blind (raw : RawRecord) : (self.write raw).Blind self.SameToLoad :=
  self.blind_of_avoids (self.write_avoids (fun _ _ => Bool.false_ne_true) (fun _ => Bool.false_ne_true) raw)

theorem create_blind (P : Pokemon100) : (self.create P).Blind self.SameToLoad := by
  unfold create
  refine .bind (self.blind_perform _ rfl) fun present => ?_
  cases present with
  | true => exact .bind self.load_blind fun _ => trivial
  | false =>
      refine .bind (self.blind_perform _ rfl) fun now => .bind (self.blind_perform _ rfl) fun txid => ?_
      exact .bind (self.saveArtifact_blind _ _ _) fun _ => .bind (self.write_blind _) fun _ => trivial

theorem transition_blind (r : JournalRecord) (s : JournalState) (u : Update) :
    (self.transition r s u).Blind self.SameToLoad := by
  unfold transition
  split
  · trivial
  · refine ⟨?_, ?_⟩
    · rintro now _ rfl
      rfl
    · intro now
      exact Prog.Blind.bind (self.write_blind _) fun _ => trivial

end JournalStore

/-! ## §4 — the coordinator. -/

namespace TradeCoordinator

open JournalStore (Regular)

variable (journal : JournalStore)

/-- From any stage on, the method abides, and its record stays regular.  It does not read the journal, so it
cannot see how the journal is kept. -/
structure Neat {α : Type} (x : Coordinator α) : Prop where
  abides : ∀ l (y : Stage × Prop), Regular l.record → y.2 → Method.Sat Bench (fun y => y.2) x l y
    (fun _ l' _ => Regular l'.record) fun _ l' _ => Regular l'.record
  blind : x.Blind journal.SameToLoad

namespace Neat

variable {journal} {α β : Type}

theorem pure (a : α) : Neat journal (Pure.pure a) :=
  ⟨fun _ _ hl hy => Method.Sat.pure hy hl, fun _ => trivial⟩

theorem get : Neat journal MonadState.get := ⟨fun _ _ hl hy => ⟨hy, hl⟩, fun _ => trivial⟩

/-- A flag is set, and the record is the one it was. -/
theorem assign {f : Locals → Locals} (h : ∀ l, (f l).record = l.record) : Neat journal (modify f) where
  abides := fun l _ hl hy => Method.Sat.assign hy (show Regular (f l).record from (h l).symm ▸ hl)
  blind := fun _ => trivial

theorem bind {x : Coordinator α} {f : α → Coordinator β} (hx : Neat journal x) (hf : ∀ a, Neat journal (f a)) :
    Neat journal (x >>= f) where
  abides := fun l y hl hy => Method.Sat.bind (hx.abides l y hl hy) fun a l' y' hy' hl' => (hf a).abides l' y' hl' hy'
  blind := hx.blind.bind fun a => (hf a).blind

theorem lift {Q : α → Prop} {x : Broker α} (h : Abides Q x) (hb : x.Blind journal.SameToLoad) :
    Neat journal (Method.lift x) where
  abides := fun _ y hl hy =>
    Method.Sat.lift ((h y hy).mono (fun _ hv => hv) (fun _ _ _ _ => hl) fun _ _ _ _ => hl)
  blind := .lift hb

/-- One call that neither touches the temporary file nor reads the journal. -/
theorem perform {op : Op} (k : Ret op → Except Exc α) (h : op.handles = false) (hr : op.reads = false) :
    Neat journal (Method.lift (ExceptT.mk (.call op fun r => .done (k r)) : Broker α)) :=
  lift (.perform k h) (journal.blind_perform k hr)

theorem ofExcept (r : Except Exc α) : Neat journal (Method.lift (TradeBroker.ofExcept r)) :=
  lift (.ofExcept r) trivial

theorem transition (s : JournalState) {u : Update}
    (hplaces : ∀ e, u.locations = some e → ∀ k ∈ e.keys, k ∈ [lit "A", lit "B", lit "P"]) :
    Neat journal (transition journal s u) where
  abides := by
    intro l y hl hy
    apply Prog.Sat.bind (journal.transition_abides hl s hplaces hy)
    rintro ⟨written, r⟩ y hy hr
    refine ⟨hy, ?_⟩
    cases written with
    | ok u => exact hr
    | error e => exact hr
  blind := fun l => Prog.Blind.bind (journal.transition_blind l.record s u) fun _ => trivial

/-- A transition with a note, and no locations. -/
theorem note (s : JournalState) (note : PyStr) :
    Neat journal (TradeCoordinator.transition journal s { note := note }) := transition s fun e he => by cases he

theorem hook (boundary : Boundary) : Neat journal (hook boundary) := by
  have hcall : ∀ r, Neat journal (Method.lift (faultHook boundary r)) := fun r => perform _ rfl rfl
  exact ⟨fun l => (hcall l.record).abides l, fun l => (hcall l.record).blind l⟩

theorem saveArtifact (label : PyStr) (mon : Pokemon100) : Neat journal (saveArtifact journal label mon) := by
  have hcall : ∀ r, Neat journal (Method.lift (journal.saveArtifact r label mon)) := fun r =>
    lift (journal.saveArtifact_abides r label mon) (journal.saveArtifact_blind r label mon)
  exact ⟨fun l => (hcall l.record).abides l, fun l => (hcall l.record).blind l⟩

theorem switchStage1 (P : Pokemon100) : Neat journal (switchStage1 journal P) := by
  unfold TradeCoordinator.switchStage1
  refine .bind (.note _ _) fun _ => .bind (.hook _) fun _ => .bind (.perform _ rfl rfl) fun _ => ?_
  refine .bind (.perform _ rfl rfl) fun first => .bind (.hook _) fun _ => .bind (.ofExcept _) fun _ => ?_
  refine .bind (.ofExcept _) fun _ => .bind (.saveArtifact _ _) fun _ => ?_
  refine .bind (.transition _ ?_) fun _ => .bind (.note _ _) fun _ => ?_
  · rintro _ ⟨⟩
    decide
  · exact .bind (.hook _) fun _ => .pure _

theorem gbaStage (b : Pokemon100) : Neat journal (gbaStage journal b) := by
  unfold TradeCoordinator.gbaStage
  refine .bind (.note _ _) fun _ => .bind (.hook _) fun _ => .bind (.perform _ rfl rfl) fun result => ?_
  refine .bind (.hook _) fun _ => .bind (.ofExcept _) fun _ => .bind (.ofExcept _) fun _ => ?_
  refine .bind (.saveArtifact _ _) fun _ => .bind (.transition _ ?_) fun _ => ?_
  · rintro _ ⟨⟩
    decide
  · exact .bind (.note _ _) fun _ => .bind (.hook _) fun _ => .pure _

theorem switchStage2 (P b a : Pokemon100) : Neat journal (switchStage2 journal P b a) := by
  unfold TradeCoordinator.switchStage2
  refine .bind (.note _ _) fun _ => .bind (.hook _) fun _ => .bind (.perform _ rfl rfl) fun _ => ?_
  refine .bind (.perform _ rfl rfl) fun second => .bind (.hook _) fun _ => .bind (.ofExcept _) fun _ => ?_
  refine .bind (.saveArtifact _ _) fun _ => .bind (.transition _ ?_) fun _ => ?_
  · rintro _ ⟨⟩
    decide
  refine .bind (.hook _) fun _ => .bind (.ofExcept _) fun _ => .bind (.transition _ ?_) fun _ => ?_
  · rintro _ ⟨⟩
    decide
  · exact .bind .get fun _ => .pure _

theorem body (P : Pokemon100) : Neat journal (body journal P) := by
  unfold TradeCoordinator.body
  refine .bind (.perform _ rfl rfl) fun _ => .bind (.assign fun _ => rfl) fun _ => ?_
  refine .bind (.perform _ rfl rfl) fun _ => .bind (.assign fun _ => rfl) fun _ => ?_
  refine .bind (.switchStage1 P) fun b => .bind (.gbaStage b) fun a => ?_
  exact .switchStage2 P b a

end Neat

theorem markRecovery_abides {r : JournalRecord} (hr : Regular r) (exc : Exc) :
    Abides (fun _ => True) (markRecovery journal r exc) := by
  intro y hy
  unfold markRecovery
  by_cases hterm : r.state.terminal = true
  · rw [if_pos hterm]
    exact Act.Sat.pure hy trivial
  · rw [if_neg hterm]
    apply Prog.Sat.bind (journal.transition_abides hr .recoveryRequired (fun e he => by cases he) hy)
    rintro ⟨written, r'⟩ y hy -
    cases written with
    | ok u => exact ⟨hy, trivial⟩
    | error e =>
        refine ⟨hy, ?_⟩
        cases e.isException <;> exact trivial

theorem handle_abides {r : JournalRecord} (hr : Regular r) (ended : Except Exc TransactionOutcome) :
    Abides (fun _ => True) (handle journal r ended) := by
  cases ended with
  | ok outcome => exact .pure trivial
  | error exc =>
      show Abides _ (if exc.isException then _ else _)
      split
      · exact .bind (markRecovery_abides journal hr exc) fun _ _ => .throw _
      · exact .throw _

theorem closeIf_abides (connected : Bool) (console : Console) : Abides (fun _ => True) (closeIf connected console) := by
  cases connected with
  | false => exact .pure trivial
  | true =>
      refine Abides.of_avoids (Act.Avoids.bind (.attempt (.perform _ Bool.false_ne_true)) fun closed => ?_)
      cases closed with
      | ok u => exact .pure ()
      | error e =>
          show Act.Avoids _ (if e.isException then _ else _ : Broker Unit)
          split
          · exact .pure ()
          · exact .throw e

/-- **A session makes the calls it is entitled to**: whenever it moves a temporary file into place, it has made it and
filled it with what it means to move, and a journal is the document of a record of the program. -/
theorem execute_entitled (P : Pokemon100) :
    Guarantees Stage.note Readable Entitled (execute journal P).run .closed := by
  have hexecute : Abides (fun _ => True) (execute journal P) := by
    unfold execute
    refine .bind (.ofExcept _) fun _ _ => .bind journal.requireNewTransaction_abides fun _ _ => ?_
    refine .bind (journal.create_abides P) fun record hrecord => ?_
    refine .bind (R := fun ended => Regular ended.2.record) ?_ fun ended hended => ?_
    · intro y hy
      apply Prog.Sat.bind ((Neat.body P).abides ⟨record, false, false⟩ y hrecord hy)
      rintro ⟨ended, l⟩ y hy hl
      cases ended with
      | ok outcome => exact ⟨hy, hl⟩
      | error e => exact ⟨hy, hl⟩
    · refine .bind (.attempt (handle_abides journal hended ended.1)) fun answer _ => ?_
      refine .bind (closeIf_abides _ _) fun _ _ => .bind (closeIf_abides _ _) fun _ _ => ?_
      exact .ofExcept answer
  exact Guarantees.of_sat (hexecute (.closed, True) trivial)

theorem markRecovery_blind (r : JournalRecord) (exc : Exc) : (markRecovery journal r exc).Blind journal.SameToLoad := by
  unfold markRecovery
  split
  · trivial
  · apply Prog.Blind.bind (journal.transition_blind _ _ _)
    rintro ⟨written, r'⟩
    cases written with
    | ok u => trivial
    | error e => trivial

theorem handle_blind (r : JournalRecord) (ended : Except Exc TransactionOutcome) :
    (handle journal r ended).Blind journal.SameToLoad := by
  cases ended with
  | ok outcome => trivial
  | error exc =>
      show Act.Blind _ (if exc.isException then _ else _)
      split
      · exact .bind (markRecovery_blind journal r exc) fun _ => trivial
      · trivial

theorem closeIf_blind (connected : Bool) (console : Console) :
    (closeIf connected console).Blind journal.SameToLoad := by
  cases connected with
  | false => trivial
  | true =>
      refine .bind (.attempt (journal.blind_perform _ rfl)) fun closed => ?_
      cases closed with
      | ok u => trivial
      | error e =>
          show Act.Blind _ (if e.isException then _ else _ : Broker Unit)
          split
          · trivial
          · trivial

/-- **A session only sees what the journal loads into**, so the bytes behind it may be another machine's. -/
theorem execute_blind (P : Pokemon100) : (execute journal P).Blind journal.SameToLoad := by
  unfold execute
  refine .bind trivial fun _ => .bind journal.requireNewTransaction_blind fun _ => ?_
  refine .bind (journal.create_blind P) fun record => ?_
  refine .bind (Prog.Blind.bind ((Neat.body P).blind ⟨record, false, false⟩) fun _ => trivial) fun ended => ?_
  refine .bind (.attempt (handle_blind journal _ _)) fun answer => ?_
  exact .bind (closeIf_blind journal _ _) fun _ => .bind (closeIf_blind journal _ _) fun _ => trivial

end TradeCoordinator

end TradeBroker
