/-
# TradeBroker.Journal.Concurrency — two processes on one journal.

One process is somewhere in `execute`, the other runs `require_new_transaction`.  Neither holds a
lock.  `transition` checks the CALLER'S record, and `os.replace` overwrites whatever is on disk, so
a process that has been overtaken puts its own record over the journal of the other one: a
`RECOVERY_REQUIRED` written by the restart guard disappears under the next state of the transaction
(`terminal_overwritten`), with the same sequence number.

What does hold is proved process by process.  The view of a process is the journal text that it
last read or wrote itself.  Whatever the other process does meanwhile, every text that a process
writes continues its view: same transaction, a state that was not terminal, a larger sequence number
(`Legit`).  So as long as each `os.replace` finds on disk the text that the writer last saw, terminal
states are absorbing and sequence numbers strictly increase (`terminal_states_absorb`).

The proof is one of rely and guarantee (`Lib.Interleave`).  Each process is judged alone, in a world that
may show it any document a broker wrote (`Allowed`), and what it installs always continues what it has
seen (`execute_guarantees`, `requireNewTransaction_alone`).  The condition `UpToDate` turns that into a
fact about the disk: then the text that is replaced IS the view.  It is a condition on the moment of each
replace, and `solo_up_to_date` says that a process which nobody overtakes meets it by itself.

The condition is a real one.  No lock, no comparison and no check of the file stands before the replace,
so a schedule that breaks it is one the operating system may choose, and `terminal_overwritten` is such a
schedule.
-/
import TradeBroker.Lib.Interleave
import TradeBroker.Broker.Script

namespace TradeBroker

open Lib

-- Programs are compared by running them: keep the bytes of a record out of that.
attribute [local irreducible] Pokemon100.heldItem

/-! ## §1 — views and obligations. -/

/-- The view after an operation: the text that was read or written, if it was the journal; a failed read or
write leaves the view as it was. -/
def noteSeen (seen : Option JournalText) : (op : Op) → Ret op → Option JournalText
  | .readText, .ok text => some text
  | .replace (.journal text), .ok () => some text
  | _, _ => seen

/-- The text is a document of transaction `tx` in state `s` with sequence number `n`. -/
def Entry (text : JournalText) (tx : PyStr) (s : JournalState) (n : Int) : Prop :=
  ∃ raw : RawRecord, raw.Loadable ∧ text = .json (.obj raw.asJsonDict) ∧
    raw.transactionId = tx ∧ raw.state = s ∧ raw.sequence = .int n

/-- The text continues the view: the same transaction, behind a state that was not terminal, with a larger
sequence number.  With no view, any document does. -/
def Legit (seen : Option JournalText) (text : JournalText) : Prop :=
  ∃ tx s n, Entry text tx s n ∧
    ∀ old, seen = some old → ∃ s0 n0, Entry old tx s0 n0 ∧ s0.terminal = false ∧ n0 < n

/-- What a process may rely on: the journal is a document that a broker wrote, whichever broker that was. -/
def Allowed (_ : Option JournalText) : (op : Op) → Ret op → Prop
  | .readText, .ok text => ∃ tx s n, Entry text tx s n
  | .now, now => encodable now = true
  | _, _ => True

/-- What a process guarantees: it only installs a journal that continues its view, so it never writes behind a
terminal state that it knows of. -/
def Continues (seen : Option JournalText) : (op : Op) → Ret op → Prop
  | .replace (.journal text), .ok () => Legit seen text
  | _, _ => True

/-- A process alone. -/
def Alone : Prog.Sem Op Ret (Option JournalText × Prop) := localSem noteSeen Allowed Continues

/-- The invariant of a process alone: the last operation met its obligation. -/
def Kosher (x : Option JournalText × Prop) : Prop := x.2

/-! ## §2 — programs that leave the view alone. -/

/-- Whatever it answers, the program neither reads nor writes the journal, and so the view stays. -/
def Neutral {α : Type} (x : Broker α) : Prop :=
  ∀ seen ok, ok → Act.Sat Alone Kosher x (seen, ok) (fun _ y => y.1 = seen) (fun _ y => y.1 = seen)

section Neutral

variable {α β : Type}

theorem noteSeen_of_not_onJournal {op : Op} (h : ¬ op.onJournal = true) (seen : Option JournalText)
    (r : Ret op) : noteSeen seen op r = seen ∧ Continues seen op r := by
  cases op with
  | readText => exact absurd rfl h
  | replace target =>
      cases target with
      | journal text => exact absurd rfl h
      | artifact path bytes => exact ⟨rfl, trivial⟩
  | _ => exact ⟨rfl, trivial⟩

/-- A program that keeps away from the journal is neutral. -/
theorem Neutral.of_avoids {x : Broker α} (h : x.Avoids fun op => op.onJournal = true) : Neutral x := by
  intro seen ok hok
  refine (h.sat (w := (seen, ok)) (J := fun y => Kosher y ∧ y.1 = seen) ?_ (fun _ hy => hy.1)
    ⟨hok, rfl⟩).mono (fun _ hy => hy) (fun _ _ _ hy => hy.2) (fun _ _ _ hy => hy.2)
  rintro y op r y' hop ⟨-, hseen⟩ ⟨-, rfl⟩
  obtain ⟨hnote, hcont⟩ := noteSeen_of_not_onJournal hop y.1 r
  exact ⟨hcont, hnote.trans hseen⟩

theorem Neutral.ofExcept (r : Except Exc α) : Neutral (ofExcept r) := .of_avoids (.ofExcept r)

/-- A single operation that is not on the journal. -/
theorem Neutral.perform {op : Op} (k : Ret op → Except Exc α) (h : ¬ op.onJournal = true) :
    Neutral (ExceptT.mk (.call op fun r => .done (k r)) : Broker α) := .of_avoids (.perform k h)

/-- A neutral program, then one that is judged in the same view. -/
theorem Neutral.andThen {x : Broker α} {f : α → Broker β} (hx : Neutral x)
    {seen : Option JournalText} {ok : Prop} (hok : ok)
    {Q : β → Option JournalText × Prop → Prop} {E : Exc → Option JournalText × Prop → Prop}
    (hE : ∀ e y, y.1 = seen → E e y)
    (hf : ∀ a ok', ok' → Act.Sat Alone Kosher (f a) (seen, ok') Q E) :
    Act.Sat Alone Kosher (x >>= f) (seen, ok) Q E := by
  refine Act.Sat.bind ((hx seen ok hok).mono (fun _ hy => hy) (fun _ _ _ hy => hy)
    (fun e y _ hy => hE e y hy)) ?_
  intro a y hy hseen
  obtain ⟨seen', ok'⟩ := y
  have hseen : seen' = seen := hseen
  subst hseen
  exact hf a ok' hy

/-- The same for an attempt, which does not raise. -/
theorem Neutral.tryThen {x : Broker α} {f : Except Exc α → Broker β} (hx : Neutral x)
    {seen : Option JournalText} {ok : Prop} (hok : ok)
    {Q : β → Option JournalText × Prop → Prop} {E : Exc → Option JournalText × Prop → Prop}
    (hf : ∀ r ok', ok' → Act.Sat Alone Kosher (f r) (seen, ok') Q E) :
    Act.Sat Alone Kosher (Act.attempt x >>= f) (seen, ok) Q E := by
  refine Act.Sat.bind (Act.Sat.attempt (hx seen ok hok)) ?_
  intro r y hy hr
  obtain ⟨seen', ok'⟩ := y
  have hseen : seen' = seen := by
    cases r with
    | ok a => exact hr
    | error e => exact hr
  subst hseen
  exact hf r ok' hy

theorem neutral_fileCall (c : FileCall) (t : Write) : Neutral (fileCall c t) :=
  .perform _ Bool.false_ne_true

theorem neutral_pathExists : Neutral pathExists := .perform _ Bool.false_ne_true

theorem neutral_clock : Neutral clock := .perform _ Bool.false_ne_true

theorem neutral_uuid4 : Neutral uuid4 := .perform _ Bool.false_ne_true

end Neutral

namespace JournalStore

theorem neutral_syncDirectory (t : Write) : Neutral (syncDirectory t) :=
  .of_avoids (syncDirectory_avoids (fun _ _ => Bool.false_ne_true) t)

/-! ## §3 — writes. -/

/-- The view after a completed write. -/
def wrote (seen : Option JournalText) : Write → Option JournalText
  | .journal text => some text
  | .artifact _ _ => seen

variable (self : JournalStore) {seen : Option JournalText} {ok : Prop}

theorem replaceFile_alone (t : Write) (hok : ok) (h : ∀ text, t = .journal text → Legit seen text) :
    Act.Sat Alone Kosher (replaceFile t) (seen, ok) (fun _ y => y.1 = wrote seen t)
      (fun _ y => y.1 = seen) := by
  refine ⟨hok, ?_⟩
  intro r y hy
  obtain ⟨_, rfl⟩ := hy
  cases t with
  | artifact path bytes =>
      cases r with
      | ok u => exact ⟨trivial, rfl⟩
      | error e => exact ⟨trivial, rfl⟩
  | journal text =>
      cases r with
      | ok u => exact ⟨h text rfl, rfl⟩
      | error e => exact ⟨trivial, rfl⟩

theorem unlinkAndRaise_alone (t : Write) (failure : Exc) (hok : ok) :
    Act.Sat Alone Kosher (unlinkAndRaise t failure) (seen, ok) (fun _ _ => False)
      (fun _ y => y.1 = seen) := by
  unfold unlinkAndRaise
  refine (neutral_fileCall _ t).tryThen hok ?_
  intro unlinked ok' hok'
  cases unlinked with
  | ok u => exact Act.Sat.throw hok' rfl
  | error e =>
      show Act.Sat Alone Kosher (if e.type = .fileNotFoundError then throw failure else throw e) _ _ _
      split
      · exact Act.Sat.throw hok' rfl
      · exact Act.Sat.throw hok' rfl

/-- An atomic write of a text that continues the view. -/
theorem atomicBytes_alone (t : Write) (hok : ok)
    (h : ∀ text, t = .journal text → Legit seen text) :
    Act.Sat Alone Kosher (self.atomicBytes t) (seen, ok) (fun _ y => y.1 = wrote seen t)
      (fun _ y => y.1 = seen ∨ y.1 = wrote seen t) := by
  unfold atomicBytes
  refine (neutral_fileCall _ t).andThen hok (fun _ _ hy => Or.inl hy) ?_
  intro _ ok1 hok1
  refine (neutral_fileCall _ t).tryThen hok1 ?_
  intro created ok2 hok2
  cases created with
  | error e => exact Act.Sat.throw hok2 (Or.inl rfl)
  | ok u =>
      have hstage : Act.Sat Alone Kosher (stageAndReplace t) (seen, ok2)
          (fun _ y => y.1 = wrote seen t) (fun _ y => y.1 = seen) := by
        unfold stageAndReplace
        refine (neutral_fileCall _ t).andThen hok2 (fun _ _ hy => hy) ?_
        intro _ ok3 hok3
        refine (neutral_fileCall _ t).andThen hok3 (fun _ _ hy => hy) ?_
        intro _ ok4 hok4
        exact replaceFile_alone t hok4 h
      refine Act.Sat.bind (Act.Sat.attempt hstage) ?_
      intro replaced y hy hreplaced
      obtain ⟨seen3, ok3⟩ := y
      cases replaced with
      | error e =>
          have hreplaced : seen3 = seen := hreplaced
          subst hreplaced
          exact (unlinkAndRaise_alone t _ hy).mono (fun _ hv => hv) (fun _ _ _ hv => hv.elim)
            (fun _ _ _ hv => Or.inl hv)
      | ok u =>
          have hreplaced : seen3 = wrote seen t := hreplaced
          subst hreplaced
          refine (neutral_syncDirectory t).tryThen hy ?_
          intro synced ok4 hok4
          cases synced with
          | error e => exact Act.Sat.throw hok4 (Or.inr rfl)
          | ok u => exact Act.Sat.pure hok4 rfl

/-- The write of a record that continues the view, or of one whose text does not encode. -/
theorem write_alone {r : RawRecord} (hok : ok)
    (h : Legit seen (.json (.obj r.asJsonDict))) :
    Act.Sat Alone Kosher (self.write r) (seen, ok)
      (fun _ y => y.1 = some (.json (.obj r.asJsonDict)))
      (fun _ y => y.1 = seen ∨ y.1 = some (.json (.obj r.asJsonDict))) := by
  unfold write
  split
  · refine atomicBytes_alone self (.journal (.json (.obj r.asJsonDict))) hok ?_
    intro text ht
    obtain rfl : JournalText.json (.obj r.asJsonDict) = text := by simpa using ht
    exact h
  · exact Act.Sat.throw hok (Or.inl rfl)

theorem neutral_saveArtifact (r : JournalRecord) (label : PyStr) (mon : Pokemon100) :
    Neutral (self.saveArtifact r label mon) :=
  .of_avoids (self.saveArtifact_avoids (fun _ _ => Bool.false_ne_true) (fun _ _ => Bool.false_ne_true) r label mon)

/-! ## §4 — the restart guard. -/

/-- `load` hands out a record whose text is the new view, and that record is loadable as every written one is. -/
theorem load_alone (hok : ok) :
    Act.Sat Alone Kosher self.load (seen, ok)
      (fun raw y => raw.Loadable ∧ y.1 = some (.json (.obj raw.asJsonDict))) (fun _ _ => True) := by
  unfold load
  refine Act.Sat.bind (R := fun r y => ∀ text, r = .ok text →
    (∃ tx s n, Entry text tx s n) ∧ y.1 = some text) ?_ ?_
  · refine ⟨hok, ?_⟩
    intro r y hy
    obtain ⟨hallowed, rfl⟩ := hy
    cases r with
    | error e => exact ⟨trivial, fun text ht => absurd ht (by simp)⟩
    | ok text =>
        refine ⟨trivial, ?_⟩
        intro text' ht'
        obtain rfl := Except.ok.inj ht'
        exact ⟨hallowed, rfl⟩
  · intro r y hy hr
    cases r with
    | error e =>
        show Act.Sat Alone Kosher (if e.isOSError then _ else _) _ _ _
        split
        · exact Act.Sat.throw hy trivial
        · exact Act.Sat.throw hy trivial
    | ok text =>
        obtain ⟨⟨_, _, _, raw, hload, rfl, _⟩, hseen⟩ := hr text rfl
        refine Act.Sat.ofExcept hy ?_
        show Ends _ _ (RawRecord.fromJsonDict raw.asJsonDict) y
        rw [RawRecord.fromJsonDict_asJsonDict hload]
        exact ⟨hload, hseen⟩

/-- Closing a loaded, unfinished record continues the view: the sequence number goes up by one and nothing
else of the identity changes. -/
theorem legit_recover {raw : RawRecord} (h : raw.Loadable) (hs : raw.state.terminal = false)
    (now note error : PyStr) :
    Legit (some (.json (.obj raw.asJsonDict)))
      (.json (.obj (raw.recover now note error).asJsonDict)) := by
  obtain ⟨n, hn, hseq⟩ := h.sequence
  have hnext : (raw.recover now note error).sequence = .int (n + 1) := by
    simp [RawRecord.recover, hseq]
  refine ⟨raw.transactionId, .recoveryRequired, n + 1,
    ⟨raw.recover now note error, ⟨h.uuid, h.schema, n + 1, by omega, hnext⟩, rfl, rfl, rfl, hnext⟩,
    ?_⟩
  intro old hold
  obtain rfl := Option.some.inj hold
  exact ⟨raw.state, n, ⟨raw, h, rfl, rfl, rfl, hseq⟩, hs, by omega⟩

/-- The restart guard returns with its view unchanged, or raises. -/
theorem requireNewTransaction_alone (hok : ok) :
    Act.Sat Alone Kosher self.requireNewTransaction (seen, ok) (fun _ y => y.1 = seen)
      (fun _ _ => True) := by
  unfold requireNewTransaction
  refine (neutral_pathExists).andThen hok (fun _ _ _ => trivial) ?_
  intro present ok1 hok1
  cases present with
  | false => exact Act.Sat.pure hok1 rfl
  | true =>
      refine Act.Sat.bind (load_alone self hok1) ?_
      intro raw y hy hraw
      obtain ⟨seen2, ok2⟩ := y
      obtain ⟨hload, hseen⟩ := hraw
      have hseen : seen2 = _ := hseen
      subst hseen
      have hmark : Act.Sat Alone Kosher (self.markRestart raw)
          (some (.json (.obj raw.asJsonDict)), ok2) (fun _ _ => True) (fun _ _ => True) := by
        unfold markRestart
        cases hterm : raw.state.terminal with
        | true => exact Act.Sat.pure hy trivial
        | false =>
            refine (neutral_clock).andThen hy (fun _ _ _ => trivial) ?_
            intro now ok3 hok3
            exact (write_alone self hok3 (legit_recover hload hterm _ _ _)).mono (fun _ hv => hv)
              (fun _ _ _ _ => trivial) (fun _ _ _ _ => trivial)
      refine Act.Sat.bind hmark ?_
      intro _ y hy _
      obtain ⟨seen3, ok3⟩ := y
      refine Act.Sat.bind (load_alone self hy) ?_
      intro again y hy _
      exact Act.Sat.throw hy trivial

end JournalStore

/-! ## §5 — a transaction and its own view. -/

/-- The record a transaction holds, against the text that the same process last wrote: it is that
record or a later one, and it is terminal when the text is. -/
structure Held (record : JournalRecord) (seen : Option JournalText) : Prop where
  uuid : uuidParses record.transactionId = true
  schema : record.schemaVersion = 1
  nonneg : 0 ≤ record.sequence
  behind : ∃ text s n, seen = some text ∧ Entry text record.transactionId s n ∧
    n ≤ record.sequence ∧ (s.terminal = true → record.state.terminal = true)

theorem Held.entry {record : JournalRecord} {seen : Option JournalText} (h : Held record seen)
    {s : JournalState} {now : PyStr} {u : Update} :
    Entry (.json (record.advance s now u).document) record.transactionId s (record.sequence + 1) := by
  have hn := h.nonneg
  refine ⟨(record.advance s now u).raw, ⟨h.uuid, ?_, record.sequence + 1, by omega, rfl⟩, rfl, rfl,
    rfl, rfl⟩
  show Json.int record.schemaVersion = .int 1
  rw [h.schema]

/-- The record object after the in-place mutation, whether its text was written or not. -/
theorem Held.advance {record : JournalRecord} {seen seen' : Option JournalText}
    (h : Held record seen) {s : JournalState} {now : PyStr} {u : Update}
    (ht : record.state.terminal = false)
    (hs : seen' = seen ∨ seen' = some (.json (record.advance s now u).document)) :
    Held (record.advance s now u) seen' := by
  have hn := h.nonneg
  have hseq : (record.advance s now u).sequence = record.sequence + 1 := rfl
  refine ⟨h.uuid, h.schema, by omega, ?_⟩
  rcases hs with rfl | rfl
  · obtain ⟨text, s0, n0, hseen, hentry, hle, hterm⟩ := h.behind
    refine ⟨text, s0, n0, hseen, hentry, by omega, ?_⟩
    intro hs0
    rw [hterm hs0] at ht
    exact absurd ht (by simp)
  · exact ⟨_, s, record.sequence + 1, rfl, h.entry, by omega, fun hs => hs⟩

/-- **A transition continues the view**, and the caller's record stays ahead of it. -/
theorem JournalStore.transition_alone (self : JournalStore) {record : JournalRecord}
    {seen : Option JournalText} {ok : Prop} (hok : ok) (h : Held record seen) (s : JournalState)
    (u : Update) :
    Prog.Sat Alone Kosher (fun ended y => Held ended.2 y.1) (self.transition record s u)
      (seen, ok) := by
  unfold transition
  cases hc : record.check s u with
  | error e => exact ⟨hok, h⟩
  | ok a =>
      have hterm := (JournalRecord.check_ok hc).1
      refine ⟨hok, ?_⟩
      intro now y hy
      obtain ⟨hnow, rfl⟩ := hy
      have hlegit : Legit seen (.json (.obj (record.advance s now u).raw.asJsonDict)) := by
        refine ⟨_, s, _, h.entry, ?_⟩
        intro old hold
        obtain ⟨text, s0, n0, hseen, hentry, hle, hs0⟩ := h.behind
        obtain rfl := Option.some.inj (hseen.symm.trans hold)
        refine ⟨s0, n0, hentry, ?_, by omega⟩
        cases hb : s0.terminal with
        | false => rfl
        | true =>
            rw [hs0 hb] at hterm
            exact absurd hterm (by simp)
      refine Prog.Sat.bind (write_alone self trivial hlegit) ?_
      intro written y hy hwritten
      refine ⟨hy, h.advance hterm ?_⟩
      cases written with
      | ok a => exact Or.inr hwritten
      | error e => exact hwritten

/-- A statement of the `try` body keeps the record and the view together, on return and on a raise. -/
def Keeps {α : Type} (x : Coordinator α) : Prop :=
  ∀ l seen ok, ok → Held l.record seen →
    Method.Sat Alone Kosher x l (seen, ok) (fun _ l' y => Held l'.record y.1)
      (fun _ l' y => Held l'.record y.1)

section Keeps

variable {α β : Type}

theorem Keeps.pure (a : α) : Keeps (Pure.pure a : Coordinator α) := fun _ _ _ hok h => ⟨hok, h⟩

theorem Keeps.bind {x : Coordinator α} {f : α → Coordinator β} (hx : Keeps x)
    (hf : ∀ a, Keeps (f a)) : Keeps (x >>= f) := by
  intro l seen ok hok h
  refine Method.Sat.bind (hx l seen ok hok h) ?_
  intro a l' y hy hheld
  exact hf a l' y.1 y.2 hy hheld

theorem Keeps.lift {x : Broker α} (hx : Neutral x) : Keeps (Method.lift x) := by
  intro l seen ok hok h
  refine Method.Sat.lift ((hx seen ok hok).mono (fun _ hy => hy) ?_ ?_)
  · intro a y _ hy
    rw [hy]
    exact h
  · intro e y _ hy
    rw [hy]
    exact h

theorem Keeps.assign {f : Locals → Locals} (hf : ∀ l, (f l).record = l.record) :
    Keeps (modify f : Coordinator PUnit) := by
  intro l seen ok hok h
  refine Method.Sat.assign hok ?_
  rw [hf l]
  exact h

namespace TradeCoordinator

variable (journal : JournalStore)

theorem keeps_transition (s : JournalState) (u : Update) : Keeps (transition journal s u) := by
  intro l seen ok hok h
  refine Prog.Sat.bind (journal.transition_alone hok h s u) ?_
  intro ended y hy hheld
  obtain ⟨answer, r⟩ := ended
  cases answer with
  | ok a => exact ⟨hy, hheld⟩
  | error e => exact ⟨hy, hheld⟩

theorem keeps_hook (b : Boundary) : Keeps (hook b) := by
  intro l seen ok hok h
  have hn : Neutral (faultHook b l.record) := .perform _ Bool.false_ne_true
  exact Keeps.lift hn l seen ok hok h

theorem keeps_saveArtifact (label : PyStr) (mon : Pokemon100) :
    Keeps (saveArtifact journal label mon) := by
  intro l seen ok hok h
  exact Keeps.lift (journal.neutral_saveArtifact l.record label mon) l seen ok hok h

theorem keeps_connect (console : Console) : Keeps (Method.lift (connect console)) :=
  Keeps.lift (.perform _ Bool.false_ne_true)

theorem keeps_waitForTradeMenu : Keeps (Method.lift waitForTradeMenu) :=
  Keeps.lift (.perform _ Bool.false_ne_true)

theorem keeps_switchTradeOnce (mon : Pokemon100) : Keeps (Method.lift (switchTradeOnce mon)) :=
  Keeps.lift (.perform _ Bool.false_ne_true)

theorem keeps_gbaTradeOnce (mon : Pokemon100) : Keeps (Method.lift (gbaTradeOnce mon)) :=
  Keeps.lift (.perform _ Bool.false_ne_true)

theorem keeps_ofExcept (r : Except Exc α) : Keeps (Method.lift (ofExcept r)) :=
  Keeps.lift (Neutral.ofExcept r)

theorem keeps_switchStage1 (P : Pokemon100) : Keeps (switchStage1 journal P) := by
  unfold switchStage1
  refine (keeps_transition journal _ _).bind fun _ => (keeps_hook _).bind fun _ => ?_
  refine keeps_waitForTradeMenu.bind fun _ => (keeps_switchTradeOnce P).bind fun first => ?_
  refine (keeps_hook _).bind fun _ => (keeps_ofExcept _).bind fun _ => ?_
  refine (keeps_ofExcept _).bind fun _ => (keeps_saveArtifact journal _ _).bind fun _ => ?_
  refine (keeps_transition journal _ _).bind fun _ => (keeps_transition journal _ _).bind fun _ => ?_
  exact (keeps_hook _).bind fun _ => Keeps.pure _

theorem keeps_gbaStage (b : Pokemon100) : Keeps (gbaStage journal b) := by
  unfold gbaStage
  refine (keeps_transition journal _ _).bind fun _ => (keeps_hook _).bind fun _ => ?_
  refine (keeps_gbaTradeOnce b).bind fun result => (keeps_hook _).bind fun _ => ?_
  refine (keeps_ofExcept _).bind fun _ => (keeps_ofExcept _).bind fun _ => ?_
  refine (keeps_saveArtifact journal _ _).bind fun _ => (keeps_transition journal _ _).bind fun _ => ?_
  refine (keeps_transition journal _ _).bind fun _ => ?_
  exact (keeps_hook _).bind fun _ => Keeps.pure _

theorem keeps_get : Keeps (get : Coordinator Locals) := fun _ _ _ hok h => ⟨hok, h⟩

theorem keeps_switchStage2 (P b a : Pokemon100) : Keeps (switchStage2 journal P b a) := by
  unfold switchStage2
  refine (keeps_transition journal _ _).bind fun _ => (keeps_hook _).bind fun _ => ?_
  refine keeps_waitForTradeMenu.bind fun _ => (keeps_switchTradeOnce a).bind fun second => ?_
  refine (keeps_hook _).bind fun _ => (keeps_ofExcept _).bind fun _ => ?_
  refine (keeps_saveArtifact journal _ _).bind fun _ => (keeps_transition journal _ _).bind fun _ => ?_
  refine (keeps_hook _).bind fun _ => (keeps_ofExcept _).bind fun _ => ?_
  refine (keeps_transition journal _ _).bind fun _ => ?_
  exact keeps_get.bind fun _ => Keeps.pure _

theorem keeps_body (P : Pokemon100) : Keeps (body journal P) := by
  unfold body
  refine (keeps_connect .switch).bind fun _ => ?_
  refine (Keeps.assign (f := fun l => { l with switchConnected := true }) fun _ => rfl).bind fun _ => ?_
  refine (keeps_connect .gba).bind fun _ => ?_
  refine (Keeps.assign (f := fun l => { l with gbaConnected := true }) fun _ => rfl).bind fun _ => ?_
  refine (keeps_switchStage1 journal P).bind fun b => (keeps_gbaStage journal b).bind fun a => ?_
  exact keeps_switchStage2 journal P b a

/-- The record that `create` hands out is the one it wrote. -/
theorem create_alone (P : Pokemon100) {ok : Prop} (hok : ok) :
    Act.Sat Alone Kosher (journal.create P) (none, ok) (fun record y => Held record y.1)
      (fun _ _ => True) := by
  unfold JournalStore.create
  refine neutral_pathExists.andThen hok (fun _ _ _ => trivial) ?_
  intro present ok1 hok1
  cases present with
  | true =>
      refine Act.Sat.bind (journal.load_alone hok1) ?_
      intro old y hy _
      exact Act.Sat.throw hy trivial
  | false =>
      refine neutral_clock.andThen hok1 (fun _ _ _ => trivial) ?_
      intro now ok2 hok2
      refine neutral_uuid4.andThen hok2 (fun _ _ _ => trivial) ?_
      intro u ok3 hok3
      refine (journal.neutral_saveArtifact _ _ _).andThen hok3 (fun _ _ _ => trivial) ?_
      intro _ ok4 hok4
      have hentry : Entry (.json (JournalRecord.fresh u.str now P).document) u.str .idle 0 :=
        ⟨(JournalRecord.fresh u.str now P).raw, ⟨u.uuidParses_str, rfl, 0, by omega, rfl⟩, rfl, rfl,
          rfl, rfl⟩
      have hlegit : Legit none (.json (JournalRecord.fresh u.str now P).document) :=
        ⟨_, _, _, hentry, fun old hold => absurd hold (by simp)⟩
      refine Act.Sat.bind ((journal.write_alone hok4 hlegit).mono (fun _ hy => hy)
        (fun _ _ _ hy => hy) (fun _ _ _ _ => trivial)) ?_
      intro _ y hy hseen
      refine Act.Sat.pure hy ⟨u.uuidParses_str, rfl, Int.le_refl 0, _, .idle, 0, hseen, hentry,
        Int.le_refl 0, ?_⟩
      intro hs
      exact absurd hs (by decide)

theorem neutral_closeIf (connected : Bool) (console : Console) :
    Neutral (closeIf connected console) := by
  apply Neutral.of_avoids
  cases connected with
  | false => exact .pure ()
  | true =>
      refine Act.Avoids.bind (.attempt (.perform _ Bool.false_ne_true)) fun closed => ?_
      cases closed with
      | ok u => exact .pure ()
      | error e =>
          show (if e.isException then Pure.pure () else throw e : Broker Unit).Avoids _
          split
          · exact .pure ()
          · exact .throw e

/-- `_mark_recovery` is one more transition. -/
theorem handle_alone {record : JournalRecord} {seen : Option JournalText} {ok : Prop} (hok : ok)
    (h : Held record seen) (ended : Except Exc TransactionOutcome) :
    Act.Sat Alone Kosher (handle journal record ended) (seen, ok) (fun _ _ => True)
      (fun _ _ => True) := by
  cases ended with
  | ok outcome => exact Act.Sat.pure hok trivial
  | error e =>
      show Act.Sat Alone Kosher (if e.isException then _ else _) _ _ _
      split
      · refine Act.Sat.bind (R := fun _ _ => True) ?_ (fun _ _ hy _ => Act.Sat.throw hy trivial)
        unfold markRecovery
        split
        · exact Act.Sat.pure hok trivial
        · refine Prog.Sat.bind (journal.transition_alone hok h _ _) ?_
          intro ended y hy _
          obtain ⟨answer, r⟩ := ended
          cases answer with
          | ok a => exact ⟨hy, trivial⟩
          | error e' =>
              show Prog.Sat Alone Kosher _ (Prog.done (if e'.isException then _ else _)) y
              split
              · exact ⟨hy, trivial⟩
              · exact ⟨hy, trivial⟩
      · exact Act.Sat.throw hok trivial

/-- **`execute` continues its own view**, whatever happens to the journal meanwhile and wherever the session
is stopped. -/
theorem execute_guarantees (P : Pokemon100) :
    Guarantees noteSeen Allowed Continues (execute journal P).run none := by
  suffices h : Act.Sat Alone Kosher (execute journal P) (none, True) (fun _ _ => True)
      (fun _ _ => True) by
    exact Guarantees.of_sat h
  unfold execute
  refine (Neutral.ofExcept _).andThen trivial (fun _ _ _ => trivial) ?_
  intro _ ok1 hok1
  refine Act.Sat.bind (journal.requireNewTransaction_alone hok1) ?_
  intro _ y hy hseen
  obtain ⟨seen2, ok2⟩ := y
  have hseen : seen2 = none := hseen
  subst hseen
  refine Act.Sat.bind (create_alone journal P hy) ?_
  intro record y hy hheld
  refine Act.Sat.bind (R := fun ended y => Held ended.2.record y.1)
    (Prog.Sat.bind (keeps_body journal P ⟨record, false, false⟩ y.1 y.2 hy hheld) ?_) ?_
  · intro ended y hy hend
    obtain ⟨answer, l⟩ := ended
    cases answer with
    | ok o => exact ⟨hy, hend⟩
    | error e => exact ⟨hy, hend⟩
  intro ended y hy hheld
  refine Act.Sat.bind (R := fun _ _ => True)
    ((Act.Sat.attempt (handle_alone journal hy hheld ended.1)).mono (fun _ hv => hv)
      (fun _ _ _ _ => trivial) (fun _ _ _ hv => hv)) ?_
  intro answer y hy _
  refine (neutral_closeIf _ _).andThen hy (fun _ _ _ => trivial) ?_
  intro _ ok5 hok5
  refine (neutral_closeIf _ _).andThen hok5 (fun _ _ _ => trivial) ?_
  intro _ ok6 hok6
  refine Act.Sat.ofExcept hok6 ?_
  cases answer with
  | ok o => trivial
  | error e => trivial

theorem requireNewTransaction_guarantees :
    Guarantees noteSeen Allowed Continues journal.requireNewTransaction.run none := by
  exact Guarantees.of_sat (journal.requireNewTransaction_alone trivial)

end TradeCoordinator

end Keeps

/-! ## §6 — both processes. -/

/-- The condition on a journal write: what is on disk is the text that the writer last read or wrote
itself, or there is no journal and it never saw one. -/
def UpToDate (w : World) (seen : Option JournalText) : (op : Op) → Ret op → Prop
  | .replace (.journal _), .ok () => w.disk.journal = seen
  | _, _ => True

/-- The journal, if there is one, is a document that a broker wrote; a file that was edited by hand is not
covered here. -/
def WellWritten (w : World) : Prop :=
  ∀ text, w.disk.journal = some text → ∃ tx s n, Entry text tx s n

/-- One process in `execute(P)`, the other in `require_new_transaction()`, nothing done yet. -/
def twoBrokers (journal : JournalStore) (P : Pokemon100) (d : Disk) :
    Duo Op Ret (Option JournalText) World (Except Exc TransactionOutcome) (Except Exc Unit) :=
  ⟨(TradeCoordinator.execute journal P).run, journal.requireNewTransaction.run, none, none, ⟨d, []⟩⟩

/-- What a step may do to the journal: a terminal state stays, and a write to a transaction has a larger
sequence number than the text it replaces. -/
structure Orderly (journal : JournalStore) (w w' : World) : Prop where
  absorbing : ∀ text raw, w.disk.journal = some text → text.load journal = .ok raw →
    raw.state.terminal = true → w'.disk.journal = some text
  increasing : ∀ text text', w.disk.journal = some text → w' = w.install (.journal text') →
    ∃ raw raw' n n', text.load journal = .ok raw ∧ text'.load journal = .ok raw' ∧
      raw'.transactionId = raw.transactionId ∧ raw.sequence = .int n ∧ raw'.sequence = .int n' ∧
      n < n'

theorem Entry.load (journal : JournalStore) {text : JournalText} {tx : PyStr} {s : JournalState}
    {n : Int} (h : Entry text tx s n) :
    ∃ raw, text.load journal = .ok raw ∧ raw.transactionId = tx ∧ raw.state = s ∧
      raw.sequence = .int n := by
  obtain ⟨raw, hload, rfl, htx, hs, hn⟩ := h
  exact ⟨raw, RawRecord.fromJsonDict_asJsonDict hload, htx, hs, hn⟩

/-- The answers of the world, and what an up-to-date write does to the journal. -/
theorem step_orderly (journal : JournalStore) {w w' : World} {seen : Option JournalText} {op : Op}
    {r : Ret op} (hw : WellWritten w) (hc : UpToDate w seen op r) (hs : Step w op r w') :
    Allowed seen op r ∧ (Continues seen op r → WellWritten w' ∧ Orderly journal w w') := by
  have hallowed : Allowed seen op r := by
    cases op with
    | readText =>
        rcases hs with ⟨text, ht, rfl, _⟩ | ⟨e, _, rfl, _⟩
        · exact hw text ht
        · trivial
    | now => exact hs.1
    | _ => trivial
  refine ⟨hallowed, ?_⟩
  intro hcont
  rcases hs.disk with ⟨hdisk, evs, htrace, hno⟩ | ⟨target, rfl, rfl⟩
  · -- The disk is as it was, and nothing was installed.
    refine ⟨?_, ?_, ?_⟩
    · intro text ht
      rw [hdisk] at ht
      exact hw text ht
    · intro text raw ht _ _
      rw [hdisk]
      exact ht
    · intro text text' _ hinst
      rw [hinst, World.install_trace] at htrace
      have hevs : [Event.installed (.journal text')] = evs := List.append_cancel_left htrace
      exact absurd (by rw [← hevs]; simp) (hno (.journal text'))
  · cases target with
    | artifact path bytes =>
        refine ⟨hw, fun text raw ht _ _ => ht, ?_⟩
        intro text text' _ hinst
        have htrace : w.trace ++ [Event.installed (.artifact path bytes)] =
            w.trace ++ [.installed (.journal text')] := congrArg World.trace hinst
        exact absurd (List.append_cancel_left htrace) (by simp)
    | journal new =>
        -- The write succeeded, so it found the writer's own view on disk.
        have hok : r = .ok () := by
          rcases hs with ⟨hr, _⟩ | ⟨e, _, _, hlog⟩
          · exact hr
          · have htrace : w.trace ++ [Event.installed (.journal new)] = w.trace ++ [.ioError] :=
              congrArg World.trace hlog
            exact absurd (List.append_cancel_left htrace) (by simp)
        subst hok
        have hview : w.disk.journal = seen := hc
        obtain ⟨tx, s, n, hentry, hold⟩ : Legit seen new := hcont
        rw [← hview] at hold
        refine ⟨?_, ?_, ?_⟩
        · intro text ht
          obtain rfl : new = text := Option.some.inj ht
          exact ⟨tx, s, n, hentry⟩
        · intro text raw ht hload hterm
          obtain ⟨s0, n0, hentry0, hs0, _⟩ := hold text ht
          obtain ⟨raw0, hload0, _, hstate, _⟩ := hentry0.load journal
          obtain rfl := Except.ok.inj (hload0.symm.trans hload)
          rw [hstate, hs0] at hterm
          exact absurd hterm (by simp)
        · intro text text' ht hinst
          have htrace : w.trace ++ [Event.installed (.journal new)] =
              w.trace ++ [.installed (.journal text')] := congrArg World.trace hinst
          have hnew : new = text' := by simpa using List.append_cancel_left htrace
          subst hnew
          obtain ⟨s0, n0, hentry0, _, hlt⟩ := hold text ht
          obtain ⟨raw0, hload0, htx0, _, hseq0⟩ := hentry0.load journal
          obtain ⟨raw1, hload1, htx1, _, hseq1⟩ := hentry.load journal
          exact ⟨raw0, raw1, n0, n, hload0, hload1, htx1.trans htx0.symm, hseq0, hseq1, hlt⟩

/-- **When terminal states absorb.**  In every interleaving of the two processes in which each
journal write finds on disk the text that its process last read or wrote, no step changes a journal
in a terminal state, and every write to a transaction has a larger sequence number. -/
theorem terminal_states_absorb {journal : JournalStore} {P : Pokemon100} {d : Disk}
    (hd : d.journal = none)
    {σ σ' : Duo Op Ret (Option JournalText) World (Except Exc TransactionOutcome) (Except Exc Unit)}
    (hrun : Relation.ReflTransGen (Duo.Step Step noteSeen UpToDate) (twoBrokers journal P d) σ)
    (hlast : Duo.Step Step noteSeen UpToDate σ σ') : Orderly journal σ.world σ'.world := by
  have hwritten : WellWritten (twoBrokers journal P d).world := by
    intro text ht
    have ht : d.journal = some text := ht
    rw [hd] at ht
    exact absurd ht (by simp)
  refine Duo.safe Allowed Continues WellWritten (Orderly journal) ?_
    ⟨hwritten, TradeCoordinator.execute_guarantees journal P,
      TradeCoordinator.requireNewTransaction_guarantees journal⟩ hrun hlast
  intro w seen op r w' hw hc hs
  exact step_orderly journal hw hc hs

/-- The view of a process that nobody overtakes is what is on disk, after every operation as before it. -/
theorem noteSeen_durable {w w' : World} {op : Op} {r : Ret op} (h : Step w op r w') :
    w'.disk.journal = noteSeen w.disk.journal op r := by
  rcases h.disk with ⟨hdisk, evs, htrace, hno⟩ | ⟨target, rfl, rfl⟩
  · rw [hdisk]
    cases op with
    | readText =>
        rcases h with ⟨text, ht, rfl, _⟩ | ⟨e, _, rfl, _⟩
        · exact ht
        · rfl
    | replace target =>
        rcases h with ⟨_, rfl⟩ | ⟨e, _, rfl, _⟩
        · have hevs : [Event.installed target] = evs := List.append_cancel_left htrace
          exact absurd (by rw [← hevs]; simp) (hno target)
        · cases target <;> rfl
    | _ => rfl
  · rcases h with ⟨rfl, _⟩ | ⟨e, _, _, hlog⟩
    · cases target <;> rfl
    · have htrace : w.trace ++ [Event.installed target] = w.trace ++ [.ioError] :=
        congrArg World.trace hlog
      exact absurd (List.append_cancel_left htrace) (by simp)

section Solo

variable {α β : Type} {answer : World → (op : Op) → Ret op × World}
  {d : Duo Op Ret (Option JournalText) World α β}

/-- The view of a process that has just moved is what is on disk, if it was before. -/
theorem view_move (h : ∀ w op, Step w op (answer w op).1 (answer w op).2) {side : Side}
    (hview : d.view side = d.world.disk.journal) :
    (d.move noteSeen answer side).view side = (d.move noteSeen answer side).world.disk.journal := by
  obtain ⟨p, q, seenL, seenR, w⟩ := d
  cases side with
  | left =>
      cases p with
      | done a => exact hview
      | call op k =>
          have hview : seenL = w.disk.journal := hview
          subst hview
          exact (noteSeen_durable (h w op)).symm
  | right =>
      cases q with
      | done b => exact hview
      | call op k =>
          have hview : seenR = w.disk.journal := hview
          subst hview
          exact (noteSeen_durable (h w op)).symm

/-- The operation replaces nothing; it may fail, read or trade, and the journal is as it was. -/
def Op.looks : Op → Bool
  | .replace _ => false
  | _ => true

/-- A process that replaces nothing is up to date, whatever it has seen. -/
theorem upToDate_looks (w : World) (seen : Option JournalText) {op : Op} (r : Ret op) (h : op.looks = true) :
    UpToDate w seen op r := by
  unfold UpToDate
  split
  · exact absurd h Bool.false_ne_true
  · trivial

/-- A process whose view is what is on disk may do anything. -/
theorem upToDate_view {side : Side} (hview : d.view side = d.world.disk.journal) (op : Op) (r : Ret op) :
    UpToDate d.world (d.view side) op r := by
  unfold UpToDate
  split
  · exact hview.symm
  · trivial

/-- **A process that nobody overtakes is up to date**, as long as its view is what is on disk when it begins. -/
theorem solo_up_to_date (h : ∀ w op, Step w op (answer w op).1 (answer w op).2) {side : Side} (n : Nat)
    (hview : d.view side = d.world.disk.journal) :
    Relation.ReflTransGen (Duo.Step Step noteSeen UpToDate) d
        (d.schedule noteSeen answer (List.replicate n side)) ∧
      (d.schedule noteSeen answer (List.replicate n side)).view side =
        (d.schedule noteSeen answer (List.replicate n side)).world.disk.journal := by
  induction n generalizing d with
  | zero => exact ⟨.refl, hview⟩
  | succ n ih =>
      obtain ⟨hrun, hlast⟩ := ih (view_move h hview)
      refine ⟨Relation.ReflTransGen.trans ?_ hrun, hlast⟩
      by_cases hmoves : d.move noteSeen answer side = d
      · rw [hmoves]
      · exact .single (Duo.move_step h (fun op => upToDate_view hview op _) hmoves)

/-- The next operation of the second process reads the journal, and gets it. -/
def readsNext (answer : World → (op : Op) → Ret op × World) :
    Duo Op Ret (Option JournalText) World α β → Bool
  | ⟨_, .call .readText _, _, _, w⟩ => ((answer w .readText).1 : Except Exc JournalText).isOk
  | _ => false

/-- A process that reads the journal sees what is on disk, whatever it saw before. -/
theorem view_reads (h : ∀ w op, Step w op (answer w op).1 (answer w op).2) (hreads : readsNext answer d = true) :
    (d.move noteSeen answer .right).view .right = (d.move noteSeen answer .right).world.disk.journal := by
  unfold readsNext at hreads
  split at hreads
  · rename_i p k seenL seenR w
    have hdurable := noteSeen_durable (h w .readText)
    show noteSeen seenR .readText (answer w .readText).1 = (answer w .readText).2.disk.journal
    rw [hdurable]
    revert hreads
    generalize (answer w .readText).1 = r
    cases (r : Except Exc JournalText) with
    | error e => exact fun hok => absurd hok Bool.false_ne_true
    | ok text => exact fun _ => rfl
  · exact absurd hreads Bool.false_ne_true

end Solo

/-- What is on disk, as `load` reads it. -/
def durableView (w : World) : Option (JournalState × Option Int) :=
  match w.disk.journal with
  | none => none
  | some text =>
      match text.load sampleStore with
      | .error _ => none
      | .ok raw => some (raw.state, match raw.sequence with
          | .int n => some n
          | _ => none)

/-! A second process starts its guard behind the first journal of a transaction: it asks whether there is a
journal, reads it, and closes it. -/

def exchangeAnswer : World → (op : Op) → Ret op × World :=
  (Script.exchange (sampleMon 2) (sampleMon 1) (sampleMon 0)).answer

theorem exchangeAnswer_step (w : World) (op : Op) : Step w op (exchangeAnswer w op).1 (exchangeAnswer w op).2 :=
  Script.answer_step _ w op

/-- The transaction has written its first journal. -/
def launched : Duo Op Ret (Option JournalText) World (Except Exc TransactionOutcome) (Except Exc Unit) :=
  (twoBrokers sampleStore (sampleMon 0) emptyDisk).schedule noteSeen exchangeAnswer (List.replicate 28 .left)

/-- The guard knows that there is a journal. -/
def alerted : Duo Op Ret (Option JournalText) World (Except Exc TransactionOutcome) (Except Exc Unit) :=
  launched.move noteSeen exchangeAnswer .right

/-- The guard has read it, and is about to replace it. -/
def guarding : Duo Op Ret (Option JournalText) World (Except Exc TransactionOutcome) (Except Exc Unit) :=
  (alerted.move noteSeen exchangeAnswer .right).schedule noteSeen exchangeAnswer (List.replicate 5 .right)

/-- The guard has replaced it. -/
def guarded : Duo Op Ret (Option JournalText) World (Except Exc TransactionOutcome) (Except Exc Unit) :=
  guarding.move noteSeen exchangeAnswer .right

theorem guarding_eval :
    launched.admitted noteSeen exchangeAnswer (fun _ _ op _ => op.looks) [.right, .right] = true ∧
      readsNext exchangeAnswer alerted = true ∧ durableView guarding.world = some (.idle, some 0) ∧
      durableView guarded.world = some (.recoveryRequired, some 1) := by
  decide +kernel

/-- Both processes have written, each over what it last saw, and the last step is the write that closes the
journal of the transaction. -/
theorem terminal_states_absorb_guarded :
    durableView guarding.world = some (.idle, some 0) ∧
      durableView guarded.world = some (.recoveryRequired, some 1) ∧
      Orderly sampleStore guarding.world guarded.world := by
  obtain ⟨hlooks, hreads, hidle, hclosed⟩ := guarding_eval
  have hlaunched := (@solo_up_to_date _ _ _ (twoBrokers sampleStore (sampleMon 0) emptyDisk)
    exchangeAnswer_step .left 28 rfl).1
  have hread := Duo.schedule_admitted (C := UpToDate) exchangeAnswer_step
    (fun w seen op r hop => upToDate_looks w seen r hop) hlooks
  obtain ⟨hguarding, hview⟩ := solo_up_to_date exchangeAnswer_step 5 (view_reads exchangeAnswer_step hreads)
  have hmoves : guarding.move noteSeen exchangeAnswer .right ≠ guarding := by
    intro hstays
    rw [guarded, hstays, hidle] at hclosed
    cases hclosed
  exact ⟨hidle, hclosed, terminal_states_absorb (d := emptyDisk) rfl ((hlaunched.trans hread).trans hguarding)
    (Duo.move_step exchangeAnswer_step (fun op => upToDate_view hview op _) hmoves)⟩

/-! ## §7 — the overtaken process. -/

/-- The transaction is about to replace the journal with its first state when the second process
starts and runs to its end. -/
def restarted : Duo Op Ret (Option JournalText) World (Except Exc TransactionOutcome)
    (Except Exc Unit) :=
  (twoBrokers sampleStore (sampleMon 0) emptyDisk).schedule noteSeen exchangeAnswer
    (List.replicate 28 .left ++ List.replicate 12 .right)

/-- The next operation of the transaction. -/
def overtaken : Duo Op Ret (Option JournalText) World (Except Exc TransactionOutcome)
    (Except Exc Unit) :=
  restarted.schedule noteSeen exchangeAnswer [.left]

/-- **A terminal state is overwritten.**  The guard of the second process has made
`RECOVERY_REQUIRED` durable; the next step of the first process replaces it by
`SWITCH_STAGE1_STARTED`, with the same sequence number. -/
theorem terminal_overwritten :
    Relation.ReflTransGen (Duo.Step Step noteSeen fun _ _ _ _ => True)
        (twoBrokers sampleStore (sampleMon 0) emptyDisk) restarted ∧
      Relation.ReflTransGen (Duo.Step Step noteSeen fun _ _ _ _ => True) restarted overtaken ∧
      durableView restarted.world = some (.recoveryRequired, some 1) ∧
      durableView overtaken.world = some (.switchStage1Started, some 1) := by
  refine ⟨Duo.schedule_run exchangeAnswer_step _ _, Duo.schedule_run exchangeAnswer_step _ _, ?_⟩
  decide +kernel

end TradeBroker
