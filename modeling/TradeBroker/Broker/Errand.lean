/-
# TradeBroker.Broker.Errand — the transaction without its journal.

Take every file-system call out of `execute` and what is left is an ERRAND: connect, three trades in
turn, the checks between them.  It is a program of its own, over the endpoint calls alone.  When no
file-system call fails, `execute` from a disk without a journal IS this errand as far as the
endpoints can tell (`execute_errand_sat`): it makes the calls of the errand, in its order, ends with
its answer, and the journal then says which answer that was.

* The errand returned: the journal is `COMPLETE`.
* The errand raised an `Exception` whose text encodes: the journal is `RECOVERY_REQUIRED` with it.
* It raised anything else: the journal is still in the state in which it was raised.

So what a run of `execute` ends with can be computed from the answers of the endpoints alone.  The
closes of the `finally` clause come after the errand and do not change any of this, unless one of
them raises a `BaseException`.

The correspondence is kept statement by statement.  `Along` says where the two programs are while the body
runs, `Halted` what a raise leaves, and `Finished` what a return does; `answered` is the step for an
endpoint call and `transition_sat` the one for the journal, which the errand does not have.

A failing file system is not excluded but set apart: after the first failed call nothing is claimed but
that it is in the trace.  Which exception then comes out, and what is on disk, is the matter of
`Broker.Walk`.
-/
import TradeBroker.Broker.Walk

namespace TradeBroker

open Lib

-- Programs are compared by running them: keep the bytes of a record out of that.
attribute [local irreducible] Pokemon100.heldItem

/-! ## §1 — the errand. -/

/-- What the coordinator asks of the endpoints and of the hook, in the order in which it asks. -/
inductive Call where
  | connect (console : Console)
  | waitForTradeMenu
  | switchTrade (offered : Pokemon100)
  | gbaTrade (offered : Pokemon100)
  | faultHook (boundary : Boundary)
  | close (console : Console)
  deriving DecidableEq

def Reply : Call → Type
  | .switchTrade _ => Except Exc TradeResult
  | .gbaTrade _ => Except Exc GbaTradeResult
  | _ => Except Exc Unit

/-- A program over the endpoint calls that may raise: what `execute` asks for, with files and journal left
out. -/
abbrev Errand (α : Type) : Type := Act Call Reply Exc α

/-- What an errand brings home: the two records and the slot; the placeholder has come back unchanged, or
there is no exchange. -/
structure Exchange where
  bMon : Pokemon100
  aMon : Pokemon100
  slot : Int
  deriving DecidableEq

namespace Errand

open TradeCoordinator

def connect (console : Console) : Errand Unit := ExceptT.mk (.call (.connect console) .done)

def waitForTradeMenu : Errand Unit := ExceptT.mk (.call .waitForTradeMenu .done)

def switchTradeOnce (offered : Pokemon100) : Errand TradeResult :=
  ExceptT.mk (.call (.switchTrade offered) .done)

def gbaTradeOnce (offered : Pokemon100) : Errand GbaTradeResult :=
  ExceptT.mk (.call (.gbaTrade offered) .done)

def faultHook (boundary : Boundary) : Errand Unit :=
  ExceptT.mk (.call (.faultHook boundary) .done)

/-- A check of the coordinator, which may end the errand and calls no endpoint. -/
def check (r : Except Exc Unit) : Errand Unit := ExceptT.mk (.done r)

/-- From the return trade on: offer `a` for the placeholder, and check what comes back. -/
def switchStage2 (placeholder b a : Pokemon100) (slot : Int) : Errand Exchange := do
  faultHook .beforeSwitchStage2
  waitForTradeMenu
  let second ← switchTradeOnce a
  faultHook .afterSwitch2EndpointBeforePersist
  check (validateResult second a "Switch stage 2")
  faultHook .beforePlaceholderValidation
  check (validateReturned second.receivedMon placeholder)
  pure ⟨b, a, slot⟩

/-- From the GBA trade on: offer `b`, check the result, and go on with what was received. -/
def gbaStage (placeholder b : Pokemon100) : Errand Exchange := do
  faultHook .beforeGbaTrade
  let gbaResult ← gbaTradeOnce b
  faultHook .afterGbaEndpointBeforePersist
  check (validateGbaResult gbaResult b)
  check gbaResult.receivedMon.refuseMail
  faultHook .afterBCommittedToGba
  switchStage2 placeholder b gbaResult.receivedMon gbaResult.selectedSlot

/-- From the first trade on: offer the placeholder, check the result, and go on with what was received. -/
def switchStage1 (placeholder : Pokemon100) : Errand Exchange := do
  faultHook .beforeSwitchStage1
  waitForTradeMenu
  let first ← switchTradeOnce placeholder
  faultHook .afterSwitch1EndpointBeforePersist
  check (validateResult first placeholder "Switch stage 1")
  check first.receivedMon.refuseMail
  faultHook .afterPlaceholderOnSwitch
  gbaStage placeholder first.receivedMon

def errand (placeholder : Pokemon100) : Errand Exchange := do
  connect .switch
  connect .gba
  switchStage1 placeholder

end Errand

/-! ## §2 — the errand in a trace. -/

/-- An endpoint call with the reply it got, of the type that the call has. -/
abbrev Replied : Type := Prog.Answered Call Reply

/-- The endpoint or hook call that an event is, with its reply; file-system events are none. -/
def Event.reply? : Event → Option Replied
  | .connect c answer => some ⟨.connect c, answer⟩
  | .waitForTradeMenu answer => some ⟨.waitForTradeMenu, answer⟩
  | .trade ⟨.switch, offered, _, .switchResult r, _⟩ => some ⟨.switchTrade offered, .ok r⟩
  | .trade ⟨.switch, offered, _, .raised e, _⟩ => some ⟨.switchTrade offered, .error e⟩
  | .trade ⟨.gba, offered, _, .gbaResult r, _⟩ => some ⟨.gbaTrade offered, .ok r⟩
  | .trade ⟨.gba, offered, _, .raised e, _⟩ => some ⟨.gbaTrade offered, .error e⟩
  | .faultHook b answer => some ⟨.faultHook b, answer⟩
  | .close c answer => some ⟨.close c, answer⟩
  | _ => none

/-- The calls of a run and their replies, in order. -/
def replies (tr : List Event) : List Replied := tr.filterMap Event.reply?

@[simp] theorem replies_append (tr tr' : List Event) :
    replies (tr ++ tr') = replies tr ++ replies tr' := List.filterMap_append

/-- The calls of the trace have taken the errand to `q`: the errand, run against the replies of the trace, has
`q` left to do. -/
def Heard (P : Pokemon100) (q : Prog Call Reply (Except Exc Exchange)) (tr : List Event) : Prop :=
  Prog.Follows (Errand.errand P).run (replies tr) q

theorem Heard.silent {P : Pokemon100} {q : Prog Call Reply (Except Exc Exchange)}
    {tr tr' : List Event} (h : Heard P q tr) (hs : replies tr' = []) : Heard P q (tr ++ tr') := by
  rw [Heard, replies_append, hs, List.append_nil]
  exact h

theorem Heard.step {P : Pokemon100} {c : Call} {k : Reply c → Prog Call Reply (Except Exc Exchange)}
    {tr : List Event} (h : Heard P (.call c k) tr) {ev : Event} {r : Reply c}
    (hev : ev.reply? = some ⟨c, r⟩) : Heard P (k r) (tr ++ [ev]) := by
  have hone : replies [ev] = [⟨c, r⟩] := by simp [replies, hev]
  rw [Heard, replies_append, hone]
  exact Prog.Follows.step h r

/-! ## §3 — the statements of the `try` body. -/

/-- On the main line: the books are true, they are durable, and the rest of the errand is `q`, the same that
the body has left to do. -/
structure Along (P : Pokemon100) (g : Progress) (q : Errand Exchange) (l : Locals) (w : World) :
    Prop where
  booked : Booked P g l.record
  journal : w.disk.journal = some (.json l.record.document)
  noFault : .ioError ∉ w.trace
  heard : Heard P q.run w.trace

/-- The body raised `e`: a file-system call failed, or the errand raised it too, after the same calls. -/
def Halted (P : Pokemon100) (e : Exc) (l : Locals) (w : World) : Prop :=
  .ioError ∈ w.trace ∨
    ((∃ g, Booked P g l.record) ∧ l.record.state ≠ .complete ∧
      w.disk.journal = some (.json l.record.document) ∧ .ioError ∉ w.trace ∧
      Heard P (.done (.error e)) w.trace)

namespace Along

variable {P : Pokemon100} {g g' : Progress} {l : Locals} {w : World}

/-- The reply of an endpoint or of the hook moves the errand on, or ends it. -/
theorem answered {α : Type} {c : Call} {f : Reply c → Prog Call Reply (Except Exc Exchange)}
    {q : Errand Exchange} {k : α → Errand Exchange} (h : Along P g q l w)
    (hs : l.record.state ≠ .complete) (hq : q.run = .call c f) {ev : Event} {r : Reply c}
    {answer : Except Exc α} (hev : ev.reply? = some ⟨c, r⟩)
    (hok : ∀ a, answer = .ok a → f r = (k a).run)
    (herr : ∀ e, answer = .error e → f r = .done (.error e)) :
    Ends (fun a v => Along P g (k a) l v) (fun e v => Halted P e l v) answer (w.log ev) := by
  have hheard : Heard P (f r) (w.trace ++ [ev]) := by
    refine Heard.step (k := f) ?_ hev
    rw [← hq]
    exact h.heard
  have hio : .ioError ∉ w.trace ++ [ev] := by
    intro hm
    rcases List.mem_append.mp hm with hm | hm
    · exact h.noFault hm
    · rw [← List.mem_singleton.mp hm] at hev
      exact absurd hev (by simp [Event.reply?])
  cases answer with
  | ok a =>
      rw [hok a rfl] at hheard
      exact ⟨h.booked, h.journal, hio, hheard⟩
  | error e =>
      rw [herr e rfl] at hheard
      exact Or.inr ⟨⟨g, h.booked⟩, hs, h.journal, hio, hheard⟩

section Calls

variable {k : Unit → Errand Exchange}

theorem connect_sat {console : Console} (h : Along P g (Errand.connect console >>= k) l w)
    (hs : l.record.state ≠ .complete) :
    Act.Sat Step (fun _ => True) (connect console) w (fun a v => Along P g (k a) l v)
      (fun e v => Halted P e l v) := by
  refine ⟨trivial, ?_⟩
  intro answer v hv
  obtain rfl : v = w.log (.connect console answer) := hv
  refine ⟨trivial, h.answered hs rfl rfl ?_ ?_⟩
  · rintro a rfl
    rfl
  · rintro e rfl
    rfl

theorem waitForTradeMenu_sat (h : Along P g (Errand.waitForTradeMenu >>= k) l w)
    (hs : l.record.state ≠ .complete) :
    Act.Sat Step (fun _ => True) waitForTradeMenu w (fun a v => Along P g (k a) l v)
      (fun e v => Halted P e l v) := by
  refine ⟨trivial, ?_⟩
  intro answer v hv
  obtain rfl : v = w.log (.waitForTradeMenu answer) := hv
  refine ⟨trivial, h.answered hs rfl rfl ?_ ?_⟩
  · rintro a rfl
    rfl
  · rintro e rfl
    rfl

theorem faultHook_sat {b : Boundary} (h : Along P g (Errand.faultHook b >>= k) l w)
    (hs : l.record.state ≠ .complete) :
    Act.Sat Step (fun _ => True) (faultHook b l.record) w (fun a v => Along P g (k a) l v)
      (fun e v => Halted P e l v) := by
  refine ⟨trivial, ?_⟩
  intro answer v hv
  obtain rfl : v = w.log (.faultHook b answer) := hv
  refine ⟨trivial, h.answered hs rfl rfl ?_ ?_⟩
  · rintro a rfl
    rfl
  · rintro e rfl
    rfl

theorem switchTradeOnce_sat {offered : Pokemon100} {k : TradeResult → Errand Exchange}
    (h : Along P g (Errand.switchTradeOnce offered >>= k) l w) (hs : l.record.state ≠ .complete) :
    Act.Sat Step (fun _ => True) (switchTradeOnce offered) w (fun a v => Along P g (k a) l v)
      (fun e v => Halted P e l v) := by
  refine ⟨trivial, ?_⟩
  intro answer v hv
  obtain ⟨swapped, rfl⟩ := hv
  refine ⟨trivial, ?_⟩
  cases answer with
  | ok r => exact h.answered hs rfl rfl (by rintro a ⟨⟩; rfl) (by rintro e ⟨⟩)
  | error e => exact h.answered hs rfl rfl (by rintro a ⟨⟩) (by rintro e ⟨⟩; rfl)

theorem gbaTradeOnce_sat {offered : Pokemon100} {k : GbaTradeResult → Errand Exchange}
    (h : Along P g (Errand.gbaTradeOnce offered >>= k) l w) (hs : l.record.state ≠ .complete) :
    Act.Sat Step (fun _ => True) (gbaTradeOnce offered) w (fun a v => Along P g (k a) l v)
      (fun e v => Halted P e l v) := by
  refine ⟨trivial, ?_⟩
  intro answer v hv
  obtain ⟨swapped, rfl⟩ := hv
  refine ⟨trivial, ?_⟩
  cases answer with
  | ok r => exact h.answered hs rfl rfl (by rintro a ⟨⟩; rfl) (by rintro e ⟨⟩)
  | error e => exact h.answered hs rfl rfl (by rintro a ⟨⟩) (by rintro e ⟨⟩; rfl)

/-- A check of the coordinator is a check of the errand. -/
theorem check_sat {r : Except Exc Unit} (h : Along P g (Errand.check r >>= k) l w)
    (hs : l.record.state ≠ .complete) :
    Act.Sat Step (fun _ => True) (ofExcept r) w (fun a v => r = .ok () ∧ Along P g (k a) l v)
      (fun e v => Halted P e l v) := by
  refine Act.Sat.ofExcept trivial ?_
  cases r with
  | ok u => exact ⟨rfl, h.booked, h.journal, h.noFault, h.heard⟩
  | error e => exact Or.inr ⟨⟨g, h.booked⟩, hs, h.journal, h.noFault, h.heard⟩

end Calls

section Writes

variable (journal : JournalStore) {q : Errand Exchange}

/-- A file was replaced: the endpoints did not hear of it. -/
theorem heard_install (h : Along P g q l w) (t : Write) : Heard P q.run (w.install t).trace :=
  h.heard.silent rfl

theorem noFault_install (h : Along P g q l w) (t : Write) : .ioError ∉ (w.install t).trace := by
  intro hm
  rcases List.mem_append.mp hm with hm | hm
  · exact h.noFault hm
  · exact absurd hm (by simp)

theorem saveArtifact_sat (h : Along P g q l w) {label : PyStr} {mon : Pokemon100}
    (hl : label ∈ JournalStore.artifactLabels) :
    Act.Sat Step (fun _ => True) (journal.saveArtifact l.record label mon) w
      (fun _ v => Along P g q l v) (fun e v => Halted P e l v) := by
  refine (JournalStore.saveArtifact_sat journal hl (fun _ => trivial) (fun _ => trivial)).mono
    (fun _ hv => hv) ?_ ?_
  · intro _ v _ hv
    subst hv
    exact ⟨h.booked, h.journal, h.noFault_install _, h.heard_install _⟩
  · intro e v _ hv
    obtain ⟨_, n, hn, rfl | rfl⟩ := hv
    · exact Or.inl (ioError_mem_faults _ hn)
    · exact Or.inl (ioError_mem_faults _ hn)

/-- A transition that keeps the books true moves the journal, or a file-system call fails. -/
theorem transition_sat (h : Along P g q l w) {s : JournalState} {u : Update}
    (hc : l.record.check s u = .ok ())
    (hb : ∀ now, encodable now = true → Booked P g' (l.record.advance s now u)) :
    Method.Sat Step (fun _ => True) (TradeCoordinator.transition journal s u) l w
      (fun _ l' v => l'.record.state = s ∧ Along P g' q l' v) (Halted P) := by
  refine Prog.Sat.bind (JournalStore.transition_sat journal hc (fun _ => trivial)
    fun _ _ _ => trivial) ?_
  intro ended v hv hend
  obtain ⟨written, r'⟩ := ended
  obtain ⟨now, hnow, rfl, hend⟩ := hend
  refine ⟨trivial, ?_⟩
  cases written with
  | ok u' =>
      obtain ⟨_, rfl⟩ := hend
      exact ⟨rfl, hb now hnow, rfl, h.noFault_install _, h.heard_install _⟩
  | error e =>
      rcases hend with ⟨_, henc, _⟩ | ⟨_, n, hn, rfl | rfl⟩
      · have htexts := (hb now hnow).texts.encodable_document
        rw [JournalRecord.document, htexts] at henc
        exact absurd henc (by simp)
      · exact Or.inl (ioError_mem_faults _ hn)
      · exact Or.inl (ioError_mem_faults _ hn)

/-- A transition inside one progress, with its note only. -/
theorem transition_note_sat (h : Along P g q l w) {s s' : JournalState} {note : String}
    (hs : l.record.state = s) (hnext : s.next = some s') (hspan : s' ∈ g.states)
    (hl : s.locations = s'.locations) (hne : s' ≠ .complete) :
    Method.Sat Step (fun _ => True) (TradeCoordinator.transition journal s' { note := note }) l w
      (fun _ l' v => l'.record.state = s' ∧ Along P g q l' v) (Halted P) := by
  subst hs
  exact h.transition_sat journal (JournalRecord.check_note hnext) fun now hnow =>
    h.booked.advance_note hnext hspan hnow (encodable_lit note) hl hne

end Writes

/-- A statement that leaves the locals alone. -/
theorem lifted {α : Type} {x : Broker α} {R : α → World → Prop}
    (h : Act.Sat Step (fun _ => True) x w R (fun e v => Halted P e l v)) :
    Method.Sat Step (fun _ => True) (Method.lift x) l w (fun a l' v => l' = l ∧ R a v)
      (Halted P) :=
  Method.Sat.lift (h.mono (fun _ hv => hv) (fun _ _ _ hr => ⟨rfl, hr⟩) (fun _ _ _ he => he))

/-! ## §4 — the stages. -/

variable (journal : JournalStore)

theorem switchStage1_sat (h : Along P .start (Errand.switchStage1 P) l w)
    (hs : l.record.state = .idle) :
    Method.Sat Step (fun _ => True) (TradeCoordinator.switchStage1 journal P) l w
      (fun b l' v => l'.record.state = .placeholderOnSwitch ∧
        Along P (.gotB b) (Errand.gbaStage P b) l' v) (Halted P) := by
  unfold TradeCoordinator.switchStage1
  refine Method.Sat.bind (h.transition_note_sat journal hs rfl (by decide) rfl (by decide)) ?_
  intro _ l1 w1 _ h1
  obtain ⟨hs1, h1⟩ := h1
  have hne : l1.record.state ≠ .complete := by
    rw [hs1]
    decide
  refine Method.Sat.bind (lifted (h1.faultHook_sat hne)) ?_
  rintro _ _ w2 _ ⟨rfl, h2⟩
  refine Method.Sat.bind (lifted (h2.waitForTradeMenu_sat hne)) ?_
  rintro _ _ w3 _ ⟨rfl, h3⟩
  refine Method.Sat.bind (lifted (h3.switchTradeOnce_sat hne)) ?_
  rintro first _ w4 _ ⟨rfl, h4⟩
  refine Method.Sat.bind (lifted (h4.faultHook_sat hne)) ?_
  rintro _ _ w5 _ ⟨rfl, h5⟩
  refine Method.Sat.bind (lifted (h5.check_sat hne)) ?_
  rintro _ l1 w6 _ ⟨rfl, _, h6⟩
  refine Method.Sat.bind (lifted (h6.check_sat hne)) ?_
  rintro _ l1 w7 _ ⟨rfl, _, h7⟩
  refine Method.Sat.bind (lifted (h7.saveArtifact_sat journal (by decide))) ?_
  rintro _ l1 w8 _ ⟨rfl, h8⟩
  obtain ⟨hcheck, hbooked⟩ := h8.booked.capture_B hs1 first.receivedMon
  refine Method.Sat.bind (h8.transition_sat journal hcheck hbooked) ?_
  intro _ l9 w9 _ h9
  obtain ⟨hs9, h9⟩ := h9
  refine Method.Sat.bind (h9.transition_note_sat journal hs9 rfl (by simp [Progress.states]) rfl
    (by decide)) ?_
  intro _ l10 w10 _ h10
  obtain ⟨hs10, h10⟩ := h10
  refine Method.Sat.bind (lifted (h10.faultHook_sat (by rw [hs10]; decide))) ?_
  rintro _ _ w11 _ ⟨rfl, h11⟩
  exact Method.Sat.pure trivial ⟨hs10, h11⟩

theorem gbaStage_sat {b : Pokemon100} (h : Along P (.gotB b) (Errand.gbaStage P b) l w)
    (hs : l.record.state = .placeholderOnSwitch) :
    Method.Sat Step (fun _ => True) (TradeCoordinator.gbaStage journal b) l w
      (fun a l' v => l'.record.state = .bCommittedToGba ∧
        ∃ slot, Along P (.gotA b a slot) (Errand.switchStage2 P b a slot) l' v) (Halted P) := by
  unfold TradeCoordinator.gbaStage
  refine Method.Sat.bind (h.transition_note_sat journal hs rfl (by simp [Progress.states]) rfl
    (by decide)) ?_
  intro _ l1 w1 _ h1
  obtain ⟨hs1, h1⟩ := h1
  have hne : l1.record.state ≠ .complete := by
    rw [hs1]
    decide
  refine Method.Sat.bind (lifted (h1.faultHook_sat hne)) ?_
  rintro _ _ w2 _ ⟨rfl, h2⟩
  refine Method.Sat.bind (lifted (h2.gbaTradeOnce_sat hne)) ?_
  rintro result _ w3 _ ⟨rfl, h3⟩
  refine Method.Sat.bind (lifted (h3.faultHook_sat hne)) ?_
  rintro _ _ w4 _ ⟨rfl, h4⟩
  refine Method.Sat.bind (lifted (h4.check_sat hne)) ?_
  rintro _ l1 w5 _ ⟨rfl, hvalid, h5⟩
  refine Method.Sat.bind (lifted (h5.check_sat hne)) ?_
  rintro _ l1 w6 _ ⟨rfl, _, h6⟩
  refine Method.Sat.bind (lifted (h6.saveArtifact_sat journal (by decide))) ?_
  rintro _ l1 w7 _ ⟨rfl, h7⟩
  have hslot := (TradeCoordinator.validateGbaResult_ok.mp hvalid).2.2.1
  obtain ⟨hcheck, hbooked⟩ := h7.booked.capture_A hs1 result.receivedMon hslot
  refine Method.Sat.bind (h7.transition_sat journal hcheck hbooked) ?_
  intro _ l8 w8 _ h8
  obtain ⟨hs8, h8⟩ := h8
  refine Method.Sat.bind (h8.transition_note_sat journal hs8 rfl (by simp [Progress.states]) rfl
    (by decide)) ?_
  intro _ l9 w9 _ h9
  obtain ⟨hs9, h9⟩ := h9
  refine Method.Sat.bind (lifted (h9.faultHook_sat (by rw [hs9]; decide))) ?_
  rintro _ _ w10 _ ⟨rfl, h10⟩
  exact Method.Sat.pure trivial ⟨hs9, _, h10⟩

/-- The body returned: the errand is done with this outcome, and the journal says so. -/
def Finished (P : Pokemon100) (outcome : TransactionOutcome) (l : Locals) (w : World) : Prop :=
  ∃ b a slot, Along P (.gotP b a slot P) (pure ⟨b, a, slot⟩) l w ∧ l.record.state = .complete ∧
    outcome = ⟨l.record.transactionId, b, a, P⟩

theorem switchStage2_sat {b a : Pokemon100} {slot : Int}
    (h : Along P (.gotA b a slot) (Errand.switchStage2 P b a slot) l w)
    (hs : l.record.state = .bCommittedToGba) :
    Method.Sat Step (fun _ => True) (TradeCoordinator.switchStage2 journal P b a) l w (Finished P)
      (Halted P) := by
  unfold TradeCoordinator.switchStage2
  refine Method.Sat.bind (h.transition_note_sat journal hs rfl (by simp [Progress.states]) rfl
    (by decide)) ?_
  intro _ l1 w1 _ h1
  obtain ⟨hs1, h1⟩ := h1
  have hne : l1.record.state ≠ .complete := by
    rw [hs1]
    decide
  refine Method.Sat.bind (lifted (h1.faultHook_sat hne)) ?_
  rintro _ _ w2 _ ⟨rfl, h2⟩
  refine Method.Sat.bind (lifted (h2.waitForTradeMenu_sat hne)) ?_
  rintro _ _ w3 _ ⟨rfl, h3⟩
  refine Method.Sat.bind (lifted (h3.switchTradeOnce_sat hne)) ?_
  rintro second _ w4 _ ⟨rfl, h4⟩
  refine Method.Sat.bind (lifted (h4.faultHook_sat hne)) ?_
  rintro _ _ w5 _ ⟨rfl, h5⟩
  refine Method.Sat.bind (lifted (h5.check_sat hne)) ?_
  rintro _ l1 w6 _ ⟨rfl, _, h6⟩
  refine Method.Sat.bind (lifted (h6.saveArtifact_sat journal (by decide))) ?_
  rintro _ l1 w7 _ ⟨rfl, h7⟩
  obtain ⟨hcheck, hbooked⟩ := h7.booked.commit_A hs1 second.receivedMon
  refine Method.Sat.bind (h7.transition_sat journal hcheck hbooked) ?_
  intro _ l8 w8 _ h8
  obtain ⟨hs8, h8⟩ := h8
  have hne8 : l8.record.state ≠ .complete := by
    rw [hs8]
    decide
  refine Method.Sat.bind (lifted (h8.faultHook_sat hne8)) ?_
  rintro _ _ w9 _ ⟨rfl, h9⟩
  refine Method.Sat.bind (lifted (h9.check_sat hne8)) ?_
  rintro _ l8 w10 _ ⟨rfl, hreturned, h10⟩
  have hreturned : second.receivedMon = P := TradeCoordinator.validateReturned_ok.mp hreturned
  rw [hreturned] at h10 ⊢
  obtain ⟨hcheck, hbooked⟩ := h10.booked.complete hs8
  refine Method.Sat.bind (h10.transition_sat journal hcheck hbooked) ?_
  intro _ l11 w11 _ h11
  obtain ⟨hs11, h11⟩ := h11
  exact Method.Sat.pure trivial ⟨b, a, slot, h11, hs11, rfl⟩

/-- Only the record matters, not the flags beside it. -/
theorem relabel {q : Errand Exchange} {l' : Locals} (h : Along P g q l w)
    (hr : l'.record = l.record) : Along P g q l' w := by
  obtain ⟨hb, hj, hio, hh⟩ := h
  rw [← hr] at hb hj
  exact ⟨hb, hj, hio, hh⟩

/-- **The `try` body is the errand**, statement by statement, up to the first file-system call that fails. -/
theorem body_sat (h : Along P .start (Errand.errand P) l w) (hs : l.record.state = .idle) :
    Method.Sat Step (fun _ => True) (TradeCoordinator.body journal P) l w (Finished P)
      (Halted P) := by
  have hne : l.record.state ≠ .complete := by
    rw [hs]
    decide
  unfold TradeCoordinator.body
  refine Method.Sat.bind (lifted (h.connect_sat hne)) ?_
  rintro _ l1 w1 _ ⟨rfl, h1⟩
  refine Method.Sat.bind (Method.Sat.assign (Q := fun _ l' v => l'.record = l1.record ∧
    Along P .start _ l' v) trivial ⟨rfl, h1.relabel rfl⟩) ?_
  rintro _ l2 w2 _ ⟨hr2, h2⟩
  refine Method.Sat.bind (lifted (h2.connect_sat (by rw [hr2]; exact hne))) ?_
  rintro _ l3 w3 _ ⟨rfl, h3⟩
  refine Method.Sat.bind (Method.Sat.assign (Q := fun _ l' v => l'.record = l3.record ∧
    Along P .start _ l' v) trivial ⟨rfl, h3.relabel rfl⟩) ?_
  rintro _ l4 w4 _ ⟨hr4, h4⟩
  refine Method.Sat.bind (h4.switchStage1_sat journal (by rw [hr4, hr2]; exact hs)) ?_
  rintro b l5 w5 _ ⟨hs5, h5⟩
  refine Method.Sat.bind (h5.gbaStage_sat journal hs5) ?_
  rintro a l6 w6 _ ⟨hs6, slot, h6⟩
  exact h6.switchStage2_sat journal hs6

end Along

/-! ## §5 — `except`, `finally` and the guards in front. -/

/-- The calls of the trace are those of the errand, up to its answer, and then closes, which belong to the
`finally` clause. -/
def Ran (P : Pokemon100) (answer : Except Exc Exchange) (tr : List Event) : Prop :=
  ∃ xs cs, replies tr = xs ++ cs ∧ (∀ x ∈ cs, ∃ c, x.op = .close c) ∧
    Prog.Follows (Errand.errand P).run xs (.done answer)

/-- What the journal says after the errand raised `e`: closed with its description, or open where the `except`
clause did not see it or could not write it down. -/
def LeftBehind (P : Pokemon100) (e : Exc) (text : Option JournalText) : Prop :=
  ∃ g r, Booked P g r ∧ r.state ≠ .complete ∧
    (if e.isException && e.encodable then
      ∃ now, text = some (.json (r.recovered now e.describe).document)
    else text = some (.json r.document))

/-- What holds when `execute` returns: the errand was answered with the exchange, the journal on the disk is
complete and books it, and the outcome is made of both. -/
def Succeeded (P : Pokemon100) (outcome : TransactionOutcome) (w : World) : Prop :=
  ∃ x r, Ran P (.ok x) w.trace ∧ Booked P (.gotP x.bMon x.aMon x.slot P) r ∧
    r.state = .complete ∧ w.disk.journal = some (.json r.document) ∧
    outcome = ⟨r.transactionId, x.bMon, x.aMon, P⟩

/-- What holds when `execute` raises `e`: the errand ended with it and the journal was left behind for it, or
a file-system call failed, or a close cut the run short. -/
def Raised (P : Pokemon100) (e : Exc) (w : World) : Prop :=
  .ioError ∈ w.trace ∨ Interrupted w.trace ∨
    (Ran P (.error e) w.trace ∧ LeftBehind P e w.disk.journal)

/-- What holds of an `e` that the body raised, once the `except` clause is over. -/
def Aborted (P : Pokemon100) (e : Exc) (w : World) : Prop :=
  .ioError ∈ w.trace ∨ (Ran P (.error e) w.trace ∧ LeftBehind P e w.disk.journal)

/-- What holds of the answer of the body from the `except` clause on, until the closes are over. -/
def Resolved (P : Pokemon100) (answer : Except Exc TransactionOutcome) (w : World) : Prop :=
  Ends (Succeeded P) (Aborted P) answer w

theorem Ran.silent {P : Pokemon100} {answer : Except Exc Exchange} {tr tr' : List Event}
    (h : Ran P answer tr) (hs : replies tr' = []) : Ran P answer (tr ++ tr') := by
  obtain ⟨xs, cs, hxs, hcs, hf⟩ := h
  exact ⟨xs, cs, by rw [replies_append, hs, List.append_nil, hxs], hcs, hf⟩

theorem Ran.close {P : Pokemon100} {answer : Except Exc Exchange} {tr : List Event}
    (h : Ran P answer tr) (c : Console) (closed : Except Exc Unit) :
    Ran P answer (tr ++ [.close c closed]) := by
  obtain ⟨xs, cs, hxs, hcs, hf⟩ := h
  refine ⟨xs, cs ++ [⟨.close c, closed⟩], ?_, ?_, hf⟩
  · rw [replies_append, hxs, List.append_assoc]
    rfl
  · intro x hx
    rcases List.mem_append.mp hx with hx | hx
    · exact hcs x hx
    · obtain rfl := List.mem_singleton.mp hx
      exact ⟨c, rfl⟩

theorem Resolved.close {P : Pokemon100} {answer : Except Exc TransactionOutcome} {w : World}
    (h : Resolved P answer w) {console : Console} {closed : Except Exc Unit} :
    Resolved P answer (w.log (.close console closed)) := by
  cases answer with
  | ok outcome =>
      obtain ⟨x, r, hran, hrest⟩ := h
      exact ⟨x, r, hran.close console closed, hrest⟩
  | error e =>
      rcases h with hio | ⟨hran, hleft⟩
      · exact Or.inl (List.mem_append_left _ hio)
      · exact Or.inr ⟨hran.close console closed, hleft⟩

theorem ioError_persists {w w' : World} {op : Op} {r : Ret op} (h : Step w op r w')
    (hm : .ioError ∈ w.trace) : .ioError ∈ w'.trace := by
  rcases h.disk with ⟨_, evs, hevs, _⟩ | ⟨t, _, rfl⟩
  · rw [hevs]
    exact List.mem_append_left _ hm
  · exact List.mem_append_left _ hm

namespace TradeCoordinator

variable (journal : JournalStore) {P : Pokemon100} {l : Locals} {w : World}

/-- After an I/O failure nothing is claimed, and it stays in the trace, whatever the program does next. -/
theorem faulty_sat {α : Type} (x : Broker α) (h : .ioError ∈ w.trace) :
    Act.Sat Step (fun _ => True) x w (fun _ v => .ioError ∈ v.trace)
      (fun _ v => .ioError ∈ v.trace) :=
  Act.Avoids.sat (J := fun v : World => Event.ioError ∈ v.trace) (Act.avoids_none x)
    (fun _ _ _ _ _ hm hs => ioError_persists hs hm) (fun _ _ => trivial) h

theorem markRecovery_errand_sat {e : Exc} (he : e.isException = true) (h : Halted P e l w) :
    Act.Sat Step (fun _ => True) (markRecovery journal l.record e) w (fun _ v => Aborted P e v)
      (fun _ v => .ioError ∈ v.trace) := by
  rcases h with hio | ⟨⟨g, hb⟩, hs, hj, hio, hheard⟩
  · exact (faulty_sat _ hio).mono (fun _ hv => hv) (fun _ _ _ hv => Or.inl hv) (fun _ _ _ hv => hv)
  have hterm : l.record.state.terminal = false := by
    rw [← Bool.not_eq_true, hb.terminal_iff]
    exact hs
  have hran : Ran P (.error e) w.trace := ⟨_, [], by simp, by simp, hheard⟩
  unfold markRecovery
  rw [if_neg (by rw [hterm]; simp)]
  refine Prog.Sat.bind (JournalStore.transition_sat journal
    (JournalRecord.check_eq_ok (Or.inl rfl) hterm rfl rfl) (fun _ => trivial)
    fun _ _ _ => trivial) ?_
  intro ended v hv hend
  obtain ⟨written, r'⟩ := ended
  obtain ⟨now, hnow, rfl, hend⟩ := hend
  have htexts : (l.record.recovered now e.describe).document.encodable = e.encodable := by
    rw [Bool.eq_iff_iff, ← Exc.encodable_describe]
    constructor
    · intro henc
      exact ((JournalRecord.encodable_document_iff _).mp henc).lastError _ rfl
    · intro henc
      exact (hb.recovered_texts e.describe hnow henc).encodable_document
  cases written with
  | ok u =>
      obtain ⟨henc, rfl⟩ := hend
      refine ⟨trivial, Or.inr ⟨hran.silent rfl, g, l.record, hb, hs, ?_⟩⟩
      rw [if_pos (by rw [he, ← htexts]; exact henc)]
      exact ⟨now, rfl⟩
  | error e' =>
      have hexc : e'.isException = true := by
        rcases hend with ⟨he', _⟩ | ⟨he', _⟩
        · exact he'
        · exact he'.isException
      show Prog.Sat Step _ _ (Prog.done (if e'.isException then _ else _)) v
      rw [if_pos hexc]
      refine ⟨trivial, ?_⟩
      rcases hend with ⟨_, henc, rfl⟩ | ⟨_, n, hn, rfl | rfl⟩
      · refine Or.inr ⟨hran, g, l.record, hb, hs, ?_⟩
        have hnot : e.encodable = false := htexts.symm.trans henc
        rw [if_neg (by rw [hnot]; simp)]
        exact hj
      · exact Or.inl (ioError_mem_faults _ hn)
      · exact Or.inl (ioError_mem_faults _ hn)

theorem handle_errand_sat {ended : Except Exc TransactionOutcome}
    (h : Ends (fun o w => Along.Finished P o l w) (fun e w => Halted P e l w) ended w) :
    Act.Sat Step (fun _ => True) (handle journal l.record ended) w (Succeeded P) (Aborted P) := by
  cases ended with
  | ok outcome =>
      obtain ⟨b, a, slot, hal, hs, ho⟩ := h
      exact Act.Sat.pure trivial ⟨⟨b, a, slot⟩, l.record, ⟨_, [], by simp, by simp, hal.heard⟩,
        hal.booked, hs, hal.journal, ho⟩
  | error e =>
      have hhalted : Halted P e l w := h
      show Act.Sat Step _ (if e.isException then _ else _) w _ _
      by_cases he : e.isException = true
      · rw [if_pos he]
        refine Act.Sat.bind ((markRecovery_errand_sat journal he hhalted).mono (fun _ hv => hv)
          (fun _ _ _ hv => hv) (fun _ _ _ hv => Or.inl hv)) ?_
        intro _ v _ hraised
        exact Act.Sat.throw trivial hraised
      · -- A `BaseException` passes by `_mark_recovery`.
        rw [if_neg he]
        refine Act.Sat.throw trivial ?_
        rcases hhalted with hio | ⟨⟨g, hb⟩, hs, hj, _, hheard⟩
        · exact Or.inl hio
        · refine Or.inr ⟨⟨_, [], by simp, by simp, hheard⟩, g, l.record, hb, hs, ?_⟩
          rw [if_neg (by simp [he])]
          exact hj

/-- The closes change nothing of it; one of them may raise what they do not catch. -/
theorem closeIf_errand_sat {answer : Except Exc TransactionOutcome} (connected : Bool)
    (console : Console) (h : Resolved P answer w) :
    Act.Sat Step (fun _ => True) (closeIf connected console) w (fun _ v => Resolved P answer v)
      (fun _ v => Interrupted v.trace ∧ Resolved P answer v) := by
  unfold closeIf
  cases connected with
  | false => exact Act.Sat.pure trivial h
  | true =>
      refine Act.Sat.bind (R := fun r v => v = w.log (.close console r)) ⟨trivial, ?_⟩ ?_
      · intro r v hv
        exact ⟨trivial, hv⟩
      · rintro closed _ _ rfl
        cases closed with
        | ok u => exact Act.Sat.pure trivial h.close
        | error e =>
            show Act.Sat Step _ (if e.isException then _ else _) _ _ _
            by_cases he : e.isException = true
            · rw [if_pos he]
              exact Act.Sat.pure trivial h.close
            · rw [if_neg he]
              refine Act.Sat.throw trivial ⟨⟨console, e, by simp, ?_⟩, h.close⟩
              simpa using he

/-- `create` opens the books and calls no endpoint. -/
theorem create_errand_sat (hj : w.disk.journal = none) (ht : w.trace = []) :
    Act.Sat Step (fun _ => True) (journal.create P) w
      (fun record v => record.state = .idle ∧
        Along P .start (Errand.errand P) ⟨record, false, false⟩ v)
      (fun _ v => .ioError ∈ v.trace) := by
  unfold JournalStore.create
  refine Act.Sat.bind ((JournalStore.pathExists_sat trivial trivial).mono (fun _ hv => hv)
    (fun _ _ _ hv => hv) ?_) ?_
  · rintro e _ _ ⟨_, rfl⟩
    exact ioError_mem_faults w (by omega)
  rintro present _ _ ⟨rfl, rfl⟩
  rw [hj]
  refine Act.Sat.bind (JournalStore.clock_sat trivial) ?_
  rintro now _ _ ⟨hnow, rfl⟩
  refine Act.Sat.bind (JournalStore.uuid4_sat trivial) ?_
  rintro u w _ rfl
  have hbooked := Booked.fresh u hnow P
  refine Act.Sat.bind ((JournalStore.saveArtifact_sat journal (by decide) (fun _ => trivial)
    fun _ => trivial).mono (fun _ hv => hv) (fun _ _ _ hv => hv) ?_) ?_
  · intro e v _ hv
    obtain ⟨_, n, hn, rfl | rfl⟩ := hv <;> exact ioError_mem_faults _ hn
  rintro _ _ _ rfl
  refine Act.Sat.bind ((JournalStore.write_sat journal (fun _ => trivial) fun _ => trivial).mono
    (fun _ hv => hv) (fun _ _ _ hv => hv) ?_) ?_
  · intro e v _ hv
    rcases hv with ⟨_, henc, _⟩ | ⟨_, n, hn, rfl | rfl⟩
    · rw [hbooked.texts.encodable_document] at henc
      exact absurd henc (by simp)
    · exact ioError_mem_faults _ hn
    · exact ioError_mem_faults _ hn
  rintro _ _ _ ⟨_, rfl⟩
  refine Act.Sat.pure trivial ⟨rfl, hbooked, rfl, ?_, ?_⟩
  · simp [ht]
  · rw [World.install_trace, World.install_trace, ht]
    exact Prog.Follows.refl _

/-- **`execute` is the errand**, from a disk without a journal and with a placeholder that is free
of mail: what it leaves behind goes with the answer of the body, also where a close that raises a
`BaseException` hides that answer. -/
theorem execute_resolved_sat {d : Disk} (hj : d.journal = none) (hmail : P.holdsMail = false) :
    Act.Sat Step (fun _ => True) (execute journal P) ⟨d, []⟩ (fun o v => Resolved P (.ok o) v)
      (fun e v => .ioError ∈ v.trace ∨ Resolved P (.error e) v ∨
        (Interrupted v.trace ∧ ∃ answer, Resolved P answer v)) := by
  unfold execute
  rw [Pokemon100.refuseMail_ok.mpr hmail]
  refine Act.Sat.bind (R := fun _ v => v = (⟨d, []⟩ : World)) ⟨trivial, rfl⟩ ?_
  rintro _ _ _ rfl
  refine Act.Sat.bind ((requireNewTransaction_sat journal hj fun _ => trivial).mono
    (fun _ hv => hv) (fun _ _ _ hv => hv) ?_) ?_
  · rintro e _ _ rfl
    exact Or.inl (ioError_mem_faults _ (by omega))
  rintro _ _ _ rfl
  refine Act.Sat.bind ((create_errand_sat journal hj rfl).mono (fun _ hv => hv)
    (fun _ _ _ hv => hv) (fun _ _ _ hv => Or.inl hv)) ?_
  rintro record v _ ⟨hs, hal⟩
  refine Act.Sat.bind (R := fun ended v => MEnds (Along.Finished P) (Halted P) ended v)
    (Prog.Sat.bind (hal.body_sat journal hs) fun ended v hv hend => ⟨hv, hend⟩) ?_
  rintro ⟨ended, l⟩ v _ hend
  have hends : Ends (fun o w => Along.Finished P o l w) (fun e w => Halted P e l w) ended v := by
    cases ended with
    | ok o => exact hend
    | error e => exact hend
  refine Act.Sat.bind (Act.Sat.attempt (handle_errand_sat journal hends)) ?_
  intro answer v _ hanswer
  have hhidden : ∀ {v : World}, Interrupted v.trace ∧ Resolved P answer v →
      Interrupted v.trace ∧ ∃ answer, Resolved P answer v := fun h => ⟨h.1, answer, h.2⟩
  refine Act.Sat.bind ((closeIf_errand_sat _ .gba hanswer).mono (fun _ hv => hv) (fun _ _ _ hv => hv)
    fun _ _ _ hv => Or.inr (Or.inr (hhidden hv))) ?_
  intro _ v _ hanswer
  refine Act.Sat.bind ((closeIf_errand_sat _ .switch hanswer).mono (fun _ hv => hv) (fun _ _ _ hv => hv)
    fun _ _ _ hv => Or.inr (Or.inr (hhidden hv))) ?_
  intro _ v _ hanswer
  refine Act.Sat.ofExcept trivial ?_
  cases answer with
  | ok outcome => exact hanswer
  | error e => exact Or.inr (Or.inl hanswer)

/-- The answer of `execute` is the errand's, unless a close or the file system hides it. -/
theorem execute_errand_sat {d : Disk} (hj : d.journal = none) (hmail : P.holdsMail = false) :
    Act.Sat Step (fun _ => True) (execute journal P) ⟨d, []⟩ (Succeeded P) (Raised P) := by
  refine (execute_resolved_sat journal hj hmail).mono (fun _ hv => hv) (fun _ _ _ hv => hv) ?_
  rintro e v _ (hio | hresolved | ⟨hclose, -⟩)
  · exact Or.inl hio
  · rcases hresolved with hio | hstopped
    · exact Or.inl hio
    · exact Or.inr (Or.inr hstopped)
  · exact Or.inr (Or.inl hclose)

end TradeCoordinator

end TradeBroker
