/-
# TradeBroker.Broker.Restart — invocations one after the other on the same journal.

A process that finds a journal never gets past `require_new_transaction`: whatever the file holds,
it performs file-system calls only, and the one change it can make is to close a loadable,
unfinished journal with `RECOVERY_REQUIRED` (`execute_blocked_sat`).  Together with the walk of a
fresh transaction this bounds a whole history of invocations, each of which may have been stopped
anywhere: one of them at most reaches an endpoint, and the trades of the history are those of one
transaction, in order, each made under the journal state that announces it.

The history is any list of invocations, each with its own placeholder, its own endpoints and its own point
where it was stopped.  Once a journal is there, it is there for good: no operation removes it, and the
guard refuses everything behind it (`Sessions.idle_of_journal`).  So the one invocation that is not idle
is the one that found no journal and wrote it, and its trades are those of `Broker.Walk`.

`InOrder` says it for the reader: a prefix of three calls, each offering what the call before received,
each made while the journal on disk was in the state that announces it.
-/
import TradeBroker.Broker.Script

namespace TradeBroker

open Lib

-- Programs are compared by running them: keep the bytes of a record out of that.
attribute [local irreducible] Pokemon100.heldItem

/-! ## §1 — the guard, when there is a journal. -/

/-- The record that `require_new_transaction` writes at time `now`, whatever else the loaded record holds. -/
def RawRecord.restarted (r : RawRecord) (now : PyStr) : RawRecord :=
  r.recover now "incomplete transaction detected on process start"
    ("restart detected while journal was " ++ r.state.value)

/-- The crash invariant of an invocation that found the journal `text` on the disk `d`: it is as it was, or
closed, and no endpoint was called. -/
structure Kept (journal : JournalStore) (d : Disk) (text : JournalText) (w : World) : Prop where
  artifacts : w.disk.artifacts = d.artifacts
  journal : w.disk.journal = some text ∨
    ∃ raw now, text.load journal = .ok raw ∧ raw.state.terminal = false ∧
      w.disk.journal = some (.json (.obj (raw.restarted now).asJsonDict))
  local_ : ∀ e ∈ w.trace, e.isFile = true

theorem Kept.faults {journal : JournalStore} {d : Disk} {text : JournalText} {w : World}
    (h : Kept journal d text w) (n : Nat) : Kept journal d text (w.faults n) where
  artifacts := h.artifacts
  journal := h.journal
  local_ := by
    intro e he
    rcases List.mem_append.mp he with he | he
    · exact h.local_ e he
    · rw [List.eq_of_mem_replicate he]
      rfl

namespace JournalStore

variable {I : World → Prop} {w : World}

/-- `load` reads the durable text and changes nothing; it raises what the text calls for, or a
read fails. -/
theorem load_sat (self : JournalStore) (h0 : I w) (h1 : I (w.faults 1)) :
    Act.Sat Step I self.load w
      (fun raw v => v = w ∧ ∃ text, w.disk.journal = some text ∧ text.load self = .ok raw)
      (fun e v => (e.Ordinary ∧ v = w.faults 1) ∨
        (v = w ∧ ∃ text, w.disk.journal = some text ∧ text.load self = .error e)) := by
  unfold load
  refine Act.Sat.bind (R := fun r v => Ends (fun text v => w.disk.journal = some text ∧ v = w)
    (fun e v => e.isOSError = true ∧ v = w.faults 1) r v) ?_ ?_
  · refine ⟨h0, ?_⟩
    intro r v hv
    rcases hv with ⟨text, ht, rfl, rfl⟩ | ⟨e, he, rfl, rfl⟩
    · exact ⟨h0, ht, rfl⟩
    · exact ⟨h1, he, rfl⟩
  · intro r v hv hr
    cases r with
    | error e =>
        obtain ⟨he, rfl⟩ : e.isOSError = true ∧ v = w.faults 1 := hr
        show Act.Sat Step I (if e.isOSError then _ else _) _ _ _
        rw [if_pos he]
        exact Act.Sat.throw hv (Or.inl ⟨⟨rfl, rfl⟩, rfl⟩)
    | ok text =>
        obtain ⟨ht, rfl⟩ := hr
        refine Act.Sat.ofExcept hv ?_
        cases hl : text.load self with
        | error e => exact Or.inr ⟨rfl, text, ht, hl⟩
        | ok raw => exact ⟨rfl, text, ht, hl⟩

/-- **The restart guard with a journal present** never returns. -/
theorem requireNewTransaction_blocked_sat (self : JournalStore) {d : Disk} {text : JournalText}
    (hd : d.journal = some text) :
    Act.Sat Step (Kept self d text) self.requireNewTransaction ⟨d, []⟩ (fun _ _ => False)
      (fun _ _ => True) := by
  have hkept : Kept self d text ⟨d, []⟩ := ⟨rfl, Or.inl hd, by simp⟩
  unfold requireNewTransaction
  refine Act.Sat.bind ((pathExists_sat hkept (hkept.faults 1)).mono (fun _ hv => hv)
    (fun _ _ _ hv => hv) (fun _ _ _ _ => trivial)) ?_
  intro present v _ hp
  obtain ⟨rfl, rfl⟩ := hp
  rw [hd]
  refine Act.Sat.bind ((load_sat self hkept (hkept.faults 1)).mono (fun _ hv => hv)
    (fun _ _ _ hv => hv) (fun _ _ _ _ => trivial)) ?_
  intro raw v hv hload
  obtain ⟨rfl, text', htext', hload⟩ := hload
  obtain rfl : text = text' := Option.some.inj (hd.symm.trans htext')
  -- A terminal journal is left as it is; any other one is closed for recovery.
  have hmark : Act.Sat Step (Kept self d text) (self.markRestart raw) ⟨d, []⟩ (fun _ _ => True)
      (fun _ _ => True) := by
    unfold markRestart
    by_cases hterm : raw.state.terminal = true
    · rw [if_pos hterm]
      exact Act.Sat.pure hkept trivial
    · rw [if_neg hterm]
      refine Act.Sat.bind (clock_sat hkept) ?_
      intro now v _ hnow
      obtain ⟨_, rfl⟩ := hnow
      have hclosed : Kept self d text
          (World.install ⟨d, []⟩ (.journal (.json (.obj (raw.restarted now).asJsonDict)))) := by
        refine ⟨rfl, Or.inr ⟨raw, now, hload, by simpa using hterm, rfl⟩, ?_⟩
        simp [Event.isFile]
      exact (write_sat self hkept.faults hclosed.faults).mono (fun _ hv => hv)
        (fun _ _ _ _ => trivial) (fun _ _ _ _ => trivial)
  refine Act.Sat.bind hmark ?_
  intro _ v hv _
  refine Act.Sat.bind ((load_sat self hv (hv.faults 1)).mono (fun _ hv => hv)
    (fun _ _ _ _ => trivial) (fun _ _ _ _ => trivial)) (R := fun _ _ => True) ?_
  intro again v hv _
  exact Act.Sat.throw hv trivial

end JournalStore

/-- **`execute`, from a disk with a journal**: it raises before it reaches an endpoint, whatever the file
holds. -/
theorem TradeCoordinator.execute_blocked_sat (journal : JournalStore) {d : Disk}
    {text : JournalText} (hd : d.journal = some text) (P : Pokemon100) :
    Act.Sat Step (Kept journal d text) (execute journal P) ⟨d, []⟩ (fun _ _ => False)
      (fun _ _ => True) := by
  have hkept : Kept journal d text ⟨d, []⟩ := ⟨rfl, Or.inl hd, by simp⟩
  unfold execute
  refine Act.Sat.bind (R := fun _ v => v = ⟨d, []⟩) (Act.Sat.ofExcept hkept ?_) ?_
  · cases P.refuseMail with
    | ok u => rfl
    | error e => trivial
  intro _ v _ hv
  subst hv
  refine Act.Sat.bind (JournalStore.requireNewTransaction_blocked_sat journal hd) ?_
  intro _ v _ hfalse
  exact hfalse.elim

/-! ## §2 — histories of invocations. -/

/-- One invocation: its placeholder, and what it did until it returned, raised or was stopped. -/
structure Invocation where
  placeholder : Pokemon100
  trace : List Event

/-- It performed no `connect`, `wait_for_trade_menu` or `trade_once`. -/
def Invocation.Idle (i : Invocation) : Prop := ∀ e ∈ i.trace, e.isEndpointCall = false

/-- Invocations on one journal path, each started on the disk the one before left, and each stopped where it
was stopped. -/
inductive Sessions (journal : JournalStore) : Disk → List Invocation → Disk → Prop
  | nil (d : Disk) : Sessions journal d [] d
  | cons {d d' : Disk} {P : Pokemon100} {q : Prog Op Ret (Except Exc TransactionOutcome)}
      {v : World} {rest : List Invocation} :
      Prog.Reach Step (TradeCoordinator.execute journal P).run ⟨d, []⟩ q v →
      Sessions journal v.disk rest d' → Sessions journal d (⟨P, v.trace⟩ :: rest) d'

theorem idle_of_isFile {P : Pokemon100} {tr : List Event} (h : ∀ e ∈ tr, e.isFile = true) :
    Invocation.Idle ⟨P, tr⟩ := by
  intro e he
  have := h e he
  cases e <;> first | rfl | simp [Event.isFile] at this

theorem trades_of_idle {tr : List Event} (h : ∀ e ∈ tr, e.isEndpointCall = false) :
    trades tr = [] := by
  unfold trades
  rw [List.filterMap_eq_nil_iff]
  intro e he
  have := h e he
  cases e <;> first | rfl | simp [Event.isEndpointCall] at this

/-- Once there is a journal there is one for good, and every invocation is idle. -/
theorem Sessions.idle_of_journal {journal : JournalStore} {d d' : Disk} {hist : List Invocation}
    (h : Sessions journal d hist d') (hd : d.journal.isSome = true) :
    ∀ i ∈ hist, i.Idle := by
  induction h with
  | nil d => simp
  | @cons d d' P q v rest hr _ ih =>
      obtain ⟨text, htext⟩ := Option.isSome_iff_exists.mp hd
      have hkept := (Act.Sat.reach (TradeCoordinator.execute_blocked_sat journal htext P) hr).inv
      have hv : v.disk.journal.isSome = true := by
        rcases hkept.journal with hj | ⟨_, _, _, _, hj⟩ <;> rw [hj] <;> rfl
      intro i hi
      rcases List.mem_cons.mp hi with rfl | hi
      · exact idle_of_isFile hkept.local_
      · exact ih hv i hi

/-! ## §3 — the trades of a history. -/

/-- The record that a trade brought, if it returned a result. -/
def Trade.received? (t : Trade) : Option Pokemon100 :=
  match t.outcome with
  | .raised _ => none
  | .switchResult r => some r.receivedMon
  | .gbaResult r => some r.receivedMon

/-- The call `console.trade_once(offered)`, made while the durable journal loads, is in state `s`
and has the hashes of the records in `known`. -/
def Trade.Is (journal : JournalStore) (t : Trade) (console : Console) (offered : Pokemon100)
    (s : JournalState) (known : List (String × Pokemon100)) : Prop :=
  t.console = console ∧ t.offered = offered ∧
    ∃ text raw, t.durable = some text ∧ text.load journal = .ok raw ∧ raw.state = s ∧
      ∀ lm ∈ known, raw.hash? lm.1 = some lm.2.sha256

/-- The trades are a prefix of `switch.trade_once(P)`, `gba.trade_once(B)`, `switch.trade_once(A)`, each after
the first offering what the one before received, and each made under the journal state that announces it. -/
def InOrder (journal : JournalStore) (P : Pokemon100) : List Trade → Prop
  | [] => True
  | [t1] => t1.Is journal .switch P .switchStage1Started []
  | [t1, t2] => ∃ b, t1.Is journal .switch P .switchStage1Started [] ∧ t1.received? = some b ∧
      t2.Is journal .gba b .gbaStageStarted [("B", b)]
  | [t1, t2, t3] => ∃ b a, t1.Is journal .switch P .switchStage1Started [] ∧
      t1.received? = some b ∧ t2.Is journal .gba b .gbaStageStarted [("B", b)] ∧
      t2.received? = some a ∧ t3.Is journal .switch a .switchStage2Started [("A", a), ("B", b)]
  | _ => False

theorem load_document (journal : JournalStore) {P : Pokemon100} {g : Progress} {r : JournalRecord}
    (h : Booked P g r) : JournalText.load journal (.json r.document) = .ok r.raw :=
  RawRecord.fromJsonDict_asJsonDict h.loadable

/-- A requested trade was made under the journal state of its request. -/
theorem Requested.is (journal : JournalStore) {P : Pokemon100} {g : Progress} {t : Trade}
    {q : Request} (h : Requested P g t) (hq : g.request P = some q)
    {known : List (String × Pokemon100)}
    (hk : ∀ r, Booked P g r → ∀ lm ∈ known, r.raw.hash? lm.1 = some lm.2.sha256) :
    t.Is journal q.console q.offered q.state known := by
  obtain ⟨q', r, hq', hc, ho, hb, hs, hd⟩ := h
  obtain rfl : q = q' := Option.some.inj (hq.symm.trans hq')
  exact ⟨hc, ho, _, r.raw, hd, load_document journal hb, hs, hk r hb⟩

theorem Requested.is_first (journal : JournalStore) {P : Pokemon100} {t : Trade}
    (h : Requested P .start t) : t.Is journal .switch P .switchStage1Started [] :=
  h.is journal rfl (by simp)

theorem Requested.is_second (journal : JournalStore) {P b : Pokemon100} {t : Trade}
    (h : Requested P (.gotB b) t) : t.Is journal .gba b .gbaStageStarted [("B", b)] := by
  refine h.is journal rfl ?_
  intro r hr lm hlm
  obtain rfl : lm = ("B", b) := by simpa using hlm
  exact hr.hash_B

theorem Requested.is_third (journal : JournalStore) {P b a : Pokemon100} {slot : Int} {t : Trade}
    (h : Requested P (.gotA b a slot) t) :
    t.Is journal .switch a .switchStage2Started [("A", a), ("B", b)] := by
  refine h.is journal rfl ?_
  intro r hr lm hlm
  have hlm : lm = ("A", a) ∨ lm = ("B", b) := by simpa using hlm
  rcases hlm with rfl | rfl
  · exact hr.hash_A
  · exact hr.hash_B

/-- The trades of a position are in order: the settled ones and the pending one. -/
theorem Position.inOrder (journal : JournalStore) {a0 : ArtifactPath → Option Bytes}
    {P : Pokemon100} {g ga : Progress} {pend : List Trade} {r : JournalRecord} {w : World}
    (h : Position a0 P g pend ga r w) : InOrder journal P (trades w.trace) := by
  obtain ⟨ts, hts, hacc⟩ := h.accounts
  rw [hts]
  have hpend : pend = [] ∨ ∃ t, pend = [t] ∧ Requested P g t := by
    rcases h.pending with hp | ⟨t, hp, hreq, _⟩
    · exact Or.inl hp
    · exact Or.inr ⟨t, hp, hreq⟩
  cases g with
  | start =>
      obtain rfl := hacc.of_start
      rcases hpend with rfl | ⟨t, rfl, hreq⟩
      · trivial
      · exact hreq.is_first journal
  | gotB b =>
      obtain ⟨t1, r1, rfl, hreq1, ho1, _, _, _, hr1⟩ := hacc.of_gotB
      rcases hpend with rfl | ⟨t, rfl, hreq⟩
      · exact hreq1.is_first journal
      · exact ⟨b, hreq1.is_first journal, by simp [Trade.received?, ho1, hr1],
          hreq.is_second journal⟩
  | gotA b a slot =>
      obtain ⟨_, t2, r2, rfl, hacc, hreq2, ho2, _, _, _, _, _, hr2, _⟩ := hacc.of_gotA
      obtain ⟨t1, r1, rfl, hreq1, ho1, _, _, _, hr1⟩ := hacc.of_gotB
      have h1 : t1.received? = some b := by simp [Trade.received?, ho1, hr1]
      rcases hpend with rfl | ⟨t, rfl, hreq⟩
      · exact ⟨b, hreq1.is_first journal, h1, hreq2.is_second journal⟩
      · exact ⟨b, a, hreq1.is_first journal, h1, hreq2.is_second journal,
          by simp [Trade.received?, ho2, hr2], hreq.is_third journal⟩
  | gotP b a slot returned =>
      obtain ⟨_, t3, _, rfl, hacc, hreq3, _⟩ := hacc.of_gotP
      obtain ⟨_, t2, r2, rfl, hacc, hreq2, ho2, _, _, _, _, _, hr2, _⟩ := hacc.of_gotA
      obtain ⟨t1, r1, rfl, hreq1, ho1, _, _, _, hr1⟩ := hacc.of_gotB
      rcases hpend with rfl | ⟨t, rfl, hreq⟩
      · exact ⟨b, a, hreq1.is_first journal, by simp [Trade.received?, ho1, hr1],
          hreq2.is_second journal, by simp [Trade.received?, ho2, hr2], hreq3.is_third journal⟩
      · obtain ⟨q, _, hq, _⟩ := hreq
        exact absurd hq (by simp [Progress.request])

/-- One invocation at most performs endpoint operations, and the trades of the whole history are
those of its transaction, in order. -/
def OneTransaction (journal : JournalStore) (hist : List Invocation) : Prop :=
  (∀ i ∈ hist, i.Idle) ∨
    ∃ before i after, hist = before ++ i :: after ∧ (∀ j ∈ before ++ after, j.Idle) ∧
      hist.flatMap (fun j => trades j.trace) = trades i.trace ∧
      InOrder journal i.placeholder (trades i.trace)

/-- **At most once, across restarts.**  Every history of invocations on one journal path, each
stopped anywhere, is one transaction. -/
theorem sessions_trade_at_most_once {journal : JournalStore} {d d' : Disk}
    {hist : List Invocation} (h : Sessions journal d hist d') : OneTransaction journal hist := by
  induction h with
  | nil d => exact Or.inl (by simp)
  | @cons d d' P q v rest hr hrest ih =>
      by_cases hd : d.journal.isSome = true
      · exact Or.inl (Sessions.idle_of_journal (.cons hr hrest) hd)
      have hd : d.journal = none := by simpa using hd
      have hinv := (Act.Sat.reach (TradeCoordinator.execute_sat journal d hd P) hr).inv
      rcases hinv with hblank | ⟨g, pend, ga, r, hpos, hj⟩
      · -- Nothing left the process, so the rest of the history decides.
        have hidle : Invocation.Idle ⟨P, v.trace⟩ := idle_of_isFile hblank.local_
        rcases ih with ih | ⟨before, i, after, rfl, hothers, htrades, horder⟩
        · refine Or.inl ?_
          intro i hi
          rcases List.mem_cons.mp hi with rfl | hi
          · exact hidle
          · exact ih i hi
        · refine Or.inr ⟨⟨P, v.trace⟩ :: before, i, after, rfl, ?_, ?_, horder⟩
          · intro j hj
            rcases List.mem_cons.mp hj with rfl | hj
            · exact hidle
            · exact hothers j hj
          · rw [List.flatMap_cons, trades_of_idle hidle, List.nil_append, htrades]
      · -- The journal is there from now on.
        have hsome : v.disk.journal.isSome = true := by
          rcases hj with hj | ⟨_, _, _, hj⟩ <;> rw [hj] <;> rfl
        have hidle := hrest.idle_of_journal hsome
        refine Or.inr ⟨[], ⟨P, v.trace⟩, rest, rfl, hidle, ?_, hpos.inOrder journal⟩
        rw [List.flatMap_cons, List.flatMap_eq_nil_iff.mpr, List.append_nil]
        intro j hj
        exact trades_of_idle (hidle j hj)

/-- A second transaction on the journal that `goodRun` left. -/
def secondRun : Except Exc TransactionOutcome × World :=
  (Script.exchange (sampleMon 2) (sampleMon 1) (sampleMon 3)).play sampleStore (sampleMon 3)
    goodRun.2.disk

theorem secondRun_finish :
    Prog.Finish Step (TradeCoordinator.execute sampleStore (sampleMon 3)).run
      ⟨goodRun.2.disk, []⟩ secondRun.1 secondRun.2 :=
  Script.play_finish _ sampleStore (sampleMon 3) goodRun.2.disk

theorem sessions_trade_at_most_once_twice :
    Sessions sampleStore emptyDisk
        [⟨sampleMon 0, goodRun.2.trace⟩, ⟨sampleMon 3, secondRun.2.trace⟩] secondRun.2.disk ∧
      (trades goodRun.2.trace).length = 3 ∧
      OneTransaction sampleStore
        [⟨sampleMon 0, goodRun.2.trace⟩, ⟨sampleMon 3, secondRun.2.trace⟩] := by
  have hruns : Sessions sampleStore emptyDisk
      [⟨sampleMon 0, goodRun.2.trace⟩, ⟨sampleMon 3, secondRun.2.trace⟩] secondRun.2.disk :=
    .cons goodRun_finish (.cons secondRun_finish (.nil _))
  obtain ⟨_, _, _, htrades⟩ := goodRun_trades
  exact ⟨hruns, by rw [htrades]; rfl, sessions_trade_at_most_once hruns⟩

end TradeBroker
