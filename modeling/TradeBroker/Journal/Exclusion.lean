/-
# TradeBroker.Journal.Exclusion — two transactions on one journal.

Two processes run `execute` on the same journal path, and there is no journal yet.  What keeps them apart
are two existence checks, in `require_new_transaction` and in `create`; the write that follows is an
unconditional `os.replace`.  Both can pass both checks before either of them writes, and then both trade.

A process that trades has written the journal before, without having read one.  So the gap is the only
one: as long as each such first write finds the journal still absent, at most one process comes to a
`trade_once` call.

The footprint of a process is a ghost of three bits, and it is enough.  A process that trades has
`created`, by its own program and nothing else (`execute_creates_first`).  Two processes that have both
created are excluded by the condition on the first write, since the file of the first one is never removed
(`Step.journal_stays`).

Which of the two comes first does not matter, nor how far it gets: the second one, if its first write
would find a journal, is not allowed that step, and if it looks before writing it is turned away
(`latecomer`).
-/
import TradeBroker.Lib.Interleave
import TradeBroker.Broker.Script

namespace TradeBroker

open Lib

-- Programs are compared by running them: keep the bytes of a record out of that.
attribute [local irreducible] Pokemon100.heldItem

/-! ## §1 — what a process leaves behind. -/

/-- What a process has done itself: it has read or written the journal, its first write came before any read,
it has called `trade_once`. -/
structure Footprint where
  touched : Bool := false
  created : Bool := false
  traded : Bool := false

def Op.isTrade : Op → Bool
  | .switchTrade _ => true
  | .gbaTrade _ => true
  | _ => false

/-- The footprint after an operation: reading and replacing count when they succeed, a trade when it was asked
for. -/
def Footprint.note (g : Footprint) : (op : Op) → Ret op → Footprint
  | .readText, .ok _ => { g with touched := true }
  | .replace (.journal _), .ok () => { g with touched := true, created := g.created || !g.touched }
  | .switchTrade _, _ => { g with traded := true }
  | .gbaTrade _, _ => { g with traded := true }
  | _, _ => g

/-- What a process guarantees: it trades only after it has created the journal, by a write that came before
any read. -/
def CreatesFirst (g : Footprint) (op : Op) (_ : Ret op) : Prop := op.isTrade = true → g.created = true

/-- The world may answer anything, so the guarantee does not depend on what the other process does. -/
def Unlimited (_ : Footprint) (op : Op) (_ : Ret op) : Prop := True

/-- A process alone. -/
def Trail : Prog.Sem Op Ret (Footprint × Prop) := localSem Footprint.note Unlimited CreatesFirst

/-- The last operation met its obligation. -/
def Sound (y : Footprint × Prop) : Prop := y.2

theorem Footprint.note_created {g : Footprint} (hg : g.created = true) (op : Op) (r : Ret op) :
    (g.note op r).created = true := by
  unfold note
  split
  · exact hg
  · show (g.created || !g.touched) = true
    rw [hg]
    rfl
  · exact hg
  · exact hg
  · exact hg

/-- An operation that leaves no mark is no trade and has nothing to do with the journal file. -/
def Op.marks (op : Op) : Bool := op.onJournal || op.isTrade

theorem Op.marks_of_isTrade {op : Op} (h : op.isTrade = true) : op.marks = true := by
  unfold marks
  rw [h]
  exact Bool.or_true _

theorem Footprint.note_of_not_marks (g : Footprint) {op : Op} (h : ¬ op.marks = true) (r : Ret op) :
    g.note op r = g := by
  unfold note
  split
  all_goals first | rfl | exact absurd rfl h

/-! ## §2 — three kinds of programs. -/

section Programs

variable {α β : Type} {g : Footprint} {ok : Prop}

/-- Once the journal is created, a program may do anything. -/
theorem created_sat (x : Broker α) (hg : g.created = true) (hok : ok) :
    Act.Sat Trail Sound x (g, ok) (fun _ y => y.1.created = true) (fun _ _ => True) := by
  refine ((Act.avoids_none x).sat (w := (g, ok)) (J := fun y => Sound y ∧ y.1.created = true) ?_
    (fun _ hy => hy.1) ⟨hok, hg⟩).mono (fun _ hy => hy) (fun _ _ _ hy => hy.2) (fun _ _ _ _ => trivial)
  rintro y op r y' - ⟨-, hy⟩ ⟨-, rfl⟩
  exact ⟨fun _ => hy, Footprint.note_created hy op r⟩

/-- A program without trades meets its obligations, since only trades have one. -/
theorem quiet_sat {x : Broker α} (h : x.Avoids fun op => op.isTrade = true) (hok : ok) :
    Act.Sat Trail Sound x (g, ok) (fun _ _ => True) (fun _ _ => True) := by
  refine (h.sat (w := (g, ok)) (J := Sound) ?_ (fun _ hy => hy) hok).mono (fun _ hy => hy)
    (fun _ _ _ _ => trivial) (fun _ _ _ _ => trivial)
  rintro y op r y' hop - ⟨-, rfl⟩
  exact fun htrade => absurd htrade hop

/-- A program whose operations leave no mark leaves the footprint as it is. -/
theorem still_sat {x : Broker α} (h : x.Avoids fun op => op.marks = true) (hok : ok) :
    Act.Sat Trail Sound x (g, ok) (fun _ y => y.1 = g) (fun _ y => y.1 = g) := by
  refine (h.sat (w := (g, ok)) (J := fun y => Sound y ∧ y.1 = g) ?_ (fun _ hy => hy.1)
    ⟨hok, rfl⟩).mono (fun _ hy => hy) (fun _ _ _ hy => hy.2) (fun _ _ _ hy => hy.2)
  rintro y op r y' hop ⟨-, hy⟩ ⟨-, rfl⟩
  refine ⟨?_, (Footprint.note_of_not_marks y.1 hop r).trans hy⟩
  intro htrade
  exact absurd (Op.marks_of_isTrade htrade) hop

/-- A program without marks, then one that starts from the same footprint. -/
theorem still_andThen {x : Broker α} {f : α → Broker β} (hx : x.Avoids fun op => op.marks = true)
    (hok : ok) {Q : β → Footprint × Prop → Prop}
    (hf : ∀ a ok', ok' → Act.Sat Trail Sound (f a) (g, ok') Q (fun _ _ => True)) :
    Act.Sat Trail Sound (x >>= f) (g, ok) Q (fun _ _ => True) := by
  refine Act.Sat.bind ((still_sat hx hok).mono (fun _ hy => hy) (fun _ _ _ hy => hy)
    (fun _ _ _ _ => trivial)) ?_
  intro a y hy hg
  obtain ⟨g', ok'⟩ := y
  have hg : g' = g := hg
  subst hg
  exact hf a ok' hy

end Programs

/-! ## §3 — from the first check to the first write. -/

namespace JournalStore

variable (self : JournalStore) {g : Footprint} {ok : Prop}

/-- A process that has neither read nor written the journal creates it, or `_atomic_bytes` raises. -/
theorem atomicBytes_creates (text : JournalText) (hg : g.touched = false) (hok : ok) :
    Act.Sat Trail Sound (self.atomicBytes (.journal text)) (g, ok) (fun _ y => y.1.created = true)
      (fun _ _ => True) := by
  have hfile : ∀ c t, ¬ Op.marks (.file c t) = true := by
    intro c t h
    cases h
  unfold atomicBytes
  refine still_andThen (.perform _ (hfile _ _)) hok fun _ ok1 hok1 => ?_
  refine still_andThen (.attempt (.perform _ (hfile _ _))) hok1 fun created ok2 hok2 => ?_
  cases created with
  | error e => exact Act.Sat.throw hok2 trivial
  | ok u =>
      have hstage : Act.Sat Trail Sound (stageAndReplace (.journal text)) (g, ok2)
          (fun _ y => y.1.created = true) (fun _ _ => True) := by
        unfold stageAndReplace
        refine still_andThen (.perform _ (hfile _ _)) hok2 fun _ ok3 hok3 => ?_
        refine still_andThen (.perform _ (hfile _ _)) hok3 fun _ ok4 hok4 => ?_
        refine ⟨hok4, ?_⟩
        rintro r y ⟨-, rfl⟩
        have hobl : CreatesFirst g (.replace (.journal text)) r := fun h => by cases h
        cases r with
        | error e => exact ⟨hobl, trivial⟩
        | ok u =>
            refine ⟨hobl, ?_⟩
            show (g.created || !g.touched) = true
            rw [hg]
            exact Bool.or_true _
      refine Act.Sat.bind (Act.Sat.attempt hstage) ?_
      intro replaced y hy hreplaced
      cases replaced with
      | error e =>
          -- The `finally` clause removes the temporary file and raises.
          unfold unlinkAndRaise
          refine still_andThen (.attempt (.perform _ (hfile _ _))) hy fun unlinked ok3 hok3 => ?_
          cases unlinked with
          | ok u => exact Act.Sat.throw hok3 trivial
          | error e' =>
              show Act.Sat Trail Sound (if e'.type = .fileNotFoundError then _ else _) _ _ _
              split
              · exact Act.Sat.throw hok3 trivial
              · exact Act.Sat.throw hok3 trivial
      | ok u => exact created_sat _ hreplaced hy

/-- `create` returns only after it has created the journal; a raise may have left one or not. -/
theorem create_creates (P : Pokemon100) (hg : g.touched = false) (hok : ok) :
    Act.Sat Trail Sound (self.create P) (g, ok) (fun _ y => y.1.created = true) (fun _ _ => True) := by
  unfold create
  refine still_andThen (.perform _ (by decide)) hok fun present ok1 hok1 => ?_
  cases present with
  | true =>
      refine Act.Sat.bind (quiet_sat (self.load_avoids Bool.false_ne_true) hok1) ?_
      intro old y hy _
      exact Act.Sat.throw hy trivial
  | false =>
      refine still_andThen (.perform _ (by decide)) hok1 fun now ok2 hok2 => ?_
      refine still_andThen (.perform _ (by decide)) hok2 fun txid ok3 hok3 => ?_
      refine still_andThen (self.saveArtifact_avoids (fun _ _ => Bool.false_ne_true)
        (fun _ _ => Bool.false_ne_true) _ _ _) hok3 fun _ ok4 hok4 => ?_
      have hwrite : Act.Sat Trail Sound (self.write (JournalRecord.fresh txid.str now P).raw) (g, ok4)
          (fun _ y => y.1.created = true) (fun _ _ => True) := by
        unfold write
        split
        · exact atomicBytes_creates self _ hg hok4
        · exact Act.Sat.throw hok4 trivial
      refine Act.Sat.bind hwrite ?_
      intro _ y hy hcreated
      exact Act.Sat.pure hy hcreated

/-- `require_new_transaction` returns only when it has not touched the journal. -/
theorem requireNewTransaction_still (hok : ok) :
    Act.Sat Trail Sound self.requireNewTransaction (g, ok) (fun _ y => y.1 = g) (fun _ _ => True) := by
  unfold requireNewTransaction
  refine still_andThen (.perform _ (by decide)) hok fun present ok1 hok1 => ?_
  cases present with
  | false => exact Act.Sat.pure hok1 rfl
  | true =>
      refine Act.Sat.bind (quiet_sat (self.load_avoids Bool.false_ne_true) hok1) ?_
      intro raw y hy _
      refine Act.Sat.bind (quiet_sat (self.markRestart_avoids (fun _ _ => Bool.false_ne_true)
        (fun _ => Bool.false_ne_true) Bool.false_ne_true raw) hy) ?_
      intro _ y hy _
      refine Act.Sat.bind (quiet_sat (self.load_avoids Bool.false_ne_true) hy) ?_
      intro again y hy _
      exact Act.Sat.throw hy trivial

end JournalStore

/-- **`execute` trades only after it has created the journal**, whatever the other process does. -/
theorem TradeCoordinator.execute_creates_first (journal : JournalStore) (P : Pokemon100) :
    Guarantees Footprint.note Unlimited CreatesFirst (execute journal P).run {} := by
  have hexecute : Act.Sat Trail Sound (execute journal P) ({}, True)
      (fun _ y => y.1.created = true) (fun _ _ => True) := by
    unfold execute
    refine still_andThen (.ofExcept _) trivial fun _ ok1 hok1 => ?_
    refine Act.Sat.bind (journal.requireNewTransaction_still hok1) ?_
    intro _ y hy hg
    obtain ⟨g, ok2⟩ := y
    have hg : g = {} := hg
    subst hg
    refine Act.Sat.bind (journal.create_creates P rfl hy) ?_
    intro record y hy hcreated
    exact created_sat _ hcreated hy
  exact Guarantees.of_sat hexecute

/-! ## §4 — both processes. -/

/-- Two processes in `execute` on the same journal path, nothing done yet. -/
def rivals (journal : JournalStore) (P Q : Pokemon100) (d : Disk) :
    Duo Op Ret Footprint World (Except Exc TransactionOutcome) (Except Exc TransactionOutcome) :=
  ⟨(TradeCoordinator.execute journal P).run, (TradeCoordinator.execute journal Q).run, {}, {}, ⟨d, []⟩⟩

/-- The process has made a `trade_once` call, or its next operation is one. -/
def ReachedTrade {α : Type} (p : Prog Op Ret α) (g : Footprint) : Prop :=
  g.traded = true ∨ ∃ op k, p = .call op k ∧ op.isTrade = true

/-- The condition on the first write of a process, made without having read a journal: there is still none on
disk.  Nothing in the source checks it at that moment. -/
def stillAbsent (w : World) (g : Footprint) : (op : Op) → Ret op → Bool
  | .replace (.journal _), .ok () => g.touched || w.disk.journal.isNone
  | _, _ => true

/-- A process that has created the journal finds one on disk, and it trades only then; its own file or a later
one, the disk does not tell. -/
structure Owns (w : World) (g : Footprint) : Prop where
  durable : g.created = true → w.disk.journal.isSome = true
  first : g.traded = true → g.created = true

/-- The invariant of the two processes: each owns what it has created, and they have not both created. -/
def Apart (w : World) (g h : Footprint) : Prop :=
  Owns w g ∧ Owns w h ∧ ¬ (g.created = true ∧ h.created = true)

/-- No operation removes the journal. -/
theorem Step.journal_stays {w w' : World} {op : Op} {r : Ret op} (h : Step w op r w')
    (hj : w.disk.journal.isSome = true) : w'.disk.journal.isSome = true := by
  rcases h.disk with ⟨hdisk, _⟩ | ⟨target, _, rfl⟩
  · rw [hdisk]
    exact hj
  · cases target with
    | journal text => rfl
    | artifact path bytes => exact hj

/-- An operation after which the process has created the journal, and had not before, has found no
journal and has left one. -/
theorem Step.created {w w' : World} {g : Footprint} {op : Op} {r : Ret op} (h : Step w op r w')
    (hc : stillAbsent w g op r = true) :
    (g.note op r).created = g.created ∨
      (w.disk.journal.isSome = false ∧ w'.disk.journal.isSome = true) := by
  cases op with
  | replace target =>
      cases target with
      | artifact path bytes => exact Or.inl rfl
      | journal text =>
          rcases h with ⟨rfl, rfl⟩ | ⟨e, _, rfl, _⟩
          · cases ht : g.touched with
            | true =>
                refine Or.inl ?_
                show (g.created || !g.touched) = g.created
                rw [ht]
                exact Bool.or_false _
            | false =>
                have habsent : (g.touched || w.disk.journal.isNone) = true := hc
                rw [ht, Bool.false_or, Option.isNone_iff_eq_none] at habsent
                refine Or.inr ⟨?_, rfl⟩
                rw [habsent]
                rfl
          · exact Or.inl rfl
  | readText =>
      cases r with
      | ok text => exact Or.inl rfl
      | error e => exact Or.inl rfl
  | _ => exact Or.inl rfl

theorem Footprint.note_traded {g : Footprint} {op : Op} {r : Ret op}
    (h : (g.note op r).traded = true) : g.traded = true ∨ op.isTrade = true := by
  cases op with
  | switchTrade offered => exact Or.inr rfl
  | gbaTrade offered => exact Or.inr rfl
  | replace target =>
      cases target with
      | artifact path bytes => exact Or.inl h
      | journal text =>
          cases r with
          | ok u => exact Or.inl h
          | error e => exact Or.inl h
  | readText =>
      cases r with
      | ok text => exact Or.inl h
      | error e => exact Or.inl h
  | _ => exact Or.inl h

theorem apart_start (d : Disk) : Apart ⟨d, []⟩ {} {} := by
  have hnew : Owns ⟨d, []⟩ {} := by
    constructor
    · intro h
      cases h
    · intro h
      cases h
  exact ⟨hnew, hnew, fun h => by cases h.1⟩

/-- **One step keeps the processes apart**: only a first write can bring them together, and it finds no
journal. -/
theorem Apart.step {w w' : World} {g h : Footprint} {op : Op} {r : Ret op} (hw : Apart w g h)
    (hc : stillAbsent w g op r = true) (hs : Step w op r w') (hfirst : CreatesFirst g op r) :
    Apart w' (g.note op r) h := by
  obtain ⟨hg, hh, hone⟩ := hw
  have hother : Owns w' h := ⟨fun hcreated => hs.journal_stays (hh.durable hcreated), hh.first⟩
  have htraded : (g.note op r).traded = true → (g.note op r).created = true := by
    intro ht
    apply Footprint.note_created
    rcases Footprint.note_traded ht with ht | htrade
    · exact hg.first ht
    · exact hfirst htrade
  rcases hs.created hc with hsame | ⟨hnone, hsome⟩
  · refine ⟨⟨?_, htraded⟩, hother, ?_⟩
    · rw [hsame]
      exact fun hcreated => hs.journal_stays (hg.durable hcreated)
    · rw [hsame]
      exact hone
  · -- The journal was absent, so the other process has not created it.
    refine ⟨⟨fun _ => hsome, htraded⟩, hother, ?_⟩
    rintro ⟨-, hcreated⟩
    have hthere := hh.durable hcreated
    rw [hnone] at hthere
    cases hthere

/-- Who comes to a trade has created the journal. -/
theorem ReachedTrade.created {α : Type} {p : Prog Op Ret α} {w : World} {g : Footprint}
    (h : ReachedTrade p g) (hw : Owns w g)
    (hp : Guarantees Footprint.note Unlimited CreatesFirst p g) : g.created = true := by
  rcases h with ht | ⟨op, k, rfl, htrade⟩
  · exact hw.first ht
  · cases op with
    | switchTrade offered =>
        exact (hp.step (r := (.error ⟨.endpointError, ""⟩ : Except Exc TradeResult)) trivial).1 rfl
    | gbaTrade offered =>
        exact (hp.step (r := (.error ⟨.endpointError, ""⟩ : Except Exc GbaTradeResult)) trivial).1 rfl
    | _ => cases htrade

/-- **When there is one active transaction.**  In every interleaving of two `execute` calls on one
journal path, as long as each first write finds the journal still absent, at most one of the two
processes comes to a `trade_once` call. -/
theorem one_trader {journal : JournalStore} {P Q : Pokemon100} {d : Disk}
    {σ : Duo Op Ret Footprint World (Except Exc TransactionOutcome) (Except Exc TransactionOutcome)}
    (hrun : Relation.ReflTransGen
      (Duo.Step Step Footprint.note fun w g op r => stillAbsent w g op r = true)
      (rivals journal P Q d) σ) :
    ¬ (ReachedTrade σ.left σ.viewL ∧ ReachedTrade σ.right σ.viewR) := by
  have hswap : ∀ w g h, Apart w g h → Apart w h g := by
    rintro w g h ⟨hg, hh, hone⟩
    exact ⟨hh, hg, fun hboth => hone hboth.symm⟩
  have hstep : ∀ w g h op r w', Apart w g h → stillAbsent w g op r = true → Step w op r w' →
      Unlimited g op r ∧ (CreatesFirst g op r → Apart w' (g.note op r) h) := by
    intro w g h op r w' hw hc hs
    exact ⟨trivial, fun hfirst => hw.step hc hs hfirst⟩
  have hinv := Duo.invariant Unlimited CreatesFirst Apart hswap hstep hrun (apart_start d)
    (TradeCoordinator.execute_creates_first journal P)
    (TradeCoordinator.execute_creates_first journal Q)
  obtain ⟨⟨hl, hr, hone⟩, hleft, hright⟩ := hinv
  rintro ⟨htradeL, htradeR⟩
  apply hone
  exact ⟨htradeL.created hl hleft, htradeR.created hr hright⟩

def secondTxid : Uuid := ⟨[0, 0, 0, 0, 0, 0, 0x40, 0, 0x80, 0, 0, 0, 0, 0, 0, 2], by decide⟩

/-- The process has come to its end. -/
def ended {α : Type} : Prog Op Ret α → Bool
  | .done _ => true
  | .call _ _ => false

/-- A world that plays the honest exchange and draws a new transaction identifier once something has
happened. -/
def rivalAnswer (w : World) : (op : Op) → Ret op × World
  | .uuid4 => (if w.trace.isEmpty then Script.txid else secondTxid, w)
  | op => (Script.exchange (sampleMon 2) (sampleMon 1) (sampleMon 0)).answer w op

theorem rivalAnswer_step (w : World) (op : Op) :
    Step w op (rivalAnswer w op).1 (rivalAnswer w op).2 := by
  cases op with
  | uuid4 =>
      refine ⟨?_, rfl⟩
      show Uuid.isV4 (if w.trace.isEmpty then Script.txid else secondTxid) = true
      split
      · decide
      · decide
  | _ => exact Script.answer_step (Script.exchange (sampleMon 2) (sampleMon 1) (sampleMon 0)) w _

/-- The first process has made its first trade when the second one starts and runs to its end. -/
def latecomer : Duo Op Ret Footprint World (Except Exc TransactionOutcome)
    (Except Exc TransactionOutcome) :=
  (rivals sampleStore (sampleMon 0) (sampleMon 3) emptyDisk).schedule Footprint.note rivalAnswer
    (List.replicate 35 .left ++ List.replicate 12 .right)

/-- `require_new_transaction` turns the latecomer away. -/
theorem one_trader_latecomer :
    latecomer.viewL.traded = true ∧ ended latecomer.right = true ∧
      ¬ (ReachedTrade latecomer.left latecomer.viewL ∧
        ReachedTrade latecomer.right latecomer.viewR) := by
  have hrun : Relation.ReflTransGen
      (Duo.Step Step Footprint.note fun w g op r => stillAbsent w g op r = true)
      (rivals sampleStore (sampleMon 0) (sampleMon 3) emptyDisk) latecomer := by
    refine Duo.schedule_admitted rivalAnswer_step (fun w g op r h => h) ?_
    decide +kernel
  have htraded : latecomer.viewL.traded = true ∧ ended latecomer.right = true := by decide +kernel
  have hone := one_trader hrun
  exact ⟨htraded.1, htraded.2, hone⟩

/-- Both processes make both existence checks before either of them writes. -/
def bothAtOnce : Duo Op Ret Footprint World (Except Exc TransactionOutcome)
    (Except Exc TransactionOutcome) :=
  (rivals sampleStore (sampleMon 0) (sampleMon 3) emptyDisk).schedule Footprint.note rivalAnswer
    (List.replicate 2 .left ++ List.replicate 2 .right ++ List.replicate 33 .left ++
      List.replicate 33 .right)

/-- **Two active transactions.**  There is no journal, both processes pass both checks, the second
`os.replace` puts its record over the first one, and both trade. -/
theorem two_traders :
    emptyDisk.journal = none ∧
      Relation.ReflTransGen (Duo.Step Step Footprint.note fun _ _ _ _ => True)
        (rivals sampleStore (sampleMon 0) (sampleMon 3) emptyDisk) bothAtOnce ∧
      bothAtOnce.viewL.traded = true ∧ bothAtOnce.viewR.traded = true ∧
      ReachedTrade bothAtOnce.left bothAtOnce.viewL ∧ ReachedTrade bothAtOnce.right bothAtOnce.viewR := by
  have htrades : bothAtOnce.viewL.traded = true ∧ bothAtOnce.viewR.traded = true := by
    decide +kernel
  exact ⟨rfl, Duo.schedule_run rivalAnswer_step _ _, htrades.1, htrades.2, Or.inl htrades.1,
    Or.inl htrades.2⟩

end TradeBroker
