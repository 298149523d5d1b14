/-
# TradeBroker.Broker.Script — a world that follows a script, as an executable run.

`Step` is a relation: it says what the world MAY answer.  A `Script` fixes one answer for each
endpoint and hook call, on a file system that works, and `Script.play` computes the run.  Every
scripted run is a run of `Step` (`play_finish`), so what holds of all runs holds of it, and what it
computes is a run that exists.

A script is used for two things: to show that the hypotheses of a theorem can be met, and to exhibit a run
that breaks a rule.  Both need a run that is computed, so the answers are functions and the small cast of
records at the end is made of bytes that the kernel can hash.

`Event.tame` is the check on a trace that most results ask for, that no file-system call failed and that
every exception in it is an `Exception` with an encodable text; `tame_of_all` turns the check into the
fact.
-/
import TradeBroker.Broker.Walk

namespace TradeBroker

open Lib

/-- The answers of the endpoints and of the hook.  A `trade_once` of the Switch sees how many trades
were made before; the second component says whether the records really changed hands. -/
structure Script where
  connect : Console → Except Exc Unit := fun _ => .ok ()
  waitForTradeMenu : Except Exc Unit := .ok ()
  switchTrade : Nat → Pokemon100 → Except Exc TradeResult × Bool
  gbaTrade : Pokemon100 → Except Exc GbaTradeResult × Bool
  close : Console → Except Exc Unit := fun _ => .ok ()
  faultHook : Boundary → Except Exc Unit := fun _ => .ok ()

namespace Script

/-- The clock and the random source of a scripted run: the same time and the same identifier every time. -/
def now : PyStr := "2026-01-01T00:00:00+00:00"

def txid : Uuid := ⟨[0, 0, 0, 0, 0, 0, 0x40, 0, 0x80, 0, 0, 0, 0, 0, 0, 1], by decide⟩

def outcomeOf {α : Type} (f : α → TradeOutcome) : Except Exc α → TradeOutcome
  | .ok r => f r
  | .error e => .raised e

/-- One answer of the scripted world; the files work, and the trace is kept as `Step` has it. -/
def answer (s : Script) (w : World) : (op : Op) → Ret op × World
  | .pathExists => (.ok w.disk.journal.isSome, w)
  | .readText =>
      match w.disk.journal with
      | some text => (.ok text, w)
      | none => (.error ⟨.fileNotFoundError, "No such file or directory"⟩, w.log .ioError)
  | .file _ _ => (.ok (), w)
  | .replace target => (.ok (), w.install target)
  | .now => (now, w)
  | .uuid4 => (txid, w)
  | .connect console => (s.connect console, w.log (.connect console (s.connect console)))
  | .waitForTradeMenu => (s.waitForTradeMenu, w.log (.waitForTradeMenu s.waitForTradeMenu))
  | .switchTrade offered =>
      let r := s.switchTrade (trades w.trace).length offered
      (r.1, w.log (.trade ⟨.switch, offered, w.disk.journal, outcomeOf .switchResult r.1, r.2⟩))
  | .gbaTrade offered =>
      let r := s.gbaTrade offered
      (r.1, w.log (.trade ⟨.gba, offered, w.disk.journal, outcomeOf .gbaResult r.1, r.2⟩))
  | .close console => (s.close console, w.log (.close console (s.close console)))
  | .faultHook b _ => (s.faultHook b, w.log (.faultHook b (s.faultHook b)))

theorem answer_step (s : Script) (w : World) (op : Op) :
    Step w op (s.answer w op).1 (s.answer w op).2 := by
  cases op with
  | pathExists => exact Or.inl ⟨rfl, rfl⟩
  | readText =>
      simp only [answer]
      cases hj : w.disk.journal with
      | none => exact Or.inr ⟨_, rfl, rfl, rfl⟩
      | some text => exact Or.inl ⟨text, hj, rfl, rfl⟩
  | file c t => exact Or.inl ⟨rfl, rfl⟩
  | replace t => exact Or.inl ⟨rfl, rfl⟩
  | now => exact ⟨encodable_lit _, rfl⟩
  | uuid4 =>
      refine ⟨?_, rfl⟩
      show txid.isV4 = true
      decide
  | connect c => rfl
  | waitForTradeMenu => rfl
  | switchTrade offered =>
      refine ⟨(s.switchTrade (trades w.trace).length offered).2, ?_⟩
      simp only [answer, outcomeOf]
      cases (s.switchTrade (trades w.trace).length offered).1 <;> rfl
  | gbaTrade offered =>
      refine ⟨(s.gbaTrade offered).2, ?_⟩
      simp only [answer, outcomeOf]
      cases (s.gbaTrade offered).1 <;> rfl
  | close c => rfl
  | faultHook b r => rfl

/-- The scripted run of `execute(P)` on the disk `d`. -/
def play (s : Script) (journal : JournalStore) (P : Pokemon100) (d : Disk) :
    Except Exc TransactionOutcome × World :=
  Prog.run s.answer (TradeCoordinator.execute journal P).run ⟨d, []⟩

/-- **A scripted run is a run**, so what is proved about all runs is true of what it computes. -/
theorem play_finish (s : Script) (journal : JournalStore) (P : Pokemon100) (d : Disk) :
    Prog.Finish Step (TradeCoordinator.execute journal P).run ⟨d, []⟩ (s.play journal P d).1
      (s.play journal P d).2 :=
  Prog.run_finish s.answer_step _ _

/-- An honest exchange: the Switch has `b` and gives back `p`, the GBA has `a` in slot 0. -/
def exchange (b a p : Pokemon100) : Script where
  switchTrade := fun n offered => (.ok ⟨offered, if n = 0 then b else p, true⟩, true)
  gbaTrade := fun offered => (.ok ⟨⟨offered, a, true⟩, 0, true⟩, true)

end Script

/-! ## Checking a trace -/

/-- The event is one of a tame world: no file-system failure, and no exception that the journal could not
record. -/
def Event.tame (ev : Event) : Bool :=
  match ev with
  | .ioError => false
  | ev =>
      match ev.failure? with
      | some e => e.isException && e.encodable
      | none => true

theorem tame_of_all {tr : List Event} (h : tr.all Event.tame = true) : Tame tr := by
  rw [List.all_eq_true] at h
  refine ⟨?_, ?_⟩
  · intro hm
    exact absurd (h _ hm) (by simp [Event.tame])
  · intro ev hev e he
    have := h ev hev
    cases ev <;> simp_all [Event.tame, Event.failure?, Event.raised?]

/-! ## A small cast -/

/-- A record whose last byte is `n`; it holds no item, and different `n` make different records. -/
def sampleMon (n : UInt8) : Pokemon100 := ⟨List.replicate 99 0 ++ [n], by simp⟩

/-- The disk of a new installation, and where its journal will be. -/
def emptyDisk : Disk := ⟨none, fun _ => none⟩

def sampleStore : JournalStore := ⟨"journal.json", "."⟩

/-- The run in which everything goes well: `P`, `A` and `B` end in 0, 1 and 2. -/
def goodRun : Except Exc TransactionOutcome × World :=
  (Script.exchange (sampleMon 2) (sampleMon 1) (sampleMon 0)).play sampleStore (sampleMon 0) emptyDisk

theorem goodRun_finish :
    Prog.Finish Step (TradeCoordinator.execute sampleStore (sampleMon 0)).run ⟨emptyDisk, []⟩
      goodRun.1 goodRun.2 :=
  Script.play_finish _ sampleStore (sampleMon 0) emptyDisk

/-- A trade without the journal under which it was made. -/
def Trade.view (t : Trade) : Console × Pokemon100 × TradeOutcome × Bool :=
  (t.console, t.offered, t.outcome, t.swapped)

theorem trade_of_view {t : Trade} {c : Console} {o : Pokemon100} {out : TradeOutcome} {sw : Bool}
    (h : t.view = (c, o, out, sw)) : t = ⟨c, o, t.durable, out, sw⟩ := by
  obtain ⟨c', o', d, out', sw'⟩ := t
  simp only [Trade.view, Prod.mk.injEq] at h
  obtain ⟨rfl, rfl, rfl, rfl⟩ := h
  rfl

/-- What the good run computes: the outcome, a tame trace without a raise, and three trades. -/
theorem goodRun_eval :
    (goodRun.1 = .ok ⟨Script.txid.str, sampleMon 2, sampleMon 1, sampleMon 0⟩) ∧
      goodRun.2.trace.all Event.tame = true ∧ raised goodRun.2.trace = [] ∧
      (trades goodRun.2.trace).map Trade.view =
        [(.switch, sampleMon 0, .switchResult ⟨sampleMon 0, sampleMon 2, true⟩, true),
         (.gba, sampleMon 2, .gbaResult ⟨⟨sampleMon 2, sampleMon 1, true⟩, 0, true⟩, true),
         (.switch, sampleMon 1, .switchResult ⟨sampleMon 1, sampleMon 0, true⟩, true)] := by
  decide +kernel

theorem goodRun_trades : ∃ d1 d2 d3, trades goodRun.2.trace =
    [⟨.switch, sampleMon 0, d1, .switchResult ⟨sampleMon 0, sampleMon 2, true⟩, true⟩,
     ⟨.gba, sampleMon 2, d2, .gbaResult ⟨⟨sampleMon 2, sampleMon 1, true⟩, 0, true⟩, true⟩,
     ⟨.switch, sampleMon 1, d3, .switchResult ⟨sampleMon 1, sampleMon 0, true⟩, true⟩] := by
  have h := goodRun_eval.2.2.2
  generalize trades goodRun.2.trace = ts at h ⊢
  have hlen : ts.length = 3 := by simpa using congrArg List.length h
  obtain ⟨t1, t2, t3, rfl⟩ := List.length_eq_three.mp hlen
  simp only [List.map_cons, List.map_nil, List.cons.injEq, and_true] at h
  rw [trade_of_view h.1, trade_of_view h.2.1, trade_of_view h.2.2]
  exact ⟨_, _, _, rfl⟩

end TradeBroker
