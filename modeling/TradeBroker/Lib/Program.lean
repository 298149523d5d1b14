/-
# TradeBroker.Lib.Program — effectful programs as trees, and a crash logic for them.

A program is a tree of operation calls: `call op k` performs `op`, receives one of its responses
and continues with `k`.  What an operation may answer, and what it does to the world, is a relation
`Sem` given from outside, so the same tree runs against an honest world, an adversarial one, or one
that fails at any step.  A crash is a run that stops: every configuration that `Reach` visits is a
crash point, and no clause of the logic has to mention it.

`Sat S I Q p w` is the judgment the development proves: along every run of `p` from `w` under `S`,
the crash invariant `I` holds in every world visited, and every finished run ends in `Q`.  It is
defined by recursion on the tree, so it composes along `bind` (`Sat.bind`), and `Sat.reach` turns it
into a statement about reachable configurations.

A world that answers by a FUNCTION has one run (`run`).  A transcript is the list of operations with
their answers; `Follows` reads a program against one, and a transcript that a function would give
is the run of that function (`Follows.run_eq`).

Two layers sit above the bare tree: `Act`, a program that may raise, and `Method`, an `Act` that
also owns mutable locals which survive a raise (the locals of a method whose `except` clause reads
them).  Both are core transformer stacks; this file only adds their composition rules.

Three further judgments are kept beside `Sat`, each for a question that `Sat` does not ask.  `Avoids` is a
fact about the program text, that an operation does not occur in it; `Forwards` says that an answer which
raises ends the program with that very exception; `Follows` ties a program to a transcript without any
world.  All of them are defined by recursion on the tree and compose along `bind`.

The broker runs on this: `Broker.Effects` gives the operations and a world in which every call may fail,
`Journal.Store` and `Broker.Transaction` are programs over it, and the crash points of a session are the
configurations that `Reach` visits.
-/
import Mathlib.Logic.Function.Basic
import Mathlib.Tactic.Common

namespace TradeBroker.Lib

/-- A program over the operations `Op`: an operation answers with a value of `Ret op`, and the program goes on
with what it makes of the answer.  Every program is a finite tree in depth, so every run ends. -/
inductive Prog (Op : Type) (Ret : Op → Type) (α : Type) : Type where
  | done (a : α) : Prog Op Ret α
  | call (op : Op) (k : Ret op → Prog Op Ret α) : Prog Op Ret α

namespace Prog

variable {Op : Type} {Ret : Op → Type} {α β γ W : Type}

def bind : Prog Op Ret α → (α → Prog Op Ret β) → Prog Op Ret β
  | done a, f => f a
  | call op k, f => call op fun r => (k r).bind f

instance : Monad (Prog Op Ret) where
  pure := done
  bind := bind

/-- One operation, its answer returned as it is. -/
def perform (op : Op) : Prog Op Ret (Ret op) := call op done

@[simp] theorem pure_eq_done (a : α) : (pure a : Prog Op Ret α) = done a := rfl

@[simp] theorem done_bind (a : α) (f : α → Prog Op Ret β) : (done a >>= f) = f a := rfl

@[simp] theorem call_bind (op : Op) (k : Ret op → Prog Op Ret α) (f : α → Prog Op Ret β) :
    (call op k >>= f) = call op fun r => k r >>= f := rfl

/-! ## Runs -/

/-- What one operation may answer in a world, and the world it leaves.  It is a relation: the same call may
succeed, fail, or leave traces and fail. -/
abbrev Sem (Op : Type) (Ret : Op → Type) (W : Type) : Type :=
  W → (op : Op) → Ret op → W → Prop

/-- `Reach S p w q v`: from `p` in world `w`, some run of operations leads to the rest program `q`
in world `v`.  A crash leaves exactly such a `v`. -/
inductive Reach (S : Sem Op Ret W) : Prog Op Ret α → W → Prog Op Ret α → W → Prop
  | refl (p : Prog Op Ret α) (w : W) : Reach S p w p w
  | step {op : Op} {k : Ret op → Prog Op Ret α} {r : Ret op} {q : Prog Op Ret α} {w w' v : W} :
      S w op r w' → Reach S (k r) w' q v → Reach S (call op k) w q v

/-- A run that ended with result `a`, in the world `v`: the program was not stopped on the way. -/
def Finish (S : Sem Op Ret W) (p : Prog Op Ret α) (w : W) (a : α) (v : W) : Prop :=
  Reach S p w (done a) v

/-! ## Deterministic runs -/

/-- Run a program against a world that answers by a function; there is one such run, and it ends. -/
def run (answer : W → (op : Op) → Ret op × W) : Prog Op Ret α → W → α × W
  | done a, w => (a, w)
  | call op k, w => run answer (k (answer w op).1) (answer w op).2

/-- A world that answers as `S` allows has the runs of `S`, so that a computed run is an instance of every
theorem about all runs. -/
theorem run_finish {S : Sem Op Ret W} {answer : W → (op : Op) → Ret op × W}
    (h : ∀ w op, S w op (answer w op).1 (answer w op).2) (p : Prog Op Ret α) (w : W) :
    Finish S p w (run answer p w).1 (run answer p w).2 := by
  induction p generalizing w with
  | done a => exact .refl _ _
  | call op k ih => exact .step (h w op) (ih _ _)

/-- What every operation preserves, every run preserves, wherever it is stopped. -/
theorem Reach.inv {S : Sem Op Ret W} {I : W → Prop}
    (h : ∀ w op r w', S w op r w' → I w → I w') {p q : Prog Op Ret α} {w v : W}
    (hr : Reach S p w q v) (hw : I w) : I v := by
  induction hr with
  | refl => exact hw
  | step hs _ ih => exact ih (h _ _ _ _ hs hw)

/-- A run in one world is a run in another that sees less of it. -/
theorem Reach.map {V : Type} {S : Sem Op Ret V} {T : Sem Op Ret W} (f : V → W)
    (h : ∀ v op r v', S v op r v' → T (f v) op r (f v')) {p q : Prog Op Ret α} {v v' : V}
    (hr : Reach S p v q v') : Reach T p (f v) q (f v') := by
  induction hr with
  | refl => exact .refl _ _
  | step hs _ ih => exact .step (h _ _ _ _ hs) ih

theorem run_bind (answer : W → (op : Op) → Ret op × W) (p : Prog Op Ret α)
    (f : α → Prog Op Ret β) (w : W) :
    run answer (p >>= f) w = run answer (f (run answer p w).1) (run answer p w).2 := by
  induction p generalizing w with
  | done a => rfl
  | call op k ih => exact ih _ _

/-! ## The crash logic -/

/-- Every world visited satisfies `I`, every finished run satisfies `Q`.  The worlds between two operations
are visited too, which makes `I` a crash invariant. -/
def Sat (S : Sem Op Ret W) (I : W → Prop) (Q : α → W → Prop) : Prog Op Ret α → W → Prop
  | done a, w => I w ∧ Q a w
  | call op k, w => I w ∧ ∀ r w', S w op r w' → Sat S I Q (k r) w'

section Rules

variable {S : Sem Op Ret W} {I : W → Prop} {p : Prog Op Ret α} {w : W}

theorem Sat.inv {Q : α → W → Prop} (h : Sat S I Q p w) : I w := by
  cases p with
  | done a => exact h.1
  | call op k => exact h.1

theorem Sat.mono {J : W → Prop} {Q R : α → W → Prop} (h : Sat S I Q p w)
    (hI : ∀ v, I v → J v) (hQ : ∀ a v, I v → Q a v → R a v) : Sat S J R p w := by
  induction p generalizing w with
  | done a => exact ⟨hI w h.1, hQ a w h.1 h.2⟩
  | call op k ih => exact ⟨hI w h.1, fun r w' hs => ih r (h.2 r w' hs)⟩

theorem Sat.bind {Q : β → W → Prop} {R : α → W → Prop} {f : α → Prog Op Ret β}
    (h : Sat S I R p w) (hf : ∀ a v, I v → R a v → Sat S I Q (f a) v) :
    Sat S I Q (p >>= f) w := by
  induction p generalizing w with
  | done a => exact hf a w h.1 h.2
  | call op k ih => exact ⟨h.1, fun r w' hs => ih r (h.2 r w' hs)⟩

/-- **Soundness.**  The judgment speaks about every configuration a run can be stopped in. -/
theorem Sat.reach {Q : α → W → Prop} {q : Prog Op Ret α} {v : W}
    (h : Sat S I Q p w) (hr : Reach S p w q v) : Sat S I Q q v := by
  induction hr with
  | refl p w => exact h
  | step hs _ ih => exact ih (h.2 _ _ hs)

theorem Sat.finish {Q : α → W → Prop} {a : α} {v : W}
    (h : Sat S I Q p w) (hr : Finish S p w a v) : I v ∧ Q a v :=
  h.reach hr

/-- No run of the program performs an operation in `bad`, whatever its operations are answered. -/
def Avoids (bad : Op → Prop) : Prog Op Ret α → Prop
  | done _ => True
  | call op k => ¬ bad op ∧ ∀ r, Avoids bad (k r)

theorem Avoids.bind {bad : Op → Prop} {f : α → Prog Op Ret β} (hp : p.Avoids bad)
    (hf : ∀ a, (f a).Avoids bad) : (p >>= f).Avoids bad := by
  induction p with
  | done a => exact hf a
  | call op k ih => exact ⟨hp.1, fun r => ih r (hp.2 r)⟩

/-- What the operations of a program preserve holds all along. -/
theorem Avoids.sat {bad : Op → Prop} (h : p.Avoids bad)
    (hstep : ∀ w op r w', ¬ bad op → I w → S w op r w' → I w') (hw : I w) :
    Sat S I (fun _ _ => True) p w := by
  induction p generalizing w with
  | done a => exact ⟨hw, trivial⟩
  | call op k ih =>
      refine ⟨hw, ?_⟩
      intro r w' hs
      exact ih r (h.2 r) (hstep w op r w' h.1 hw hs)

end Rules

theorem Reach.trans {S : Sem Op Ret W} {p q r : Prog Op Ret α} {u v w : W}
    (h : Reach S p u q v) (h' : Reach S q v r w) : Reach S p u r w := by
  induction h with
  | refl => exact h'
  | step hs _ ih => exact .step hs (ih h')

/-! ## Transcripts -/

/-- An operation and the answer it got: an entry of a transcript. -/
structure Answered (Op : Type) (Ret : Op → Type) where
  op : Op
  answer : Ret op

/-- The world that only takes the minutes: any answer is possible, and the world is the list of what was asked
and answered. -/
def Minutes : Sem Op Ret (List (Answered Op Ret)) := fun xs op r ys => ys = xs ++ [⟨op, r⟩]

/-- The program comes to `q` when its operations are answered as in `xs`; nothing is said about whether any
world would answer so. -/
def Follows (p : Prog Op Ret α) (xs : List (Answered Op Ret)) (q : Prog Op Ret α) : Prop :=
  Reach Minutes p [] q xs

theorem Follows.refl (p : Prog Op Ret α) : Follows p [] p := Reach.refl p []

theorem Follows.step {p : Prog Op Ret α} {xs : List (Answered Op Ret)} {op : Op}
    {k : Ret op → Prog Op Ret α} (h : Follows p xs (call op k)) (r : Ret op) :
    Follows p (xs ++ [⟨op, r⟩]) (k r) := by
  have hs : Minutes xs op r (xs ++ [⟨op, r⟩]) := rfl
  exact Reach.trans h (.step hs (.refl _ _))

section Played

variable (answer : W → (op : Op) → Ret op × W)

/-- The world after the operations of a transcript, in order. -/
def play (w : W) (xs : List (Answered Op Ret)) : W := xs.foldl (fun w x => (answer w x.op).2) w

/-- The answers of the transcript are the ones that this world gives, each in the world that the operations
before it have left. -/
def Truthful : W → List (Answered Op Ret) → Prop
  | _, [] => True
  | w, x :: xs => x.answer = (answer w x.op).1 ∧ Truthful (answer w x.op).2 xs

theorem play_append (w : W) (xs ys : List (Answered Op Ret)) :
    play answer w (xs ++ ys) = play answer (play answer w xs) ys := by
  simp [play]

theorem truthful_append (w : W) (xs ys : List (Answered Op Ret)) :
    Truthful answer w (xs ++ ys) ↔ Truthful answer w xs ∧ Truthful answer (play answer w xs) ys := by
  induction xs generalizing w with
  | nil => simp [Truthful, play]
  | cons x xs ih => simp only [List.cons_append, Truthful, ih, and_assoc, play, List.foldl_cons]

/-- Every answer of the transcript was given in some world. -/
theorem Truthful.mem {w : W} {xs : List (Answered Op Ret)} {x : Answered Op Ret}
    (h : Truthful answer w xs) (hx : x ∈ xs) : ∃ w', x.answer = (answer w' x.op).1 := by
  induction xs generalizing w with
  | nil => cases hx
  | cons y ys ih =>
      rcases List.mem_cons.mp hx with rfl | hx
      · exact ⟨w, h.1⟩
      · exact ih h.2 hx

/-- A transcript that a world would give is a run in that world, up to the place where the transcript ends. -/
theorem Follows.run_eq {p q : Prog Op Ret α} {xs : List (Answered Op Ret)} {w : W}
    (h : Follows p xs q) (ht : Truthful answer w xs) :
    run answer p w = run answer q (play answer w xs) := by
  suffices hall : ∀ {ys zs : List (Answered Op Ret)} {p q : Prog Op Ret α}, Reach Minutes p ys q zs →
      ∃ xs, zs = ys ++ xs ∧ ∀ w, Truthful answer w xs →
        run answer p w = run answer q (play answer w xs) by
    obtain ⟨xs', hxs, hrun⟩ := hall h
    obtain rfl : xs = xs' := by simpa using hxs
    exact hrun w ht
  intro ys zs p q hr
  induction hr with
  | refl p ys => exact ⟨[], by simp, fun _ _ => rfl⟩
  | @step op k r q ys ys' zs hs _ ih =>
      obtain ⟨xs, rfl, hrun⟩ := ih
      have hs : ys' = ys ++ [(⟨op, r⟩ : Answered Op Ret)] := hs
      subst hs
      refine ⟨⟨op, r⟩ :: xs, by simp, ?_⟩
      intro w ht
      obtain ⟨hr, ht⟩ := ht
      have hr : r = (answer w op).1 := hr
      subst hr
      exact hrun _ ht

end Played

end Prog

/-! ## Programs that raise -/

/-- A program that may raise an `ε`: what an operation raises is one of its answers, and the program turns it
into a raise of its own. -/
abbrev Act (Op : Type) (Ret : Op → Type) (ε α : Type) : Type := ExceptT ε (Prog Op Ret) α

/-- A postcondition for a program that may raise: `Q` on return, `E` on a raise. -/
def Ends {ε α W : Type} (Q : α → W → Prop) (E : ε → W → Prop) : Except ε α → W → Prop
  | .ok a, w => Q a w
  | .error e, w => E e w

namespace Act

variable {Op : Type} {Ret : Op → Type} {ε α β W : Type}

/-- The crash logic for a program that may raise. -/
def Sat (S : Prog.Sem Op Ret W) (I : W → Prop) (x : Act Op Ret ε α) (w : W)
    (Q : α → W → Prop) (E : ε → W → Prop) : Prop :=
  Prog.Sat S I (Ends Q E) x.run w

variable {S : Prog.Sem Op Ret W} {I : W → Prop} {w : W}
  {Q : α → W → Prop} {E : ε → W → Prop}

theorem Sat.pure {a : α} (hI : I w) (hQ : Q a w) :
    Sat S I (Pure.pure a : Act Op Ret ε α) w Q E := ⟨hI, hQ⟩

theorem Sat.throw {e : ε} (hI : I w) (hE : E e w) :
    Sat S I (MonadExcept.throw e : Act Op Ret ε α) w Q E := ⟨hI, hE⟩

theorem Sat.ofExcept {r : Except ε α} (hI : I w) (h : Ends Q E r w) :
    Sat S I (ExceptT.mk (Pure.pure r) : Act Op Ret ε α) w Q E := ⟨hI, h⟩

theorem Sat.mono {J : W → Prop} {Q' : α → W → Prop} {E' : ε → W → Prop} {x : Act Op Ret ε α}
    (h : Sat S I x w Q E) (hI : ∀ v, I v → J v) (hQ : ∀ a v, I v → Q a v → Q' a v)
    (hE : ∀ e v, I v → E e v → E' e v) : Sat S J x w Q' E' := by
  refine Prog.Sat.mono h hI ?_
  intro r v hv hr
  cases r with
  | ok a => exact hQ a v hv hr
  | error e => exact hE e v hv hr

/-- **Soundness**, for a run that was stopped and for one that is over. -/
theorem Sat.reach {x : Act Op Ret ε α} {q : Prog Op Ret (Except ε α)} {v : W} (h : Sat S I x w Q E)
    (hr : Prog.Reach S x.run w q v) : Prog.Sat S I (Ends Q E) q v := Prog.Sat.reach h hr

theorem Sat.finish {x : Act Op Ret ε α} {r : Except ε α} {v : W} (h : Sat S I x w Q E)
    (hr : Prog.Finish S x.run w r v) : I v ∧ Ends Q E r v := Prog.Sat.finish h hr

theorem Sat.bind {R : α → W → Prop} {Q : β → W → Prop} {x : Act Op Ret ε α}
    {f : α → Act Op Ret ε β} (h : Sat S I x w R E)
    (hf : ∀ a v, I v → R a v → Sat S I (f a) v Q E) : Sat S I (x >>= f) w Q E := by
  refine Prog.Sat.bind h ?_
  intro r v hv hr
  cases r with
  | ok a => exact hf a v hv hr
  | error e => exact ⟨hv, hr⟩

/-- Catch a raise and keep going with the result as a value (the `try` of the modelled code). -/
def attempt (x : Act Op Ret ε α) : Act Op Ret ε (Except ε α) := ExceptT.mk (Except.ok <$> x.run)

theorem Sat.attempt {x : Act Op Ret ε α} {E' : ε → W → Prop} (h : Sat S I x w Q E) :
    Sat S I (attempt x) w (Ends Q E) E' :=
  Prog.Sat.bind (f := fun r => Prog.done (Except.ok r)) h fun _ _ hv hr => ⟨hv, hr⟩

section Runs

variable {answer : W → (op : Op) → Ret op × W} {x : Act Op Ret ε α} {f : α → Act Op Ret ε β} {v : W}

theorem run_bind_ok {a : α} (h : Prog.run answer x.run w = (.ok a, v)) :
    Prog.run answer (x >>= f).run w = Prog.run answer (f a).run v := by
  refine (Prog.run_bind answer x.run _ w).trans ?_
  rw [h]
  rfl

theorem run_bind_error {e : ε} (h : Prog.run answer x.run w = (.error e, v)) :
    Prog.run answer (x >>= f).run w = (.error e, v) := by
  refine (Prog.run_bind answer x.run _ w).trans ?_
  rw [h]
  rfl

end Runs

/-- No run of the program performs an operation in `bad`. -/
def Avoids (bad : Op → Prop) (x : Act Op Ret ε α) : Prop := x.run.Avoids bad

section Avoids

variable {bad : Op → Prop}

theorem avoids_none (x : Act Op Ret ε α) : Avoids (fun _ => False) x := by
  show x.run.Avoids _
  induction x.run with
  | done a => trivial
  | call op k ih => exact ⟨fun h => h, ih⟩

theorem Avoids.pure (a : α) : Avoids bad (Pure.pure a : Act Op Ret ε α) := trivial

theorem Avoids.throw (e : ε) : Avoids bad (MonadExcept.throw e : Act Op Ret ε α) := trivial

theorem Avoids.ofExcept (r : Except ε α) : Avoids bad (ExceptT.mk (Pure.pure r) : Act Op Ret ε α) := trivial

theorem Avoids.perform {op : Op} (k : Ret op → Except ε α) (h : ¬ bad op) :
    Avoids bad (ExceptT.mk (.call op fun r => .done (k r)) : Act Op Ret ε α) := ⟨h, fun _ => trivial⟩

theorem Avoids.bind {x : Act Op Ret ε α} {f : α → Act Op Ret ε β} (hx : Avoids bad x)
    (hf : ∀ a, Avoids bad (f a)) : Avoids bad (x >>= f) := by
  refine Prog.Avoids.bind hx ?_
  intro r
  cases r with
  | ok a => exact hf a
  | error e => exact trivial

theorem Avoids.attempt {x : Act Op Ret ε α} (hx : Avoids bad x) : Avoids bad (attempt x) :=
  Prog.Avoids.bind hx fun _ => trivial

/-- What the operations of a program preserve holds all along and at its end. -/
theorem Avoids.sat {J : W → Prop} {x : Act Op Ret ε α} (h : Avoids bad x)
    (hstep : ∀ w op r w', ¬ bad op → J w → S w op r w' → J w') (hJ : ∀ v, J v → I v) (hw : J w) :
    Sat S I x w (fun _ v => J v) (fun _ v => J v) := by
  refine Prog.Sat.mono (Prog.Avoids.sat h hstep hw) hJ ?_
  intro r v hv _
  cases r with
  | ok a => exact hv
  | error e => exact hv

end Avoids

/-! ### what a program does with the exceptions it is answered with -/

section Forwards

variable {raises : (op : Op) → Ret op → Option ε}

/-- An answer that raises is the end of the program, which raises the same: nothing is caught and nothing is
wrapped on the way. -/
def Forwards (raises : (op : Op) → Ret op → Option ε) : Prog Op Ret (Except ε α) → Prop
  | .done _ => True
  | .call op k => ∀ r, (∀ e, raises op r = some e → k r = .done (.error e)) ∧ Forwards raises (k r)

theorem Forwards.bind {x : Act Op Ret ε α} {f : α → Act Op Ret ε β} (hx : Forwards raises x.run)
    (hf : ∀ a, Forwards raises (f a).run) : Forwards raises (x >>= f).run := by
  show Forwards raises (x.run >>= ExceptT.bindCont f)
  generalize x.run = p at hx ⊢
  induction p with
  | done res =>
      cases res with
      | ok a => exact hf a
      | error e => exact trivial
  | call op k ih =>
      intro r
      obtain ⟨hraise, hrest⟩ := hx r
      refine ⟨?_, ih r hrest⟩
      intro e he
      show (k r).bind (ExceptT.bindCont f) = _
      rw [hraise e he]
      rfl

/-- **A transcript of such a program** raises what it was answered with. -/
theorem Forwards.follows {p : Prog Op Ret (Except ε α)} (hp : Forwards raises p)
    {xs : List (Prog.Answered Op Ret)} {res : Except ε α} (h : Prog.Follows p xs (.done res))
    {x : Prog.Answered Op Ret} (hx : x ∈ xs) {e : ε} (he : raises x.op x.answer = some e) :
    res = .error e := by
  -- a finished program makes no further call
  have hover : ∀ {ys zs : List (Prog.Answered Op Ret)} {a : Except ε α} {q : Prog Op Ret (Except ε α)},
      Prog.Reach Prog.Minutes (.done a) ys q zs → q = .done a ∧ zs = ys := by
    intro ys zs a q hr
    cases hr
    exact ⟨rfl, rfl⟩
  suffices hall : ∀ {ys zs : List (Prog.Answered Op Ret)} {p q : Prog Op Ret (Except ε α)},
      Prog.Reach Prog.Minutes p ys q zs → Forwards raises p → q = .done res →
      x ∈ zs → x ∈ ys ∨ res = .error e from
    (hall h hp rfl hx).resolve_left (by simp)
  intro ys zs p q hr
  induction hr with
  | refl p ys => exact fun _ _ hx => Or.inl hx
  | @step op k r q ys ys' zs hs hrest ih =>
      intro hp hq hx
      obtain ⟨hraise, hk⟩ := hp r
      obtain rfl : ys' = ys ++ [(⟨op, r⟩ : Prog.Answered Op Ret)] := hs
      rcases ih hk hq hx with hx | hres
      · rcases List.mem_append.mp hx with hx | hx
        · exact Or.inl hx
        · obtain rfl := List.mem_singleton.mp hx
          rw [hraise e he] at hrest
          obtain ⟨hdone, -⟩ := hover hrest
          exact Or.inr (Prog.done.inj (hq.symm.trans hdone))
      · exact Or.inr hres

end Forwards

end Act

/-! ## Programs that raise and own locals -/

/-- A program with mutable locals `σ` that keep their value when it raises, as the locals of a Python function
do for its `except` and `finally` clauses. -/
abbrev Method (Op : Type) (Ret : Op → Type) (ε σ α : Type) : Type :=
  ExceptT ε (StateT σ (Prog Op Ret)) α

/-- A postcondition for a method: the locals are seen on return and on a raise. -/
def MEnds {ε σ α W : Type} (Q : α → σ → W → Prop) (E : ε → σ → W → Prop) :
    Except ε α × σ → W → Prop
  | (.ok a, s), w => Q a s w
  | (.error e, s), w => E e s w

namespace Method

variable {Op : Type} {Ret : Op → Type} {ε σ α β W : Type}

/-- A program that touches no locals, run inside a method, which leaves them as they are. -/
def lift (x : Act Op Ret ε α) : Method Op Ret ε σ α :=
  ExceptT.mk fun s => x.run >>= fun r => Prog.done (r, s)

instance : MonadLift (Act Op Ret ε) (Method Op Ret ε σ) := ⟨lift⟩

/-- Run a step that receives the locals and hands back their new value whether it raises or not: a call that
mutates an object and then raises has mutated it. -/
def onLocals (f : σ → Prog Op Ret (Except ε α × σ)) : Method Op Ret ε σ α := ExceptT.mk f

/-- The crash logic for a method started with locals `s`. -/
def Sat (S : Prog.Sem Op Ret W) (I : W → Prop) (x : Method Op Ret ε σ α) (s : σ) (w : W)
    (Q : α → σ → W → Prop) (E : ε → σ → W → Prop) : Prop :=
  Prog.Sat S I (MEnds Q E) (x.run s) w

variable {S : Prog.Sem Op Ret W} {I : W → Prop} {s : σ} {w : W}
  {Q : α → σ → W → Prop} {E : ε → σ → W → Prop}

theorem Sat.pure {a : α} (hI : I w) (hQ : Q a s w) :
    Sat S I (Pure.pure a : Method Op Ret ε σ α) s w Q E := ⟨hI, hQ⟩

theorem Sat.assign {f : σ → σ} {Q : PUnit → σ → W → Prop} (hI : I w) (hQ : Q ⟨⟩ (f s) w) :
    Sat S I (modify f : Method Op Ret ε σ PUnit) s w Q E := ⟨hI, hQ⟩

theorem Sat.bind {R : α → σ → W → Prop} {Q : β → σ → W → Prop} {x : Method Op Ret ε σ α}
    {f : α → Method Op Ret ε σ β} (h : Sat S I x s w R E)
    (hf : ∀ a t v, I v → R a t v → Sat S I (f a) t v Q E) : Sat S I (x >>= f) s w Q E := by
  refine Prog.Sat.bind h ?_
  rintro ⟨r, t⟩ v hv hr
  cases r with
  | ok a => exact hf a t v hv hr
  | error e => exact ⟨hv, hr⟩

theorem Sat.lift {x : Act Op Ret ε α}
    (h : Act.Sat S I x w (fun a v => Q a s v) (fun e v => E e s v)) :
    Sat S I (Method.lift x) s w Q E := by
  refine Prog.Sat.bind h ?_
  intro r v hv hr
  refine ⟨hv, ?_⟩
  cases r with
  | ok a => exact hr
  | error e => exact hr

theorem Sat.mono {J : W → Prop} {Q' : α → σ → W → Prop} {E' : ε → σ → W → Prop}
    {x : Method Op Ret ε σ α} (h : Sat S I x s w Q E) (hI : ∀ v, I v → J v)
    (hQ : ∀ a t v, I v → Q a t v → Q' a t v) (hE : ∀ e t v, I v → E e t v → E' e t v) :
    Sat S J x s w Q' E' := by
  refine Prog.Sat.mono h hI ?_
  rintro ⟨r, t⟩ v hv hr
  cases r with
  | ok a => exact hQ a t v hv hr
  | error e => exact hE e t v hv hr

end Method

end TradeBroker.Lib
