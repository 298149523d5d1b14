/-
# TradeBroker.Lib.Interleave — two programs over one world, and a rely-guarantee rule.

`Duo` is two program trees that share a world; a step is one operation of either of them.  Each
process also carries a VIEW, a ghost that only its own operations move (`note`): what the process
has itself seen and done.  Because a view does not change under the other process, what a process
guarantees in terms of its view can be proved for that process ALONE, against a world that answers
almost anything: that is `Prog.Sat` over `localSem`, with the logic of `Lib.Program`.

`Duo.safe` puts two such proofs together.  A global invariant `J` says what the answers of the
world have to do with the views (`L`), each process guarantees `Obl` of its operations, and the
condition `C` under which the steps are taken turns these guarantees into facts about the world.
`Duo.invariant` is the rule for invariants that relate the world to both views at once.

The rule is not symmetric in what it is told: `C` is a restriction on WHO MAY MOVE WHEN, stated on the
shared world and on the mover's view, so a theorem that uses it says of exactly those interleavings that
it holds.  With `C` always true it is the rule for all of them.

The last part makes runs out of schedules.  `schedule` moves the two processes in a given order against a
world that answers by a function, `admitted` checks the condition at every move, and `schedule_admitted`
turns a schedule that passes into a run of `Duo.Step`.  A concrete interleaving is then one evaluation.

Both processes have the same operations and the same kind of view; what they return may differ.  The
journal is the world of `Journal.Concurrency` and `Journal.Exclusion`, the two ends of the wire are not:
they have bytes in flight and are stepped in `Firmware.Agreement`.
-/
import Mathlib.Logic.Relation
import TradeBroker.Lib.Program

namespace TradeBroker.Lib

variable {Op : Type} {Ret : Op → Type} {W γ α β : Type}

/-- Two programs, their views and the world they share.  The views are ghosts: no operation reads them, and
the programs do not know that there is another one. -/
structure Duo (Op : Type) (Ret : Op → Type) (γ W α β : Type) where
  left : Prog Op Ret α
  right : Prog Op Ret β
  viewL : γ
  viewR : γ
  world : W

/-- One operation of either process, allowed by the semantics and by the condition `C` on the world
and on the view of the process that performs it. -/
inductive Duo.Step (S : Prog.Sem Op Ret W) (note : γ → (op : Op) → Ret op → γ)
    (C : W → γ → (op : Op) → Ret op → Prop) : Duo Op Ret γ W α β → Duo Op Ret γ W α β → Prop
  | left {op : Op} {k : Ret op → Prog Op Ret α} {q : Prog Op Ret β} {g h : γ} {w w' : W}
      {r : Ret op} :
      S w op r w' → C w g op r →
      Duo.Step S note C ⟨.call op k, q, g, h, w⟩ ⟨k r, q, note g op r, h, w'⟩
  | right {p : Prog Op Ret α} {op : Op} {k : Ret op → Prog Op Ret β} {g h : γ} {w w' : W}
      {r : Ret op} :
      S w op r w' → C w h op r →
      Duo.Step S note C ⟨p, .call op k, g, h, w⟩ ⟨p, k r, g, note h op r, w'⟩

/-- A process alone: the world answers anything that `L` allows in the current view, and the second
component says that the last operation met its obligation. -/
def localSem (note : γ → (op : Op) → Ret op → γ) (L : γ → (op : Op) → Ret op → Prop)
    (Obl : γ → (op : Op) → Ret op → Prop) : Prog.Sem Op Ret (γ × Prop) :=
  fun x op r y => L x.1 op r ∧ y = (note x.1 op r, Obl x.1 op r)

/-- Every operation that the process can come to meets its obligation, as long as the world answers as `L`
allows. -/
def Guarantees (note : γ → (op : Op) → Ret op → γ) (L : γ → (op : Op) → Ret op → Prop)
    (Obl : γ → (op : Op) → Ret op → Prop) (p : Prog Op Ret α) (g : γ) : Prop :=
  ∃ ok : Prop, Prog.Sat (localSem note L Obl) (fun x => x.2) (fun _ _ => True) p (g, ok)

theorem Guarantees.step {note : γ → (op : Op) → Ret op → γ} {L Obl : γ → (op : Op) → Ret op → Prop}
    {op : Op} {k : Ret op → Prog Op Ret α} {g : γ} (h : Guarantees note L Obl (.call op k) g)
    {r : Ret op} (hr : L g op r) : Obl g op r ∧ Guarantees note L Obl (k r) (note g op r) := by
  obtain ⟨ok, _, hsat⟩ := h
  have hnext := hsat r _ ⟨hr, rfl⟩
  exact ⟨hnext.inv, _, hnext⟩

/-- A program that may raise is judged by the logic of `Act`, so a guarantee is proved with the rules of that
logic and nothing else. -/
theorem Guarantees.of_sat {ε : Type} {note : γ → (op : Op) → Ret op → γ}
    {L Obl : γ → (op : Op) → Ret op → Prop} {x : Act Op Ret ε α} {g : γ} {ok : Prop}
    {Q : α → γ × Prop → Prop} {E : ε → γ × Prop → Prop}
    (h : Act.Sat (localSem note L Obl) (fun y => y.2) x (g, ok) Q E) :
    Guarantees note L Obl x.run g :=
  ⟨ok, Prog.Sat.mono h (fun _ hy => hy) fun _ _ _ _ => trivial⟩

section Safe

variable {S : Prog.Sem Op Ret W} {note : γ → (op : Op) → Ret op → γ}
  {C : W → γ → (op : Op) → Ret op → Prop} {L Obl : γ → (op : Op) → Ret op → Prop} {J : W → Prop}
  {Goal : W → W → Prop}

/-- What holds of every configuration: the global invariant, and both guarantees, each in the view of its own
process. -/
def Duo.Good (note : γ → (op : Op) → Ret op → γ) (L Obl : γ → (op : Op) → Ret op → Prop)
    (J : W → Prop) (d : Duo Op Ret γ W α β) : Prop :=
  J d.world ∧ Guarantees note L Obl d.left d.viewL ∧ Guarantees note L Obl d.right d.viewR

/-- One step keeps the configuration good and reaches its goal: the mover by its own guarantee, the other one
because its view has not changed. -/
theorem Duo.Good.step
    (hstep : ∀ w g op r w', J w → C w g op r → S w op r w' →
      L g op r ∧ (Obl g op r → J w' ∧ Goal w w'))
    {d d' : Duo Op Ret γ W α β} (h : d.Good note L Obl J) (hs : Duo.Step S note C d d') :
    d'.Good note L Obl J ∧ Goal d.world d'.world := by
  obtain ⟨hJ, hl, hr⟩ := h
  cases hs with
  | left hS hC =>
      obtain ⟨hL, hgoal⟩ := hstep _ _ _ _ _ hJ hC hS
      obtain ⟨hobl, hnext⟩ := hl.step hL
      obtain ⟨hJ', hG⟩ := hgoal hobl
      exact ⟨⟨hJ', hnext, hr⟩, hG⟩
  | right hS hC =>
      obtain ⟨hL, hgoal⟩ := hstep _ _ _ _ _ hJ hC hS
      obtain ⟨hobl, hnext⟩ := hr.step hL
      obtain ⟨hJ', hG⟩ := hgoal hobl
      exact ⟨⟨hJ', hl, hnext⟩, hG⟩

/-- **The rely-guarantee rule**: every step of every interleaved run reaches its goal.  The induction is on
the run, and `Duo.Good` carries it. -/
theorem Duo.safe (L Obl : γ → (op : Op) → Ret op → Prop) (J : W → Prop) (Goal : W → W → Prop)
    (hstep : ∀ w g op r w', J w → C w g op r → S w op r w' →
      L g op r ∧ (Obl g op r → J w' ∧ Goal w w'))
    {d0 d d' : Duo Op Ret γ W α β} (h : d0.Good note L Obl J)
    (hrun : Relation.ReflTransGen (Duo.Step S note C) d0 d) (hlast : Duo.Step S note C d d') :
    Goal d.world d'.world := by
  have hgood : d.Good note L Obl J := by
    clear hlast
    induction hrun with
    | refl => exact h
    | tail _ hs ih => exact (ih.step hstep hs).1
  exact (hgood.step hstep hlast).2

/-- **The rule for what both views have to do with the world**: a symmetric relation that every step of
either process keeps holds all along, and so do the guarantees. -/
theorem Duo.invariant (L Obl : γ → (op : Op) → Ret op → Prop) (K : W → γ → γ → Prop)
    (hswap : ∀ w g h, K w g h → K w h g)
    (hstep : ∀ w g h op r w', K w g h → C w g op r → S w op r w' →
      L g op r ∧ (Obl g op r → K w' (note g op r) h))
    {d0 d : Duo Op Ret γ W α β} (hrun : Relation.ReflTransGen (Duo.Step S note C) d0 d)
    (hK : K d0.world d0.viewL d0.viewR) (hl : Guarantees note L Obl d0.left d0.viewL)
    (hr : Guarantees note L Obl d0.right d0.viewR) :
    K d.world d.viewL d.viewR ∧ Guarantees note L Obl d.left d.viewL ∧
      Guarantees note L Obl d.right d.viewR := by
  induction hrun with
  | refl => exact ⟨hK, hl, hr⟩
  | tail _ hs ih =>
      obtain ⟨hK', hl', hr'⟩ := ih
      cases hs with
      | left hS hC =>
          obtain ⟨hL, hnext⟩ := hstep _ _ _ _ _ _ hK' hC hS
          obtain ⟨hobl, hgo⟩ := hl'.step hL
          exact ⟨hnext hobl, hgo, hr'⟩
      | right hS hC =>
          obtain ⟨hL, hnext⟩ := hstep _ _ _ _ _ _ (hswap _ _ _ hK') hC hS
          obtain ⟨hobl, hgo⟩ := hr'.step hL
          exact ⟨hswap _ _ _ (hnext hobl), hl', hgo⟩

end Safe

/-! ## Scheduled runs -/

/-- Which process moves, in a run that is given by its order of moves. -/
inductive Side where
  | left
  | right
  deriving DecidableEq

namespace Duo

variable (note : γ → (op : Op) → Ret op → γ) (answer : W → (op : Op) → Ret op × W)

/-- One operation of the given side against a world that answers by a function; a finished process
stays. -/
def move : Side → Duo Op Ret γ W α β → Duo Op Ret γ W α β
  | .left, ⟨.call op k, q, g, h, w⟩ =>
      ⟨k (answer w op).1, q, note g op (answer w op).1, h, (answer w op).2⟩
  | .right, ⟨p, .call op k, g, h, w⟩ =>
      ⟨p, k (answer w op).1, g, note h op (answer w op).1, (answer w op).2⟩
  | .left, ⟨.done a, q, g, h, w⟩ => ⟨.done a, q, g, h, w⟩
  | .right, ⟨p, .done b, g, h, w⟩ => ⟨p, .done b, g, h, w⟩

/-- The view of the given side. -/
def view : Side → Duo Op Ret γ W α β → γ
  | .left, d => d.viewL
  | .right, d => d.viewR

/-- The run of a schedule. -/
def schedule (sides : List Side) (d : Duo Op Ret γ W α β) : Duo Op Ret γ W α β :=
  sides.foldl (fun d side => d.move note answer side) d

/-- The next operation of the given side passes the check. -/
def admits (check : W → γ → (op : Op) → Ret op → Bool) : Side → Duo Op Ret γ W α β → Bool
  | .left, ⟨.call op _, _, g, _, w⟩ => check w g op (answer w op).1
  | .right, ⟨_, .call op _, _, h, w⟩ => check w h op (answer w op).1
  | .left, ⟨.done _, _, _, _, _⟩ => true
  | .right, ⟨_, .done _, _, _, _⟩ => true

/-- Every operation of a schedule passes the check, each at the configuration in which it is performed. -/
def admitted (check : W → γ → (op : Op) → Ret op → Bool) : List Side → Duo Op Ret γ W α β → Bool
  | [], _ => true
  | side :: sides, d => d.admits answer check side && admitted check sides (d.move note answer side)

variable {note answer} {S : Prog.Sem Op Ret W} {C : W → γ → (op : Op) → Ret op → Prop}

/-- A move that the condition allows is a step, unless the process has finished. -/
theorem move_step (h : ∀ w op, S w op (answer w op).1 (answer w op).2) {side : Side}
    {d : Duo Op Ret γ W α β} (hC : ∀ op, C d.world (d.view side) op (answer d.world op).1)
    (hmoves : d.move note answer side ≠ d) : Duo.Step S note C d (d.move note answer side) := by
  obtain ⟨p, q, g, g', w⟩ := d
  cases side with
  | left =>
      cases p with
      | done a => exact absurd rfl hmoves
      | call op k => exact .left (h w op) (hC op)
  | right =>
      cases q with
      | done b => exact absurd rfl hmoves
      | call op k => exact .right (h w op) (hC op)

theorem move_run {check : W → γ → (op : Op) → Ret op → Bool}
    (h : ∀ w op, S w op (answer w op).1 (answer w op).2)
    (hC : ∀ w g op r, check w g op r = true → C w g op r) {side : Side} {d : Duo Op Ret γ W α β}
    (ha : d.admits answer check side = true) :
    Relation.ReflTransGen (Duo.Step S note C) d (d.move note answer side) := by
  obtain ⟨p, q, g, g', w⟩ := d
  cases side with
  | left =>
      cases p with
      | done a => exact .refl
      | call op k => exact .single (.left (h w op) (hC w g op _ ha))
  | right =>
      cases q with
      | done b => exact .refl
      | call op k => exact .single (.right (h w op) (hC w g' op _ ha))

/-- A schedule whose operations pass the check is a run under the condition, moves of a process that has
finished apart, which change nothing. -/
theorem schedule_admitted {check : W → γ → (op : Op) → Ret op → Bool}
    (h : ∀ w op, S w op (answer w op).1 (answer w op).2)
    (hC : ∀ w g op r, check w g op r = true → C w g op r) {sides : List Side}
    {d : Duo Op Ret γ W α β} (ha : d.admitted note answer check sides = true) :
    Relation.ReflTransGen (Duo.Step S note C) d (d.schedule note answer sides) := by
  induction sides generalizing d with
  | nil => exact .refl
  | cons side sides ih =>
      obtain ⟨hnow, hlater⟩ := Bool.and_eq_true_iff.mp ha
      exact (move_run h hC hnow).trans (ih hlater)

/-- Without a condition every schedule is a run. -/
theorem schedule_run (h : ∀ w op, S w op (answer w op).1 (answer w op).2) (sides : List Side)
    (d : Duo Op Ret γ W α β) :
    Relation.ReflTransGen (Duo.Step S note fun _ _ _ _ => True) d (d.schedule note answer sides) := by
  have hfree : d.admitted note answer (fun _ _ _ _ => true) sides = true := by
    induction sides generalizing d with
    | nil => rfl
    | cons side sides ih =>
        refine Bool.and_eq_true_iff.mpr ⟨?_, ih _⟩
        unfold admits
        split <;> rfl
  exact schedule_admitted h (fun _ _ _ _ _ => trivial) hfree

end Duo

end TradeBroker.Lib
