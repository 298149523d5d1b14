/-
# TradeBroker.Lib.Refinement — one program in two worlds.

A program tree runs against a detailed world `S` and against a plainer one `T`.  Every run under `S` is a run
under `T`, call by call and to the same rest program, when each operation of `S` can be followed in `T`
(`Guarantees.refines`).  Two things make room for a difference between the worlds:

* the answers need not be equal, as long as the program makes the same of them (`Prog.Blind`);
* an operation need only be followed where the program is entitled to it.  What entitles it is a guarantee of the
  program alone, proved against a world that answers almost anything (`Guarantees`).

A program that keeps away from the operations that answer differently is blind to the difference (`Avoids.blind`),
so only the few programs that read such an answer have to be looked at.

The conclusion is about runs that stop anywhere, and it gives the run in the plainer world together with
the relation at its end.  What is proved about all runs in the plainer world is then true of all runs in
the detailed one, read through the relation.

`Broker.Staging` is the guarantee for the broker, that it renames only what it has written and synced, and
`Broker.Refinement` the instance: a file system with caches refines a disk whose files appear at once.
-/
import TradeBroker.Lib.Interleave

namespace TradeBroker.Lib

variable {Op : Type} {Ret : Op → Type} {α β γ ε σ V W : Type}

namespace Prog

/-- Behind any two answers that are the `same`, the program goes on in one way: it does not look at what tells
them apart. -/
def Blind (same : (op : Op) → Ret op → Ret op → Prop) : Prog Op Ret α → Prop
  | .done _ => True
  | .call op k => (∀ r r', same op r r' → k r = k r') ∧ ∀ r, Blind same (k r)

section Blind

variable {same : (op : Op) → Ret op → Ret op → Prop} {bad : Op → Prop} {p : Prog Op Ret α}

theorem Blind.bind {f : α → Prog Op Ret β} (hp : p.Blind same) (hf : ∀ a, (f a).Blind same) :
    (p >>= f).Blind same := by
  induction p with
  | done a => exact hf a
  | call op k ih =>
      obtain ⟨hsame, hrest⟩ := hp
      refine ⟨?_, fun r => ih r (hrest r)⟩
      intro r r' h
      show k r >>= f = k r' >>= f
      rw [hsame r r' h]

/-- Where the answers differ, the program does not ask, so it cannot make anything of the difference. -/
theorem Avoids.blind (h : p.Avoids bad) (hsame : ∀ op r r', ¬ bad op → same op r r' → r = r') : p.Blind same := by
  induction p with
  | done a => trivial
  | call op k ih =>
      refine ⟨?_, fun r => ih r (h.2 r)⟩
      intro r r' hr
      rw [hsame op r r' h.1 hr]

end Blind

end Prog

namespace Act

/-- The same for a program that may raise; a raise is a result like any other here. -/
def Blind (same : (op : Op) → Ret op → Ret op → Prop) (x : Act Op Ret ε α) : Prop := x.run.Blind same

variable {same : (op : Op) → Ret op → Ret op → Prop} {bad : Op → Prop} {x : Act Op Ret ε α}

theorem Blind.bind {f : α → Act Op Ret ε β} (hx : Blind same x) (hf : ∀ a, Blind same (f a)) :
    Blind same (x >>= f) := by
  apply Prog.Blind.bind hx
  intro r
  cases r with
  | ok a => exact hf a
  | error e => exact trivial

theorem Blind.attempt (hx : Blind same x) : Blind same (attempt x) := Prog.Blind.bind hx fun _ => trivial

end Act

namespace Method

/-- The same for a method, whatever its locals are. -/
def Blind (same : (op : Op) → Ret op → Ret op → Prop) (x : Method Op Ret ε σ α) : Prop := ∀ s, (x.run s).Blind same

variable {same : (op : Op) → Ret op → Ret op → Prop}

theorem Blind.bind {x : Method Op Ret ε σ α} {f : α → Method Op Ret ε σ β} (hx : Blind same x)
    (hf : ∀ a, Blind same (f a)) : Blind same (x >>= f) := by
  intro s
  apply Prog.Blind.bind (hx s)
  rintro ⟨r, t⟩
  cases r with
  | ok a => exact hf a t
  | error e => exact trivial

theorem Blind.lift {x : Act Op Ret ε α} (h : x.Blind same) : Blind same (Method.lift x : Method Op Ret ε σ α) :=
  fun _ => Prog.Blind.bind h fun _ => trivial

end Method

/-! ## Refinement -/

section Refinement

variable {S : Prog.Sem Op Ret V} {T : Prog.Sem Op Ret W} {note : γ → (op : Op) → Ret op → γ}
  {L Obl : γ → (op : Op) → Ret op → Prop} {same : (op : Op) → Ret op → Ret op → Prop} {R : γ → V → W → Prop}

/-- **Refinement.** What `S` does in an operation that the program is entitled to, `T` can do, with an answer
that is the same to the program.  Then every run under `S` is a run under `T`, to the same rest program
and related worlds. -/
theorem Guarantees.refines
    (hstep : ∀ g v w op r v', R g v w → S v op r v' →
      L g op r ∧ (Obl g op r → ∃ r' w', T w op r' w' ∧ same op r r' ∧ R (note g op r) v' w'))
    {p q : Prog Op Ret α} {g : γ} {v v' : V} {w : W} (hp : Guarantees note L Obl p g) (hb : p.Blind same)
    (hR : R g v w) (hr : Prog.Reach S p v q v') : ∃ g' w', Prog.Reach T p w q w' ∧ R g' v' w' := by
  induction hr generalizing g w with
  | refl p v => exact ⟨g, w, .refl p w, hR⟩
  | @step op k r q v v₁ v' hs _ ih =>
      obtain ⟨hsame, hrest⟩ := hb
      obtain ⟨hL, hfollow⟩ := hstep g v w op r v₁ hR hs
      obtain ⟨hobl, hp'⟩ := hp.step hL
      obtain ⟨r', w₁, hT, heq, hR'⟩ := hfollow hobl
      obtain ⟨g', w', hreach, hend⟩ := ih hp' (hrest r) hR'
      rw [hsame r r' heq] at hreach
      exact ⟨g', w', .step hT hreach, hend⟩

end Refinement

end TradeBroker.Lib
