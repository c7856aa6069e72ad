import UnBoxer.Runs
import Mathlib.Logic.Function.Basic

namespace UnBoxer.Threads

open UnBoxer.Runs

variable {ι σ π ε : Type}

/-- Threads that share a state, each at a place of its own. -/
structure Pool (ι σ π : Type) where
  shared : σ
  place : ι → π

/-- One thread takes a step, or something else changes the shared state. -/
inductive Step [DecidableEq ι] (own : ι → σ → π → ε → σ → π → Prop) (other : σ → ε → σ → Prop) :
    Pool ι σ π → ε → Pool ι σ π → Prop
  | thread {s : Pool ι σ π} {i : ι} {e : ε} {g : σ} {l : π} :
      own i s.shared (s.place i) e g l → Step own other s e ⟨g, Function.update s.place i l⟩
  | other {s : Pool ι σ π} {e : ε} {g : σ} :
      other s.shared e g → Step own other s e ⟨g, s.place⟩

def Solo (own : ι → σ → π → ε → σ → π → Prop) (i : ι) (x : σ × π) (e : ε) (y : σ × π) : Prop :=
  own i x.1 x.2 e y.1 y.2

theorem solo {own : ι → σ → π → ε → σ → π → Prop} {i : ι} {g g' : σ} {l l' : π} {e : ε}
    (h : own i g l e g' l') : Solo own i (g, l) e (g', l') := h

/-- What one thread does by itself is a run of all of them. -/
theorem solo_run [DecidableEq ι] {own : ι → σ → π → ε → σ → π → Prop} {other : σ → ε → σ → Prop}
    {i : ι} {x y : σ × π} {es : List ε} (h : Run (Solo own i) x es y) {p : ι → π}
    (hp : p i = x.2) :
    Run (Step own other) ⟨x.1, p⟩ es ⟨y.1, Function.update p i y.2⟩ := by
  induction h with
  | nil =>
    rw [← hp, Function.update_eq_self]
    exact .nil
  | @snoc es e y z _ he ih =>
    have hstep : Step own other ⟨y.1, Function.update p i y.2⟩ e
        ⟨z.1, Function.update (Function.update p i y.2) i z.2⟩ := by
      refine .thread ?_
      dsimp only
      rwa [Function.update_self]
    rw [Function.update_idem] at hstep
    exact ih.snoc hstep

/-- An assertion for each thread, about its place, the shared state and the events
so far, holds in every run when it is kept by the thread's own steps and not
disturbed by those of the others. -/
theorem assertion [DecidableEq ι] {own : ι → σ → π → ε → σ → π → Prop} {other : σ → ε → σ → Prop}
    {A : ι → List ε → σ → π → Prop} {s s' : Pool ι σ π} {es : List ε}
    (h : Run (Step own other) s es s') (hs : ∀ i, A i [] s.shared (s.place i))
    (hown : ∀ i es g l e g' l', A i es g l → own i g l e g' l' → A i (es ++ [e]) g' l')
    (hstable : ∀ i j es g l m e g' l', i ≠ j → A i es g l → A j es g m → own i g l e g' l' →
      A j (es ++ [e]) g' m)
    (hother : ∀ i es g l e g', A i es g l → other g e g' → A i (es ++ [e]) g' l) (i : ι) :
    A i es s'.shared (s'.place i) := by
  refine h.history (I := fun es s => ∀ i, A i es s.shared (s.place i)) hs ?_ i
  intro es s e s' hA hstep j
  cases hstep with
  | @thread i _ g l hi =>
    dsimp only
    by_cases hj : j = i
    · subst hj
      rw [Function.update_self]
      exact hown _ _ _ _ _ _ _ (hA j) hi
    · rw [Function.update_of_ne hj]
      exact hstable i j _ _ _ _ _ _ _ (Ne.symm hj) (hA i) (hA j) hi
  | other ho => exact hother _ _ _ _ _ _ (hA j) ho

end UnBoxer.Threads
