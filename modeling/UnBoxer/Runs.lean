import Mathlib.Data.List.Induction

namespace UnBoxer.Runs

variable {σ ι : Type}

/-- From `s` the system takes the steps `is` one after the other to `s'`. -/
inductive Run (step : σ → ι → σ → Prop) (s : σ) : List ι → σ → Prop
  | nil : Run step s [] s
  | snoc {is : List ι} {i : ι} {s' s'' : σ} :
      Run step s is s' → step s' i s'' → Run step s (is ++ [i]) s''

variable {step : σ → ι → σ → Prop} {s s' : σ} {is : List ι}

theorem Run.cons {i : ι} {s'' : σ} (hi : step s i s') (h : Run step s' is s'') :
    Run step s (i :: is) s'' := by
  induction h with
  | nil => exact .snoc .nil hi
  | snoc _ hj ih => exact .snoc ih hj

theorem Run.append {js : List ι} {s'' : σ} (h : Run step s is s') (h' : Run step s' js s'') :
    Run step s (is ++ js) s'' := by
  induction h' with
  | nil => rwa [List.append_nil]
  | snoc _ hj ih =>
    rw [← List.append_assoc]
    exact .snoc ih hj

/-- What holds at the start and is kept by every step holds after every run; it
may speak of the steps taken so far. -/
theorem Run.history {I : List ι → σ → Prop} (h : Run step s is s') (hs : I [] s)
    (hstep : ∀ is s i s', I is s → step s i s' → I (is ++ [i]) s') : I is s' := by
  induction h with
  | nil => exact hs
  | snoc _ hi ih => exact hstep _ _ _ _ ih hi

theorem Run.invariant {I : σ → Prop} (h : Run step s is s') (hs : I s)
    (hstep : ∀ s i s', I s → step s i s' → I s') : I s' :=
  h.history (I := fun _ => I) hs fun _ => hstep

theorem Run.split {js ks : List ι} {i : ι} (h : Run step s is s') (he : is = js ++ i :: ks) :
    ∃ t t', Run step s js t ∧ step t i t' := by
  induction h generalizing ks with
  | nil => simp at he
  | @snoc is j t t' ht hj ih =>
    induction ks using List.reverseRecOn with
    | nil =>
      obtain ⟨rfl, hij⟩ := List.append_inj' he rfl
      obtain rfl := List.singleton_inj.mp hij
      exact ⟨t, t', ht, hj⟩
    | append_singleton ks k _ =>
      rw [← List.cons_append, ← List.append_assoc] at he
      exact ih (List.append_inj' he rfl).1

/-- Where an invariant makes every step one of another system too, so it makes every run. -/
theorem Run.convert {I : σ → Prop} {step' : σ → ι → σ → Prop} (h : Run step s is s') (hs : I s)
    (hstep : ∀ s i s', I s → step s i s' → I s' ∧ step' s i s') : Run step' s is s' := by
  suffices hr : I s' ∧ Run step' s is s' from hr.2
  induction h with
  | nil => exact ⟨hs, .nil⟩
  | snoc _ hi ih =>
    obtain ⟨hI, hstep'⟩ := hstep _ _ _ ih.1 hi
    exact ⟨hI, .snoc ih.2 hstep'⟩

/-- Two conditions on the steps that an invariant makes the same one allow the same runs. -/
theorem run_and_congr {I : σ → Prop} {P Q : σ → ι → σ → Prop} (hs : I s)
    (hstep : ∀ s i s', I s → step s i s' → (P s i s' ↔ Q s i s') ∧ (Q s i s' → I s')) :
    Run (fun s i s' => step s i s' ∧ P s i s') s is s' ↔
      Run (fun s i s' => step s i s' ∧ Q s i s') s is s' := by
  constructor
  · intro h
    refine h.convert hs fun s i s' hI hi => ?_
    obtain ⟨hiff, hkeep⟩ := hstep s i s' hI hi.1
    have hq := hiff.mp hi.2
    exact ⟨hkeep hq, hi.1, hq⟩
  · intro h
    refine h.convert hs fun s i s' hI hi => ?_
    obtain ⟨hiff, hkeep⟩ := hstep s i s' hI hi.1
    exact ⟨hkeep hi.2, hi.1, hiff.mpr hi.2⟩

/-- A run seen through a map of states and labels, where some steps are not seen. -/
theorem Run.project {τ κ : Type} {step' : τ → κ → τ → Prop} (f : ι → Option κ) (r : σ → τ)
    (h : Run step s is s')
    (hsome : ∀ s i s' k, step s i s' → f i = some k → step' (r s) k (r s'))
    (hnone : ∀ s i s', step s i s' → f i = none → r s' = r s) :
    Run step' (r s) (is.filterMap f) (r s') := by
  induction h with
  | nil => exact .nil
  | @snoc is i s' s'' _ hi ih =>
    rw [List.filterMap_append]
    cases hf : f i with
    | none => simpa [hf, hnone _ _ _ hi hf] using ih
    | some k => simpa [hf] using ih.snoc (hsome _ _ _ _ hi hf)

end UnBoxer.Runs
