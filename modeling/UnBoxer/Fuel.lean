import Mathlib.Tactic.Common

namespace UnBoxer.Fuel

variable {β γ : Type*} {f g : ℕ → Option β} {b c : β}

/-- With enough fuel the computation ends, and with this result. -/
def Returns (f : ℕ → Option β) (b : β) : Prop := ∃ n, ∀ fuel, n ≤ fuel → f fuel = some b

theorem returns_of_eq (h : ∀ fuel, f fuel = some b) : Returns f b := ⟨0, fun fuel _ => h fuel⟩

theorem Returns.of_succ (h : Returns (fun fuel => f (fuel + 1)) b) : Returns f b := by
  obtain ⟨n, hn⟩ := h
  refine ⟨n + 1, fun fuel hf => ?_⟩
  cases fuel with
  | zero => omega
  | succ k => exact hn k (by omega)

theorem Returns.congr (h : Returns f b) (hfg : ∀ fuel, g fuel = f fuel) : Returns g b := by
  obtain ⟨n, hn⟩ := h
  exact ⟨n, fun fuel hf => (hfg fuel).trans (hn fuel hf)⟩

/-- A computation that first runs `f`, and goes on as `g` when that ends with `b`. -/
theorem Returns.after {g h : ℕ → Option γ} {c : γ} (hf : Returns f b) (hg : Returns g c)
    (hh : ∀ fuel, f fuel = some b → h fuel = g fuel) : Returns h c := by
  obtain ⟨n, hn⟩ := hf
  obtain ⟨k, hk⟩ := hg
  exact ⟨n + k, fun fuel hfuel => (hh fuel (hn fuel (by omega))).trans (hk fuel (by omega))⟩

theorem Returns.after₂ {δ : Type*} {f' : ℕ → Option δ} {b' : δ} {g h : ℕ → Option γ} {c : γ}
    (hf : Returns f b) (hf' : Returns f' b') (hg : Returns g c)
    (hh : ∀ fuel, f fuel = some b → f' fuel = some b' → h fuel = g fuel) : Returns h c := by
  obtain ⟨n, hn⟩ := hf
  obtain ⟨n', hn'⟩ := hf'
  obtain ⟨k, hk⟩ := hg
  refine ⟨n + n' + k, fun fuel hfuel => ?_⟩
  rw [hh fuel (hn fuel (by omega)) (hn' fuel (by omega)), hk fuel (by omega)]

theorem Returns.bind {g : ℕ → β → Option γ} {c : γ} (hf : Returns f b)
    (hg : Returns (fun fuel => g fuel b) c) : Returns (fun fuel => (f fuel).bind (g fuel)) c := by
  obtain ⟨n, hn⟩ := hf
  obtain ⟨k, hk⟩ := hg
  refine ⟨n + k, fun fuel hfuel => ?_⟩
  change (f fuel).bind (g fuel) = some c
  rw [hn fuel (by omega), Option.bind_some]
  exact hk fuel (by omega)

theorem Returns.map {h : β → γ} (hf : Returns f b) : Returns (fun fuel => (f fuel).map h) (h b) := by
  obtain ⟨n, hn⟩ := hf
  refine ⟨n, fun fuel hfuel => ?_⟩
  change (f fuel).map h = some (h b)
  rw [hn fuel hfuel, Option.map_some]

theorem Returns.unique (hb : Returns f b) (hc : Returns f c) : b = c := by
  obtain ⟨n, hn⟩ := hb
  obtain ⟨k, hk⟩ := hc
  have h := hn (n + k) (by omega)
  rw [hk (n + k) (by omega)] at h
  exact (Option.some.inj h).symm

end UnBoxer.Fuel
