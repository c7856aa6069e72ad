import UnBoxer.RsdSteps

namespace UnBoxer.PairingIdentity

open UnBoxer.Runs UnBoxer.Rsd UnBoxer.RsdSteps

variable {P : Type}

def configured : Event P → Option P
  | .configured p => some p
  | _ => none

/-- The pairing file that was set first. -/
def firstConfigured (es : List (Event P)) : Option P := (es.filterMap configured).head?

theorem firstConfigured_keep {es : List (Event P)} {p : P} (h : firstConfigured es = some p)
    (e : Event P) : firstConfigured (es ++ [e]) = some p := by
  unfold firstConfigured at h ⊢
  rw [List.filterMap_append, List.head?_append, h]
  rfl

theorem firstConfigured_other {es : List (Event P)} {e : Event P} (h : ∀ p, e ≠ .configured p) :
    firstConfigured (es ++ [e]) = firstConfigured es := by
  have hn : configured e = none := by
    cases e with
    | configured p => exact absurd rfl (h p)
    | _ => rfl
  simp [firstConfigured, hn]

theorem firstConfigured_set (es : List (Event P)) (p : P) :
    firstConfigured (es ++ [.configured p]) = some ((firstConfigured es).getD p) := by
  simp only [firstConfigured, List.filterMap_append, List.head?_append]
  cases (es.filterMap configured).head? <;> rfl

/-- Whatever a call has to do with was made with the pairing file that was set first. -/
structure Paired (es : List (Event P)) (g : Globals P) (l : Place P) : Prop where
  file : g.pairingFile = firstConfigured es
  cached : ∀ c, g.connection = some c → firstConfigured es = some c.pairing
  locked : ∀ c, held l = some c → firstConfigured es = some c.pairing
  fresh : ∀ c, carried l = some c → firstConfigured es = some c.pairing
  connecting : ∀ p, l = .connecting p → firstConfigured es = some p

variable {proc : Nat → Procedure} {i j : Nat} {es : List (Event P)} {g g' : Globals P}
  {l l' m : Place P} {e : Event P}

theorem paired_cached (h : Paired es g l) (hs : CallStep proc i g l e g' l')
    {c : CachedRsdConnection P} (hc : g'.connection = some c) :
    firstConfigured es = some c.pairing := by
  cases he : installs e with
  | false => exact h.cached c (step_quiet hs he ▸ hc)
  | true =>
    obtain ⟨⟨c', hl, hg⟩, _⟩ := step_installs hs he
    rw [hg] at hc
    cases hc
    exact h.fresh c hl

theorem paired_own (h : Paired es g l) (hs : CallStep proc i g l e g' l') :
    Paired (es ++ [e]) g' l' := by
  obtain ⟨hfile, he⟩ := step_pairingFile hs
  have hkeep : firstConfigured (es ++ [e]) = firstConfigured es := firstConfigured_other he
  refine ⟨by rw [hfile, h.file, hkeep], fun c hc => ?_, fun c hc => ?_, fun c hc => ?_,
    fun p hp => ?_⟩
  · rw [hkeep]
    exact paired_cached h hs hc
  · rw [hkeep]
    obtain ⟨hl, _⟩ | ⟨_, hg⟩ := step_held hs hc
    · exact h.locked c hl
    · exact paired_cached h hs hg
  · rw [hkeep]
    obtain hl | ⟨p, hl, rfl⟩ := step_carried hs hc
    · exact h.fresh c hl
    · exact h.connecting p hl
  · rw [hkeep, ← h.file]
    exact step_connecting hs hp

theorem paired_stable (hi : Paired es g l) (hj : Paired es g m)
    (hs : CallStep proc i g l e g' l') : Paired (es ++ [e]) g' m := by
  obtain ⟨hfile, he⟩ := step_pairingFile hs
  have hkeep : firstConfigured (es ++ [e]) = firstConfigured es := firstConfigured_other he
  refine ⟨by rw [hfile, hj.file, hkeep], fun c hc => ?_, fun c hc => ?_, fun c hc => ?_,
    fun p hp => ?_⟩
  · rw [hkeep]
    exact paired_cached hi hs hc
  · exact firstConfigured_keep (hj.locked c hc) e
  · exact firstConfigured_keep (hj.fresh c hc) e
  · exact firstConfigured_keep (hj.connecting p hp) e

theorem paired_configure (h : Paired es g l) (hs : Configure g e g') : Paired (es ++ [e]) g' l := by
  cases hs with
  | @set p =>
    refine ⟨?_, fun c hc => firstConfigured_keep (h.cached c hc) _,
      fun c hc => firstConfigured_keep (h.locked c hc) _,
      fun c hc => firstConfigured_keep (h.fresh c hc) _,
      fun p hp => firstConfigured_keep (h.connecting p hp) _⟩
    rw [firstConfigured_set, ← h.file]
    rfl

structure Started (s : State P) : Prop where
  pairingFile : s.shared.pairingFile = none
  connection : s.shared.connection = none
  called : ∀ i, s.place i = .called

theorem served_first {s s' t : State P} (h0 : Started s) (h : Run (Rsd.Step proc) s es s')
    {c : CachedRsdConnection P} (ht : Rsd.Step proc s' (.served i c) t) :
    firstConfigured es = some c.pairing := by
  have hpaired : ∀ i, Paired es s'.shared (s'.place i) := by
    refine Threads.assertion (A := fun _ => Paired) h (fun i => ?_) (fun _ _ _ _ _ _ _ => paired_own)
      (fun _ _ _ _ _ _ _ _ _ _ => paired_stable) (fun _ _ _ _ _ _ => paired_configure)
    rw [h0.called i]
    refine ⟨h0.pairingFile, fun c hc => ?_, nofun, nofun, nofun⟩
    rw [h0.connection] at hc
    cases hc
  generalize hr : Event.served i c = e at ht
  cases ht with
  | @thread k _ g l hk => exact (hpaired k).locked c (step_served hk hr.symm)
  | other hk =>
    cases hk
    cases hr

end UnBoxer.PairingIdentity
