import UnBoxer.Rsd

namespace UnBoxer.RsdSteps

open UnBoxer.Rsd

variable {P : Type}

def caller : Event P → Option Nat
  | .missed i _ => some i
  | .uncreated i => some i
  | .installed i _ => some i
  | .replaced i _ _ => some i
  | .served i _ => some i
  | .silent i => some i
  | .configured _ => none

def installs : Event P → Bool
  | .installed _ _ => true
  | .replaced _ _ _ => true
  | _ => false

def held : Place P → Option (CachedRsdConnection P)
  | .probing c => some c
  | .serving c => some c
  | .holding c => some c
  | _ => none

def carried : Place P → Option (CachedRsdConnection P)
  | .created c => some c
  | .replacing c => some c
  | .setting c => some c
  | _ => none

def looking : Place P → Bool
  | .called => true
  | .waiting => true
  | .probing _ => true
  | _ => false

def searching : Place P → Bool
  | .creating => true
  | .connecting _ => true
  | .created _ => true
  | .replacing _ => true
  | .setting _ => true
  | _ => false

def active (l : Place P) : Bool := looking l || searching l

theorem searching_active {l : Place P} (h : searching l = true) : active l = true := by
  simp [active, h]

@[simp] theorem held_entered (p : Procedure) (c : CachedRsdConnection P) :
    held (entered p c) = some c := by cases p <;> rfl

@[simp] theorem carried_entered (p : Procedure) (c : CachedRsdConnection P) :
    carried (entered p c) = none := by cases p <;> rfl

@[simp] theorem looking_entered (p : Procedure) (c : CachedRsdConnection P) :
    looking (entered p c) = false := by cases p <;> rfl

@[simp] theorem searching_entered (p : Procedure) (c : CachedRsdConnection P) :
    searching (entered p c) = false := by cases p <;> rfl

section Steps

variable {proc : Nat → Procedure} {i : Nat} {g g' : Globals P} {l l' : Place P} {e : Event P}

theorem step_caller (h : CallStep proc i g l e g' l') : caller e = some i := by
  cases h <;> rfl

theorem step_quiet (h : CallStep proc i g l e g' l') (he : installs e = false) :
    g'.connection = g.connection := by
  cases h <;> first | rfl | cases he

theorem step_installs (h : CallStep proc i g l e g' l') (he : installs e = true) :
    (∃ c, carried l = some c ∧ g'.connection = some c) ∧ (g.owner = none ∨ g.connection = none) ∧
      searching l = true ∧ active l' = false := by
  cases h with
  | replace ho _ => exact ⟨⟨_, rfl, rfl⟩, .inl ho, rfl, by simp [active]⟩
  | set hc => exact ⟨⟨_, rfl, rfl⟩, .inr hc, rfl, rfl⟩
  | _ => cases he

theorem step_owner (h : CallStep proc i g l e g' l') :
    g'.owner = g.owner ∨ g.owner = none ∨ ∃ c, held l = some c := by
  cases h with
  | lock ho _ => exact .inr (.inl ho)
  | replace ho _ => exact .inr (.inl ho)
  | enter ho _ => exact .inr (.inl ho)
  | reuse _ => exact .inr (.inr ⟨_, rfl⟩)
  | refused _ => exact .inr (.inr ⟨_, rfl⟩)
  | broken => exact .inr (.inr ⟨_, rfl⟩)
  | serve => exact .inr (.inr ⟨_, rfl⟩)
  | unserved => exact .inr (.inr ⟨_, rfl⟩)
  | dropGuard => exact .inr (.inr ⟨_, rfl⟩)
  | _ => exact .inl rfl

theorem step_held (h : CallStep proc i g l e g' l') {c : CachedRsdConnection P}
    (hc : held l' = some c) :
    (held l = some c ∧ g' = g) ∨ (g'.owner = some i ∧ g'.connection = some c) := by
  cases h with
  | lock _ hconn =>
    cases hc
    exact .inr ⟨rfl, hconn⟩
  | alive _ => exact .inl ⟨hc, rfl⟩
  | replace _ _ =>
    rw [held_entered] at hc
    exact .inr ⟨rfl, hc⟩
  | enter _ hconn =>
    rw [held_entered] at hc
    exact .inr ⟨rfl, hconn.trans hc⟩
  | _ => cases hc

theorem step_carried (h : CallStep proc i g l e g' l') {c : CachedRsdConnection P}
    (hc : carried l' = some c) : carried l = some c ∨ ∃ p, l = .connecting p ∧ c = ⟨some i, p⟩ := by
  cases h with
  | connect =>
    cases hc
    exact .inr ⟨_, rfl, rfl⟩
  | getOld _ => exact .inl hc
  | getEmpty _ => exact .inl hc
  | replace _ _ =>
    rw [carried_entered] at hc
    cases hc
  | enter _ _ =>
    rw [carried_entered] at hc
    cases hc
  | _ => cases hc

theorem step_connecting (h : CallStep proc i g l e g' l') {p : P} (hp : l' = .connecting p) :
    g.pairingFile = some p := by
  cases h with
  | pairing hg =>
    cases hp
    exact hg
  | replace _ _ => cases hproc : proc i <;> simp [entered, hproc] at hp
  | enter _ _ => cases hproc : proc i <;> simp [entered, hproc] at hp
  | _ => cases hp

theorem step_pairingFile (h : CallStep proc i g l e g' l') :
    g'.pairingFile = g.pairingFile ∧ ∀ p, e ≠ .configured p := by
  cases h <;> exact ⟨rfl, nofun⟩

theorem step_looking (h : CallStep proc i g l e g' l') (hl : looking l' = true) :
    looking l = true ∧ ∀ o, e ≠ .missed i o := by
  cases h with
  | getSome _ => exact ⟨rfl, fun _ he => by cases he⟩
  | lock _ _ => exact ⟨rfl, fun _ he => by cases he⟩
  | replace _ _ =>
    rw [looking_entered] at hl
    cases hl
  | enter _ _ =>
    rw [looking_entered] at hl
    cases hl
  | _ => cases hl

theorem step_missed (h : CallStep proc i g l e g' l') {j : Nat}
    {o : Option (CachedRsdConnection P)} (he : e = .missed j o) :
    j = i ∧ looking l = true ∧ searching l' = true ∧
      (o = g.connection ∨ ∃ c, o = some c ∧ held l = some c) := by
  cases h with
  | getNone hc =>
    cases he
    exact ⟨rfl, rfl, rfl, .inl hc.symm⟩
  | broken =>
    cases he
    exact ⟨rfl, rfl, rfl, .inr ⟨_, rfl, rfl⟩⟩
  | _ => cases he

theorem step_searching (h : CallStep proc i g l e g' l') (hl : searching l' = true) :
    searching l = true ∨ ∃ o, e = .missed i o := by
  cases h with
  | getNone _ => exact .inr ⟨_, rfl⟩
  | broken => exact .inr ⟨_, rfl⟩
  | pairing _ => exact .inl rfl
  | connect => exact .inl rfl
  | getOld _ => exact .inl rfl
  | getEmpty _ => exact .inl rfl
  | replace _ _ =>
    rw [searching_entered] at hl
    cases hl
  | enter _ _ =>
    rw [searching_entered] at hl
    cases hl
  | _ => cases hl

theorem step_active (h : CallStep proc i g l e g' l') (hl : active l' = true) :
    active l = true ∧ installs e = false := by
  constructor
  · obtain hl | hl := Bool.or_eq_true_iff.mp hl
    · simp [active, (step_looking h hl).1]
    · obtain hs | ⟨o, ho⟩ := step_searching h hl
      · exact searching_active hs
      · simp [active, (step_missed h ho).2.1]
  · by_contra he
    rw [(step_installs h (by simpa using he)).2.2.2] at hl
    cases hl

theorem step_uncreated (h : CallStep proc i g l e g' l') {j : Nat} (he : e = .uncreated j) :
    j = i ∧ l' = .returned ∧ searching l = true := by
  cases h with
  | noPairing _ =>
    cases he
    exact ⟨rfl, rfl, rfl⟩
  | unreachable =>
    cases he
    exact ⟨rfl, rfl, rfl⟩
  | _ => cases he

theorem step_returned (h : CallStep proc i g l e g' l') : l ≠ .returned := by
  rintro rfl
  cases h

theorem step_replaced (h : CallStep proc i g l e g' l') {j : Nat} {old c : CachedRsdConnection P}
    (he : e = .replaced j old c) : j = i ∧ g.connection = some old ∧ searching l = true := by
  cases h with
  | replace _ hc =>
    cases he
    exact ⟨rfl, hc, rfl⟩
  | _ => cases he

theorem step_served (h : CallStep proc i g l e g' l') {j : Nat} {c : CachedRsdConnection P}
    (he : e = .served j c) : held l = some c := by
  cases h with
  | reuse _ =>
    cases he
    rfl
  | serve =>
    cases he
    rfl
  | _ => cases he

end Steps

end UnBoxer.RsdSteps
