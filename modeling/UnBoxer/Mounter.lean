import UnBoxer.Rsd

namespace UnBoxer.Mounter

open UnBoxer.Threads UnBoxer.Runs UnBoxer.Rsd

variable {P : Type}

/-- The device: whether an image is mounted, how often one has been since the
start, and whether a call has been told so. -/
structure Device where
  mounted : Bool
  mounts : Nat
  succeeded : Bool
  deriving DecidableEq

structure Shared (P : Type) where
  globals : Globals P
  device : Device

/-- Where a call of `mount_personalized_ddi_rppairing` stands. The places inside of
the connection procedures are those of the calls of these; from `acquiring` on the
count says how often an image had been mounted when the call saw none. -/
inductive Stage (P : Type) where
  | idle
  | lockdown (l : Place P)
  | chipID
  | mounter (l : Place P)
  | listing
  | acquiring (seen : Nat) (l : Place P)
  | requesting (seen : Nat)
  | applied (seen : Nat)
  | returned (code : Nat)

structure Call (P : Type) where
  stage : Stage P
  late : Bool

/-- What is worth noting of a step: that a call is made, sends its request or
returns, with an error of what it does before the request or otherwise, and that
the device mounts an image for it. -/
inductive Event where
  | made (i : Nat)
  | silent (i : Nat)
  | sent (i : Nat)
  | mounted (i : Nat)
  | failed (i : Nat) (code : Nat)
  | returned (i : Nat) (code : Nat)
  | configured

def Shared.setGlobals (s : Shared P) (g : Globals P) : Shared P := { s with globals := g }

def Shared.release (s : Shared P) : Shared P :=
  { s with globals := { s.globals with owner := none } }

abbrev Connect (p : Procedure) (i : Nat) (s : Shared P) (l : Place P) (e : Rsd.Event P)
    (s' : Shared P) (l' : Place P) : Prop :=
  ∃ g, CallStep (fun _ => p) i s.globals l e g l' ∧ s' = s.setGlobals g

/-- A step of the call `i`, from one lock or await point to the next. -/
inductive CallStep (i : Nat) : Shared P → Call P → Event → Shared P → Call P → Prop
  | make {s : Shared P} {b : Bool} :
      CallStep i s ⟨.idle, b⟩ (.made i) s ⟨.lockdown .called, s.device.succeeded⟩
  | lockdown {s s' : Shared P} {b : Bool} {l l' : Place P} {e : Rsd.Event P} :
      Connect .connectToRsdServices i s l e s' l' → l' ≠ .returned →
      CallStep i s ⟨.lockdown l, b⟩ (.silent i) s' ⟨.lockdown l', b⟩
  | lockdownOk {s s' : Shared P} {b : Bool} {l l' : Place P} {c : CachedRsdConnection P} :
      Connect .connectToRsdServices i s l (.served i c) s' l' →
      CallStep i s ⟨.lockdown l, b⟩ (.silent i) s' ⟨.chipID, b⟩
  | lockdownErr {s s' : Shared P} {b : Bool} {l : Place P} {e : Rsd.Event P} :
      Connect .connectToRsdServices i s l e s' .returned → (∀ c, e ≠ .served i c) →
      CallStep i s ⟨.lockdown l, b⟩ (.failed i 4) s' ⟨.returned 4, b⟩
  | chipID {s : Shared P} {b : Bool} :
      CallStep i s ⟨.chipID, b⟩ (.silent i) s ⟨.mounter .called, b⟩
  | chipIDErr {s : Shared P} {b : Bool} :
      CallStep i s ⟨.chipID, b⟩ (.failed i 5) s ⟨.returned 5, b⟩
  | mounter {s s' : Shared P} {b : Bool} {l l' : Place P} {e : Rsd.Event P} :
      Connect .connectToRsdServices i s l e s' l' → l' ≠ .returned →
      CallStep i s ⟨.mounter l, b⟩ (.silent i) s' ⟨.mounter l', b⟩
  | mounterOk {s s' : Shared P} {b : Bool} {l l' : Place P} {c : CachedRsdConnection P} :
      Connect .connectToRsdServices i s l (.served i c) s' l' →
      CallStep i s ⟨.mounter l, b⟩ (.silent i) s' ⟨.listing, b⟩
  | mounterErr {s s' : Shared P} {b : Bool} {l : Place P} {e : Rsd.Event P} :
      Connect .connectToRsdServices i s l e s' .returned → (∀ c, e ≠ .served i c) →
      CallStep i s ⟨.mounter l, b⟩ (.failed i 6) s' ⟨.returned 6, b⟩
  | listErr {s : Shared P} {b : Bool} :
      CallStep i s ⟨.listing, b⟩ (.failed i 6) s ⟨.returned 6, b⟩
  | listed {s : Shared P} {b : Bool} : s.device.mounted = true →
      CallStep i s ⟨.listing, b⟩ (.returned i 0) s ⟨.returned 0, b⟩
  | listedNone {s : Shared P} {b : Bool} : s.device.mounted = false →
      CallStep i s ⟨.listing, b⟩ (.silent i) s ⟨.acquiring s.device.mounts .called, b⟩
  | acquire {s s' : Shared P} {b : Bool} {n : Nat} {l l' : Place P} {e : Rsd.Event P} :
      Connect .getOrCreate i s l e s' l' → (∀ c, l ≠ .holding c) → l' ≠ .returned →
      CallStep i s ⟨.acquiring n l, b⟩ (.silent i) s' ⟨.acquiring n l', b⟩
  | acquireErr {s s' : Shared P} {b : Bool} {n : Nat} {l : Place P} {e : Rsd.Event P} :
      Connect .getOrCreate i s l e s' .returned → (∀ c, l ≠ .holding c) →
      CallStep i s ⟨.acquiring n l, b⟩ (.failed i 6) s' ⟨.returned 6, b⟩
  | send {s : Shared P} {b : Bool} {n : Nat} {c : CachedRsdConnection P} :
      CallStep i s ⟨.acquiring n (.holding c), b⟩ (.sent i) s ⟨.requesting n, b⟩
  | mount {s : Shared P} {b : Bool} {n : Nat} :
      CallStep i s ⟨.requesting n, b⟩ (.mounted i)
        { s with device := { s.device with mounted := true, mounts := s.device.mounts + 1 } }
        ⟨.applied n, b⟩
  | mountErr {s : Shared P} {b : Bool} {n : Nat} :
      CallStep i s ⟨.requesting n, b⟩ (.returned i 8) s.release ⟨.returned 8, b⟩
  | answer {s : Shared P} {b : Bool} {n : Nat} :
      CallStep i s ⟨.applied n, b⟩ (.returned i 0)
        { s.release with device := { s.device with succeeded := true } } ⟨.returned 0, b⟩
  | answerErr {s : Shared P} {b : Bool} {n : Nat} :
      CallStep i s ⟨.applied n, b⟩ (.returned i 8) s.release ⟨.returned 8, b⟩

inductive Configure : Shared P → Event → Shared P → Prop
  | set {s : Shared P} {p : P} : Configure s .configured (s.setGlobals (setOnce s.globals p))

abbrev State (P : Type) := Pool Nat (Shared P) (Call P)

abbrev Step : State P → Event → State P → Prop := Threads.Step CallStep Configure

def unmade (g : Globals P) (mounted : Bool) : State P :=
  ⟨⟨g, ⟨mounted, 0, false⟩⟩, fun _ => ⟨.idle, false⟩⟩

section Law

/-- A request is sent only while no image is mounted; and a call that was made after
a successful mount sends none and returns nothing but 0. -/
def Lawful (s : State P) : Event → Prop
  | .sent i => s.shared.device.mounted = false ∧ (s.place i).late = false
  | .failed i _ => (s.place i).late = false
  | .returned i code => (s.place i).late = true → code = 0
  | _ => True

/-- How often an image had been mounted when the call saw that there was none. -/
def seen : Stage P → Option Nat
  | .acquiring n _ => some n
  | .requesting n => some n
  | .applied n => some n
  | _ => none

/-- No image gets mounted between the moment when a call sees none and the one when
it sends its request; and in a call that was made after a successful mount nothing
fails that is needed to see it. -/
def Fresh (s : State P) : Event → Prop
  | .sent i => seen (s.place i).stage = some s.shared.device.mounts
  | .failed i _ => (s.place i).late = false
  | _ => True

structure Sound (d : Device) (t : Call P) : Prop where
  succeeded : d.succeeded = true → d.mounted = true
  late : t.late = true → d.mounted = true
  count : ∀ n, seen t.stage = some n → n ≤ d.mounts ∧ (d.mounted = true ↔ n < d.mounts) ∧
    t.late = false
  applied : ∀ n, t.stage = .applied n → d.mounted = true

def Device.mount (d : Device) : Device := { d with mounted := true, mounts := d.mounts + 1 }

inductive Changes (d : Device) : Device → Prop
  | same : Changes d d
  | mount : Changes d d.mount
  | succeed : d.mounted = true → Changes d { d with succeeded := true }

variable {i : Nat} {s s' : Shared P} {t t' : Call P} {d d' : Device} {e : Event}

theorem Sound.changes (h : Sound d t) (hc : Changes d d') : Sound d' t := by
  cases hc with
  | same => exact h
  | mount =>
    refine ⟨fun _ => rfl, fun _ => rfl, fun n hn => ?_, fun _ _ => rfl⟩
    obtain ⟨hle, _, hlate⟩ := h.count n hn
    exact ⟨Nat.le_succ_of_le hle, iff_of_true rfl (Nat.lt_succ_of_le hle), hlate⟩
  | succeed hm => exact ⟨fun _ => hm, h.late, h.count, h.applied⟩

theorem Sound.unseen {g : Stage P} {b : Bool} (h : Sound d t) (hb : b = true → d.mounted = true)
    (hs : seen g = none) : Sound d ⟨g, b⟩ := by
  refine ⟨h.succeeded, hb, fun n hn => ?_, fun n hn => ?_⟩
  · rw [hs] at hn
    cases hn
  · rw [show g = .applied n from hn] at hs
    cases hs

theorem connect_device {p : Procedure} {l l' : Place P} {x : Rsd.Event P}
    (h : Connect p i s l x s' l') : s'.device = s.device := by
  obtain ⟨g, _, rfl⟩ := h
  rfl

theorem sound_own (h : Sound s.device t) (hs : CallStep i s t e s' t') :
    Changes s.device s'.device ∧ Sound s'.device t' := by
  cases hs with
  | make => exact ⟨.same, h.unseen h.succeeded rfl⟩
  | lockdown hc _ | mounter hc _ | lockdownOk hc | mounterOk hc | lockdownErr hc _
  | mounterErr hc _ | acquireErr hc _ =>
    rw [connect_device hc]
    exact ⟨.same, h.unseen h.late rfl⟩
  | chipID | chipIDErr | listErr | listed _ => exact ⟨.same, h.unseen h.late rfl⟩
  | @listedNone b hm =>
    refine ⟨.same, h.succeeded, h.late, fun n hn => ?_, fun n hn => by cases hn⟩
    obtain rfl := Option.some.inj hn
    refine ⟨Nat.le_refl _, ?_, ?_⟩
    · simp [hm]
    · cases b with
      | false => rfl
      | true =>
        have hl := h.late rfl
        rw [hm] at hl
        cases hl
  | acquire hc _ _ =>
    rw [connect_device hc]
    exact ⟨.same, h.succeeded, h.late, h.count, fun n hn => by cases hn⟩
  | send => exact ⟨.same, h.succeeded, h.late, h.count, fun n hn => by cases hn⟩
  | mount =>
    have hm := h.changes .mount
    exact ⟨.mount, hm.succeeded, hm.late, hm.count, fun _ _ => rfl⟩
  | mountErr | answerErr => exact ⟨.same, h.unseen h.late rfl⟩
  | @answer b n =>
    have hm := h.applied n rfl
    exact ⟨.succeed hm, (h.changes (.succeed hm)).unseen (fun _ => hm) rfl⟩

/-- A step obeys the law exactly when it is fresh. -/
theorem own_lawful {p : State P} (h : Sound p.shared.device (p.place i))
    (hs : CallStep i p.shared (p.place i) e s' t') : Lawful p e ↔ Fresh p e := by
  generalize hg : p.shared = g at h hs
  generalize ht : p.place i = t at h hs
  cases hs with
  | @send b n c =>
    obtain ⟨hle, hiff, hlate⟩ := h.count n rfl
    unfold Lawful Fresh
    dsimp only
    rw [ht, hg]
    dsimp only [seen]
    rw [Option.some.injEq]
    constructor
    · rintro ⟨hm, _⟩
      have hnot : ¬ n < s'.device.mounts := by
        rw [← hiff, hm]
        exact Bool.false_ne_true
      omega
    · intro hn
      refine ⟨?_, hlate⟩
      rw [← Bool.not_eq_true, hiff]
      omega
  | mountErr | answerErr =>
    obtain ⟨_, _, hlate⟩ := h.count _ rfl
    refine iff_of_true (fun hl => ?_) trivial
    rw [ht, hlate] at hl
    cases hl
  | answer | listed _ => exact iff_of_true (fun _ => rfl) trivial
  | _ => exact Iff.rfl

theorem step_sound {p p' : State P} (h : ∀ j, Sound p.shared.device (p.place j))
    (hs : Step p e p') :
    (∀ j, Sound p'.shared.device (p'.place j)) ∧ (Lawful p e ↔ Fresh p e) := by
  cases hs with
  | @thread k _ g l hk =>
    obtain ⟨hc, hsound⟩ := sound_own (h k) hk
    refine ⟨fun j => ?_, own_lawful (h k) hk⟩
    dsimp only
    by_cases hj : j = k
    · subst hj
      rwa [Function.update_self]
    · rw [Function.update_of_ne hj]
      exact (h j).changes hc
  | other ho =>
    cases ho
    exact ⟨h, Iff.rfl⟩

/-- The runs in which an image is only asked to be mounted while there is none, and
in which later calls see it, are those in which no image gets mounted between what
a call sees and what it sends, and nothing fails in the later calls. -/
theorem mounted_once_iff_fresh (g : Globals P) (mounted : Bool) (es : List Event) (p : State P) :
    Run (fun p e p' => Step p e p' ∧ Lawful p e) (unmade g mounted) es p ↔
      Run (fun p e p' => Step p e p' ∧ Fresh p e) (unmade g mounted) es p := by
  have hstart : ∀ j, Sound (unmade g mounted).shared.device ((unmade g mounted).place j) := by
    intro j
    refine ⟨fun h => ?_, fun h => ?_, fun n h => ?_, fun n h => ?_⟩
    · cases h
    · cases h
    · cases h
    · cases h
  apply run_and_congr (I := fun p => ∀ j, Sound p.shared.device (p.place j)) hstart
  intro p e p' hp hs
  obtain ⟨hp', hiff⟩ := step_sound hp hs
  exact ⟨hiff, fun _ => hp'⟩

end Law

section Example

def cached : CachedRsdConnection Nat := ⟨none, 0⟩

def linked (o : Option Nat) (d : Device) : Shared Nat := ⟨⟨some 0, some cached, o⟩, d⟩

def fresh : Device := ⟨false, 0, false⟩

theorem connect_cached (i : Nat) (d : Device) :
    Connect .connectToRsdServices i (linked none d) .called (.silent i) (linked none d) .waiting ∧
    Connect .connectToRsdServices i (linked none d) .waiting (.silent i) (linked (some i) d)
      (.probing cached) ∧
    Connect .connectToRsdServices i (linked (some i) d) (.probing cached) (.served i cached)
      (linked none d) .returned :=
  ⟨⟨_, .getSome rfl, rfl⟩, ⟨_, .lock rfl rfl, rfl⟩, ⟨_, .reuse rfl, rfl⟩⟩

theorem acquire_cached (i : Nat) (d : Device) :
    Connect .getOrCreate i (linked none d) .called (.silent i) (linked none d) .waiting ∧
    Connect .getOrCreate i (linked none d) .waiting (.silent i) (linked (some i) d)
      (.probing cached) ∧
    Connect .getOrCreate i (linked (some i) d) (.probing cached) (.silent i) (linked (some i) d)
      (.holding cached) :=
  ⟨⟨_, .getSome rfl, rfl⟩, ⟨_, .lock rfl rfl, rfl⟩, ⟨_, .alive rfl, rfl⟩⟩

def looked : Call Nat := ⟨.acquiring 0 .called, false⟩

def guarded : Call Nat := ⟨.acquiring 0 (.holding cached), false⟩

def finished : Call Nat := ⟨.returned 0, false⟩

theorem sees_none (i : Nat) : ∃ es, Run (Solo CallStep i) (linked none fresh, ⟨.idle, false⟩) es
    (linked none fresh, looked) := by
  obtain ⟨hget, hlock, hreuse⟩ := connect_cached i fresh
  exact ⟨_, .cons (solo .make) (.cons (solo (.lockdown hget nofun)) (.cons
    (solo (.lockdown hlock nofun)) (.cons (solo (.lockdownOk hreuse)) (.cons (solo .chipID) (.cons
    (solo (.mounter hget nofun)) (.cons (solo (.mounter hlock nofun)) (.cons
    (solo (.mounterOk hreuse)) (.cons (solo (.listedNone rfl)) .nil))))))))⟩

theorem gets_guard (i : Nat) (d : Device) : ∃ es, Run (Solo CallStep i) (linked none d, looked) es
    (linked (some i) d, guarded) := by
  obtain ⟨hget, hlock, halive⟩ := acquire_cached i d
  exact ⟨_, .cons (solo (.acquire hget nofun nofun)) (.cons (solo (.acquire hlock nofun nofun))
    (.cons (solo (.acquire halive nofun nofun)) .nil))⟩

theorem mounts (i : Nat) : ∃ es, Run (Solo CallStep i) (linked (some i) fresh, guarded) es
    (linked none ⟨true, 1, true⟩, finished) :=
  ⟨_, .cons (solo .send) (.cons (solo .mount) (.cons (solo .answer) .nil))⟩

/-- Two calls find no image one after the other, and both ask for it to be mounted. -/
theorem mounted_twice : ∃ (es : List Event) (p p' : State Nat),
    Run Step (unmade ⟨some 0, some cached, none⟩ false) es p ∧ Step p (.sent 1) p' ∧
      p.shared.device.mounted = true := by
  let idle : Nat → Call Nat := fun _ => ⟨.idle, false⟩
  let both := Function.update (Function.update idle 0 looked) 1 looked
  obtain ⟨es₁, h₁⟩ := sees_none 0
  obtain ⟨es₂, h₂⟩ := sees_none 1
  obtain ⟨es₃, h₃⟩ := gets_guard 0 fresh
  obtain ⟨es₄, h₄⟩ := mounts 0
  obtain ⟨es₅, h₅⟩ := gets_guard 1 ⟨true, 1, true⟩
  have hsee : Run Step (unmade ⟨some 0, some cached, none⟩ false) (es₁ ++ es₂)
      ⟨linked none fresh, both⟩ :=
    Run.append (solo_run h₁ rfl) (solo_run h₂ rfl)
  have hmount : Run Step (⟨linked none fresh, both⟩ : State Nat) (es₃ ++ es₄)
      ⟨linked none ⟨true, 1, true⟩, Function.update (Function.update both 0 guarded) 0 finished⟩ :=
    Run.append (solo_run h₃ rfl) (solo_run h₄ rfl)
  have hguard : Run Step (⟨linked none ⟨true, 1, true⟩,
      Function.update (Function.update both 0 guarded) 0 finished⟩ : State Nat) es₅
      ⟨linked (some 1) ⟨true, 1, true⟩, _⟩ := solo_run h₅ rfl
  exact ⟨_, _, _, (hsee.append hmount).append hguard, .thread (i := 1) .send, rfl⟩

end Example

end UnBoxer.Mounter
