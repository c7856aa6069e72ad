import UnBoxer.RsdSteps

namespace UnBoxer.RsdCache

open UnBoxer.Runs UnBoxer.Rsd UnBoxer.RsdSteps

variable {P : Type}

/-- The events after which the call `i` searches a new connection, with the cache
as it has then found it in their middle. -/
def Searched (i : Nat) (es : List (Event P)) (o : Option (CachedRsdConnection P))
    (since : List (Event P)) : Prop :=
  ∃ before, es = before ++ .missed i o :: since ∧
    ∀ o', .missed i o' ∉ before ∧ .missed i o' ∉ since

structure Sound (i : Nat) (es : List (Event P)) (g : Globals P) (l : Place P) : Prop where
  held_own : ∀ c, held l = some c → g.owner = some i ∧ g.connection = some c
  carried_own : ∀ c, carried l = some c → c.creator = some i
  unborn : active l = true → ∀ c : CachedRsdConnection P,
    c.creator = some i → g.connection ≠ some c ∧ ∀ j, .missed j (some c) ∉ es
  idle : active l = true ∨ .uncreated i ∈ es →
    ∀ e ∈ es, caller e = some i → installs e = false
  unmissed : looking l = true → ∀ o, .missed i o ∉ es
  searched : searching l = true → ∃ o since, Searched i es o since ∧
    ((∀ e ∈ since, installs e = false) ↔ g.connection = o)
  ended : .uncreated i ∈ es → l = .returned

section Assertion

variable {proc : Nat → Procedure} {i j : Nat} {es : List (Event P)} {g g' : Globals P}
  {l l' m : Place P} {e : Event P}

theorem mem_concat {e x : Event P} : x ∈ es ++ [e] ↔ x ∈ es ∨ x = e := by simp

theorem missed_connection (h : Sound i es g l) (hs : CallStep proc i g l e g' l') {k : Nat}
    {o : Option (CachedRsdConnection P)} (he : e = .missed k o) : o = g.connection := by
  obtain ⟨_, _, _, ho | ⟨c, rfl, hc⟩⟩ := step_missed hs he
  · exact ho
  · exact (h.held_own c hc).2.symm

theorem step_connection (h : Sound i es g l) (hs : CallStep proc i g l e g' l') :
    (installs e = false ∧ g'.connection = g.connection) ∨
      (installs e = true ∧ ∃ c : CachedRsdConnection P, c.creator = some i ∧
        g'.connection = some c ∧ searching l = true) := by
  cases he : installs e with
  | false => exact .inl ⟨rfl, step_quiet hs he⟩
  | true =>
    obtain ⟨⟨c, hc, hg⟩, _, hl, _⟩ := step_installs hs he
    exact .inr ⟨rfl, c, h.carried_own c hc, hg, hl⟩

theorem searched_concat {o : Option (CachedRsdConnection P)} {since : List (Event P)}
    (h : Searched i es o since) (he : ∀ o', e ≠ .missed i o') :
    Searched i (es ++ [e]) o (since ++ [e]) := by
  obtain ⟨before, rfl, hn⟩ := h
  refine ⟨before, by simp, fun o' => ⟨(hn o').1, ?_⟩⟩
  rw [mem_concat, not_or]
  exact ⟨(hn o').2, (he o').symm⟩

/-- What a call has found stays comparable with the cache: it is still there as
long as nothing is installed, and never comes back afterwards. -/
theorem searched_step {k : Nat} (hk : Sound k es g m) (hs : CallStep proc k g m e g' l')
    {o : Option (CachedRsdConnection P)} {since : List (Event P)} (h : Searched i es o since)
    (hiff : (∀ e ∈ since, installs e = false) ↔ g.connection = o) :
    (∀ x ∈ since ++ [e], installs x = false) ↔ g'.connection = o := by
  obtain ⟨he, hg⟩ | ⟨he, c, hc, hg, hl⟩ := step_connection hk hs
  · rw [hg, ← hiff]
    simp only [mem_concat]
    constructor
    · exact fun hall x hx => hall x (.inl hx)
    · rintro hall x (hx | rfl)
      · exact hall x hx
      · exact he
  · rw [hg]
    constructor
    · intro hall
      have hx := hall e (mem_concat.mpr (.inr rfl))
      rw [he] at hx
      cases hx
    · rintro rfl
      obtain ⟨before, rfl, _⟩ := h
      exact absurd (by simp) ((hk.unborn (searching_active hl) c hc).2 i)

theorem sound_own (h : Sound i es g l) (hs : CallStep proc i g l e g' l') :
    Sound i (es ++ [e]) g' l' where
  held_own c hc := by
    obtain ⟨hl, rfl⟩ | hg := step_held hs hc
    · exact h.held_own c hl
    · exact hg
  carried_own c hc := by
    obtain hl | ⟨_, _, rfl⟩ := step_carried hs hc
    · exact h.carried_own c hl
    · rfl
  unborn hl c hc := by
    obtain ⟨hl, he⟩ := step_active hs hl
    obtain ⟨hconn, hes⟩ := h.unborn hl c hc
    refine ⟨step_quiet hs he ▸ hconn, fun k => ?_⟩
    rw [mem_concat, not_or]
    refine ⟨hes k, fun he => hconn ?_⟩
    exact (missed_connection h hs he.symm).symm
  idle hl x hx hi := by
    obtain hl | hl := hl
    · obtain ⟨hl, he⟩ := step_active hs hl
      obtain hx | rfl := mem_concat.mp hx
      · exact h.idle (.inl hl) x hx hi
      · exact he
    · obtain hu | hu := mem_concat.mp hl
      · exact absurd (h.ended hu) (step_returned hs)
      · obtain ⟨_, _, hl⟩ := step_uncreated hs hu.symm
        obtain hx | rfl := mem_concat.mp hx
        · exact h.idle (.inl (searching_active hl)) x hx hi
        · rw [← hu]
          rfl
  unmissed hl o := by
    obtain ⟨hl, he⟩ := step_looking hs hl
    rw [mem_concat, not_or]
    exact ⟨h.unmissed hl o, (he o).symm⟩
  searched hl := by
    by_cases hm : ∃ o, e = .missed i o
    · obtain ⟨o, rfl⟩ := hm
      obtain ⟨_, hlook, _⟩ := step_missed hs rfl
      refine ⟨o, [], ⟨es, rfl, fun o' => ⟨h.unmissed hlook o', List.not_mem_nil⟩⟩, ?_⟩
      rw [step_quiet hs rfl, missed_connection h hs rfl]
      simp
    · have hl := (step_searching hs hl).resolve_right hm
      obtain ⟨o, since, ho, hiff⟩ := h.searched hl
      exact ⟨o, since ++ [e], searched_concat ho (not_exists.mp hm), searched_step h hs ho hiff⟩
  ended hu := by
    obtain hu | hu := mem_concat.mp hu
    · exact absurd (h.ended hu) (step_returned hs)
    · exact (step_uncreated hs hu.symm).2.1

theorem sound_stable (hij : i ≠ j) (hi : Sound i es g l) (hj : Sound j es g m)
    (hs : CallStep proc i g l e g' l') : Sound j (es ++ [e]) g' m where
  held_own c hc := by
    obtain ⟨hown, hconn⟩ := hj.held_own c hc
    constructor
    · obtain ho | ho | ⟨c', hc'⟩ := step_owner hs
      · rw [ho, hown]
      · rw [hown] at ho
        cases ho
      · rw [(hi.held_own c' hc').1] at hown
        exact absurd (Option.some.inj hown) hij
    · cases he : installs e with
      | false => rw [step_quiet hs he, hconn]
      | true =>
        obtain ⟨_, ho | ho, _⟩ := step_installs hs he
        · rw [hown] at ho
          cases ho
        · rw [hconn] at ho
          cases ho
  carried_own := hj.carried_own
  unborn hm c hc := by
    obtain ⟨hconn, hes⟩ := hj.unborn hm c hc
    constructor
    · obtain ⟨_, hg⟩ | ⟨_, c', hc', hg, _⟩ := step_connection hi hs
      · rwa [hg]
      · rw [hg]
        rintro h
        rw [Option.some.inj h, hc] at hc'
        exact hij (Option.some.inj hc').symm
    · intro k
      rw [mem_concat, not_or]
      exact ⟨hes k, fun he => hconn (missed_connection hi hs he.symm).symm⟩
  idle hm x hx hxj := by
    have hm : active m = true ∨ .uncreated j ∈ es := by
      apply hm.imp_right
      intro hu
      obtain hu | hu := mem_concat.mp hu
      · exact hu
      · exact absurd (step_uncreated hs hu.symm).1.symm hij
    obtain hx | rfl := mem_concat.mp hx
    · exact hj.idle hm x hx hxj
    · rw [step_caller hs] at hxj
      exact absurd (Option.some.inj hxj) hij
  unmissed hm o := by
    rw [mem_concat, not_or]
    exact ⟨hj.unmissed hm o, fun he => hij (step_missed hs he.symm).1.symm⟩
  searched hm := by
    obtain ⟨o, since, ho, hiff⟩ := hj.searched hm
    have he : ∀ o', e ≠ .missed j o' := fun o' he => hij (step_missed hs he).1.symm
    exact ⟨o, since ++ [e], searched_concat ho he, searched_step hi hs ho hiff⟩
  ended hu := by
    obtain hu | hu := mem_concat.mp hu
    · exact hj.ended hu
    · exact absurd (step_uncreated hs hu.symm).1.symm hij

theorem sound_configure (h : Sound i es g l) (hs : Configure g e g') :
    Sound i (es ++ [e]) g' l := by
  cases hs with
  | @set p =>
    have hmem : ∀ x : Event P, x ≠ .configured p → (x ∈ es ++ [.configured p] ↔ x ∈ es) := by
      intro x hx
      rw [mem_concat, or_iff_left hx]
    refine ⟨h.held_own, h.carried_own, fun hl c hc => ?_, fun hl x hx hxi => ?_, fun hl o => ?_,
      fun hl => ?_, fun hu => h.ended ((hmem _ (by simp)).mp hu)⟩
    · obtain ⟨hconn, hes⟩ := h.unborn hl c hc
      exact ⟨hconn, fun k hk => hes k ((hmem _ (by simp)).mp hk)⟩
    · obtain hx | rfl := mem_concat.mp hx
      · exact h.idle (hl.imp_right (hmem _ (by simp)).mp) x hx hxi
      · cases hxi
    · exact fun ho => h.unmissed hl o ((hmem _ (by simp)).mp ho)
    · obtain ⟨o, since, ho, hiff⟩ := h.searched hl
      refine ⟨o, since ++ [.configured p], searched_concat ho (by simp), ?_⟩
      rw [show (setOnce g p).connection = g.connection from rfl, ← hiff]
      simp [or_imp, forall_and, installs]

theorem searched_unique {o o' : Option (CachedRsdConnection P)} {before since since' : List (Event P)}
    (h : Searched i es o since) (he : es = before ++ .missed i o' :: since') :
    o' = o ∧ since' = since := by
  obtain ⟨before', rfl, hn⟩ := h
  obtain ⟨rest, rfl, hr⟩ | ⟨rest, rfl, hr⟩ := List.append_eq_append_iff.mp he
  · cases rest with
    | nil =>
      cases hr
      exact ⟨rfl, rfl⟩
    | cons x rest =>
      cases hr
      exact absurd (by simp) (hn o').2
  · cases rest with
    | nil =>
      cases hr
      exact ⟨rfl, rfl⟩
    | cons x rest =>
      cases hr
      exact absurd (by simp) (hn o').1

end Assertion

section Law

structure Initial (s : State P) : Prop where
  called : ∀ i, s.place i = .called
  former : ∀ c, s.shared.connection = some c → c.creator = none

/-- A connection is only replaced by a call that has itself seen it fail; a call
that fails to connect leaves the cache alone; and a service that is returned has
been opened on the cached connection. -/
structure Lawful (proc : Nat → Procedure) (es : List (Event P)) (s : State P) : Prop where
  replaced : ∀ before i old c after, es = before ++ .replaced i old c :: after →
    .missed i (some old) ∈ before
  uncreated : ∀ i, .uncreated i ∈ es → ∀ e ∈ es, caller e = some i → installs e = false
  served : ∀ i c t, Step proc s (.served i c) t → s.shared.connection = some c

/-- No connection gets into the cache between the moment when a call finds none
that is usable and the one when it replaces what is there then. -/
def Undisturbed (es : List (Event P)) : Prop :=
  ∀ before i o since old c after,
    es = (before ++ .missed i o :: since) ++ .replaced i old c :: after →
      ∀ e ∈ since, installs e = false

variable {proc : Nat → Procedure} {s s' : State P} {es : List (Event P)}

theorem sound_run (h0 : Initial s) (h : Run (Step proc) s es s') (i : Nat) :
    Sound i es s'.shared (s'.place i) := by
  refine Threads.assertion h (fun i => ?_) (fun i _ _ _ _ _ _ => sound_own)
    (fun i j _ _ _ _ _ _ _ => sound_stable) (fun i _ _ _ _ _ => sound_configure) i
  rw [h0.called i]
  refine ⟨nofun, nofun, fun _ c hc => ⟨fun hs => ?_, fun _ => List.not_mem_nil⟩,
    fun _ e he => absurd he List.not_mem_nil, fun _ _ => List.not_mem_nil, nofun, nofun⟩
  rw [h0.former c hs] at hc
  cases hc

theorem replaced_run (h0 : Initial s) (h : Run (Step proc) s es s') {before after : List (Event P)}
    {i : Nat} {old c : CachedRsdConnection P} (he : es = before ++ .replaced i old c :: after) :
    ∃ o since, Searched i before o since ∧
      ((∀ e ∈ since, installs e = false) ↔ some old = o) := by
  obtain ⟨t, t', ht, hstep⟩ := h.split he
  generalize hr : Event.replaced i old c = e at hstep
  cases hstep with
  | @thread k _ g l hk =>
    obtain ⟨rfl, hc, hs⟩ := step_replaced hk hr.symm
    obtain ⟨o, since, ho, hiff⟩ := (sound_run h0 ht i).searched hs
    exact ⟨o, since, ho, hc ▸ hiff⟩
  | other hk =>
    cases hk
    cases hr

/-- The runs that obey the law are those in which nobody replaces a connection
after another one has got into the cache unnoticed. -/
theorem lawful_iff_undisturbed (h0 : Initial s) (h : Run (Step proc) s es s') :
    Lawful proc es s' ↔ Undisturbed es := by
  constructor
  · intro hl before i o since old c after he
    obtain ⟨o', since', ho, hiff⟩ := replaced_run h0 h he
    obtain ⟨rfl, rfl⟩ := searched_unique ho rfl
    apply hiff.mpr
    obtain ⟨a, b, hab⟩ := List.append_of_mem (hl.replaced _ i old c after he)
    exact (searched_unique ho hab).1
  · intro hu
    refine ⟨fun before i old c after he => ?_, fun i hi => (sound_run h0 h i).idle (.inr hi),
      fun i c t hstep => ?_⟩
    · obtain ⟨o, since, ho, hiff⟩ := replaced_run h0 h he
      obtain ⟨before', hb, _⟩ := ho
      have hold := hiff.mp (hu before' i o since old c after (hb ▸ he))
      rw [hb, hold]
      simp
    · generalize hr : Event.served i c = e at hstep
      cases hstep with
      | @thread k _ g l hk => exact ((sound_run h0 h k).held_own c (step_served hk hr.symm)).2
      | other hk =>
        cases hk
        cases hr

theorem undisturbed_of_countP (h : es.countP installs ≤ 1) : Undisturbed es := by
  intro before i o since old c after he e hm
  rw [he] at h
  simp only [List.countP_append, List.countP_cons, installs] at h
  have hz : since.countP installs = 0 := by
    simp at h
    omega
  simpa using List.countP_eq_zero.mp hz e hm

end Law

section Example

def start (c : Option (CachedRsdConnection Unit)) : State Unit :=
  ⟨⟨some (), c, none⟩, fun _ => .called⟩

def services : Nat → Procedure := fun _ => .connectToRsdServices

def former : CachedRsdConnection Unit := ⟨none, ()⟩

def made (i : Nat) : CachedRsdConnection Unit := ⟨some i, ()⟩

def reconnect : List (Event Unit) :=
  [.silent 0, .silent 0, .missed 0 (some former), .silent 0, .silent 0, .silent 0,
    .replaced 0 former (made 0), .served 0 (made 0)]

theorem lawful_reconnect : ∃ s, Run (Step services) (start (some former)) reconnect s ∧
    Lawful services reconnect s := by
  have hrun : ∃ s, Run (Step services) (start (some former)) reconnect s :=
    ⟨_, .cons (.thread (i := 0) (.getSome rfl)) (.cons (.thread (i := 0) (.lock rfl rfl))
      (.cons (.thread (i := 0) .broken)
    (.cons (.thread (i := 0) (.pairing rfl)) (.cons (.thread (i := 0) .connect)
    (.cons (.thread (i := 0) (.getOld rfl)) (.cons (.thread (i := 0) (.replace rfl rfl))
    (.cons (.thread (i := 0) .serve) .nil)))))))⟩
  have h0 : Initial (start (some former)) := by
    refine ⟨fun _ => rfl, fun c hc => ?_⟩
    cases hc
    rfl
  obtain ⟨s, hs⟩ := hrun
  exact ⟨s, hs, (lawful_iff_undisturbed h0 hs).mpr (undisturbed_of_countP (by decide))⟩

/-- Two calls find the cache empty, and the second one to connect discards the
connection that the first one has just put there and been served from. -/
def race : List (Event Unit) :=
  [.missed 0 none, .missed 1 none, .silent 0, .silent 0, .silent 0, .installed 0 (made 0),
    .silent 0, .silent 1, .silent 1, .silent 1, .served 0 (made 0), .replaced 1 (made 0) (made 1)]

theorem fresh_connection_replaced : Initial (start none) ∧
    ∃ s, Run (Step services) (start none) race s ∧ ¬ Lawful services race s := by
  refine ⟨⟨fun _ => rfl, nofun⟩, _, .cons (.thread (i := 0) (.getNone rfl))
    (.cons (.thread (i := 1) (.getNone rfl)) (.cons (.thread (i := 0) (.pairing rfl))
    (.cons (.thread (i := 0) .connect) (.cons (.thread (i := 0) (.getEmpty rfl))
    (.cons (.thread (i := 0) (.set rfl)) (.cons (.thread (i := 0) (.enter rfl rfl))
    (.cons (.thread (i := 1) (.pairing rfl)) (.cons (.thread (i := 1) .connect)
    (.cons (.thread (i := 1) (.getOld rfl)) (.cons (.thread (i := 0) .serve)
    (.cons (.thread (i := 1) (.replace rfl rfl)) .nil))))))))))), fun hl => ?_⟩
  have hm := hl.replaced (race.take 11) 1 (made 0) (made 1) [] rfl
  revert hm
  decide

end Example

end UnBoxer.RsdCache
