import UnBoxer.Programs

namespace UnBoxer.DirAll

open UnBoxer.Trees UnBoxer.Programs

variable {Name γ : Type} [DecidableEq Name]

/-- `Path::components`: the components that are not `.`. -/
def components (ps : List (Piece Name)) : List (Piece Name) := ps.filter (· ≠ .here)

def parent (ps : List (Piece Name)) : List (Piece Name) := (components ps).dropLast

/-- `Err(_) if path.is_dir() => Ok(())`, and the error otherwise. -/
def orDir (ps : List (Piece Name)) (e : Errno) : Prog Name γ Errno Unit :=
  .call (.isDir ps) fun (b : Bool) => .done (if b then .ok () else .error e)

def mkdirOrDir (ps : List (Piece Name)) : Prog Name γ Errno Unit :=
  .call (.mkdir ps) fun
    | .ok () => .done (.ok ())
    | .error e => orDir ps e

/-- The first attempt of `create_dir_all`, and what it does when a directory on
the way is missing. -/
def mkdirElse (ps : List (Piece Name)) (missing : Prog Name γ Errno Unit) : Prog Name γ Errno Unit :=
  .call (.mkdir ps) fun
    | .ok () => .done (.ok ())
    | .error .notFound => missing
    | .error e => orDir ps e

/-- `std::fs::create_dir_all` for a path with `n` components. -/
def makeAll : Nat → List (Piece Name) → Prog Name γ Errno Unit
  | 0, ps => mkdirElse ps (.done (.error .failed))
  | n + 1, ps => mkdirElse ps ((makeAll n (parent ps)).bind fun _ => mkdirOrDir ps)

def createDirAll (ps : List (Piece Name)) : Prog Name γ Errno Unit :=
  makeAll (components ps).length ps

/-- The paths that `create_dir_all` calls `mkdir` on. -/
def Attempt (ps qs : List (Piece Name)) : Prop := qs = ps ∨ qs <+: parent ps

theorem components_append (ps qs : List (Piece Name)) :
    components (ps ++ qs) = components ps ++ components qs := List.filter_append ..

theorem components_parent (ps : List (Piece Name)) : components (parent ps) = parent ps := by
  refine List.filter_eq_self.mpr fun c hc => ?_
  exact (List.mem_filter.mp (List.mem_of_mem_dropLast hc)).2

theorem resolve_components (p : List Name) (ps : List (Piece Name)) :
    resolve p (components ps) = resolve p ps := by
  induction ps generalizing p with
  | nil => rfl
  | cons c ps ih => cases c <;> simpa [components, move] using ih _

theorem open_components (t : Tree Name (List γ)) (p : List Name) (ps : List (Piece Name)) :
    t.Open p (components ps) ↔ t.Open p ps := by
  induction ps generalizing p with
  | nil => rfl
  | cons c ps ih =>
    have hh : t.Open p ps → t.node p = some .dir := fun h => h [] (by simp)
    cases c with
    | here =>
      change t.Open p (components ps) ↔ _
      rw [Tree.open_cons, ih]
      exact (and_iff_right_of_imp hh).symm
    | up =>
      change t.Open p (.up :: components ps) ↔ _
      rw [Tree.open_cons, Tree.open_cons, ih]
    | down n =>
      change t.Open p (.down n :: components ps) ↔ _
      rw [Tree.open_cons, Tree.open_cons, ih]

theorem attempt_parent {ps qs : List (Piece Name)} (h : Attempt (parent ps) qs) :
    Attempt ps qs := by
  obtain rfl | h := h
  · exact .inr (List.prefix_refl _)
  · rw [parent, components_parent] at h
    exact .inr (h.trans (List.dropLast_prefix _))

/-- The disk `d'` is `d` with some directories more, each made at a path for
which `A` holds and along directories. -/
def Grown (A : List (Piece Name) → Prop) (d d' : Disk Name γ) : Prop :=
  ∃ new, d'.touched = d.touched ++ new ∧
    (∀ q, d'.tree.node q = if q ∈ new then some .dir else d.tree.node q) ∧
    ∀ q ∈ new, d.tree.node q = none ∧
      ∃ qs n, A (qs ++ [.down n]) ∧ q = resolve [] (qs ++ [.down n]) ∧
        d'.tree.Open [] (qs ++ [.down n])

theorem Grown.of_same {A : List (Piece Name) → Prop} {d d' : Disk Name γ}
    (ht : d'.tree = d.tree) (hd : d'.touched = d.touched) : Grown A d d' :=
  ⟨[], by simp [hd], by simp [ht], by simp⟩

theorem Grown.keep {A : List (Piece Name) → Prop} {d d' : Disk Name γ} (h : Grown A d d')
    {q : List Name} {v : Node (List γ)} (hq : d.tree.node q = some v) :
    d'.tree.node q = some v := by
  obtain ⟨new, _, hnode, hnew⟩ := h
  have hq' : q ∉ new := fun hm => by simp [(hnew q hm).1] at hq
  rw [hnode, if_neg hq', hq]

theorem Grown.open {A : List (Piece Name) → Prop} {d d' : Disk Name γ} (h : Grown A d d')
    {p : List Name} {ps : List (Piece Name)} (ho : d.tree.Open p ps) : d'.tree.Open p ps :=
  fun qs hqs => h.keep (ho qs hqs)

theorem Grown.read {A : List (Piece Name) → Prop} {d d' : Disk Name γ} (h : Grown A d d')
    {ps : List (Piece Name)} {b : List γ} (hr : d.tree.read ps = .ok b) :
    d'.tree.read ps = .ok b := by
  obtain ⟨qs, n, hps, ho, hn⟩ := Tree.read_ok.mp hr
  exact Tree.read_ok.mpr ⟨qs, n, hps, h.open ho, h.keep hn⟩

theorem Grown.absent {A : List (Piece Name) → Prop} {d d' : Disk Name γ} (h : Grown A d d')
    {q : List Name} (hq : d.tree.node q = none) (hA : ∀ qs, A qs → resolve [] qs ≠ q) :
    d'.tree.node q = none := by
  obtain ⟨new, _, hnode, hnew⟩ := h
  have hq' : q ∉ new := by
    intro hm
    obtain ⟨_, qs, n, hqs, he, _⟩ := hnew q hm
    exact hA _ hqs he.symm
  rw [hnode, if_neg hq', hq]

theorem Grown.mono {A B : List (Piece Name) → Prop} {d d' : Disk Name γ} (h : Grown A d d')
    (hAB : ∀ qs, A qs → B qs) : Grown B d d' := by
  obtain ⟨new, ht, hnode, hnew⟩ := h
  refine ⟨new, ht, hnode, fun q hq => ?_⟩
  obtain ⟨hn, qs, n, hA, h⟩ := hnew q hq
  exact ⟨hn, qs, n, hAB _ hA, h⟩

theorem Grown.trans {A : List (Piece Name) → Prop} {d d' d'' : Disk Name γ}
    (h : Grown A d d') (h' : Grown A d' d'') : Grown A d d'' := by
  have hopen : ∀ ps, d'.tree.Open [] ps → d''.tree.Open [] ps := fun _ ho => h'.open ho
  obtain ⟨new, ht, hnode, hnew⟩ := h
  obtain ⟨new', ht', hnode', hnew'⟩ := h'
  refine ⟨new ++ new', by simp [ht', ht], fun q => ?_, fun q hq => ?_⟩
  · rw [hnode', hnode]
    by_cases hq : q ∈ new <;> by_cases hq' : q ∈ new' <;> simp [hq, hq']
  · by_cases hm : q ∈ new
    · obtain ⟨hn, qs, n, hA, hr, ho⟩ := hnew q hm
      exact ⟨hn, qs, n, hA, hr, hopen _ ho⟩
    · obtain ⟨hn, hrest⟩ := hnew' q ((List.mem_append.mp hq).resolve_left hm)
      rw [hnode, if_neg hm] at hn
      exact ⟨hn, hrest⟩

theorem exec_mkdir (d : Disk Name γ) (ps : List (Piece Name)) :
    Grown (· = ps) d (Call.exec (.mkdir ps) d).2 ∧
      ((Call.exec (.mkdir ps) d).1 = .ok () → (Call.exec (.mkdir ps) d).2.tree.Open [] ps) := by
  unfold Call.exec
  cases hf : d.faults.head?.join with
  | some k => exact ⟨Grown.of_same rfl (by simp [Call.apply]), by simp [Call.apply]⟩
  | none =>
    cases hm : d.tree.mkdir ps with
    | error e =>
      simp only [Call.apply, hm]
      exact ⟨Grown.of_same rfl (by simp), by simp⟩
    | ok t =>
      simp only [Call.apply, hm]
      obtain ⟨qs, n, rfl, ho, hn, ht⟩ := Tree.mkdir_ok hm
      have hr : resolve [] (qs ++ [.down n]) = resolve [] qs ++ [n] := by simp [move]
      have hopen : t.Open [] (qs ++ [.down n]) := by
        refine (t.open_concat _ _ _).mpr ⟨fun rs hrs => ?_, by simp [hr, ht]⟩
        have hne : resolve [] rs ≠ resolve [] qs ++ [n] := by
          intro he
          have := ho rs hrs
          rw [he, hn] at this
          cases this
        rw [ht, Function.update_of_ne hne]
        exact ho rs hrs
      refine ⟨⟨[resolve [] (qs ++ [.down n])], rfl, fun q => ?_, fun q hq => ?_⟩, fun _ => hopen⟩
      · simp only [ht, hr, List.mem_singleton, Function.update_apply]
      · obtain rfl := List.mem_singleton.mp hq
        exact ⟨by rw [hr, hn], qs, n, rfl, rfl, hopen⟩

theorem exec_isDir (d : Disk Name γ) (ps : List (Piece Name)) (A : List (Piece Name) → Prop) :
    Grown A d (Call.exec (.isDir ps) d).2 ∧
      ((Call.exec (.isDir ps) d).1 = true → (Call.exec (.isDir ps) d).2.tree.Open [] ps) := by
  unfold Call.exec
  cases hf : d.faults.head?.join with
  | some k => exact ⟨Grown.of_same rfl (by simp [Call.apply]), fun h => by cases h⟩
  | none =>
    refine ⟨Grown.of_same rfl (by simp [Call.apply]), fun h => ?_⟩
    cases hw : d.tree.walk [] ps with
    | error e => simp [Call.apply, hw, Except.isOk, Except.toBool] at h
    | ok q => exact ((d.tree.walk_ok d.tree.root ps q).mp hw).1

section Specs

variable {A : List (Piece Name) → Prop} {d : Disk Name γ}

theorem triple_mkdir {ε α : Type} {ps : List (Piece Name)} (hA : A ps)
    {k : (Call.mkdir ps : Call Name γ).Reply → Prog Name γ ε α}
    {Q : α → Disk Name γ → Prop} {E : ε → Disk Name γ → Prop}
    (hok : Triple (fun d' => Grown A d d' ∧ d'.tree.Open [] ps) (k (.ok ())) Q E)
    (herr : ∀ e, Triple (Grown A d) (k (.error e)) Q E) :
    Triple (Grown A d) (.call (.mkdir ps) k) Q E := by
  intro d' hd
  obtain ⟨hg, ho⟩ := exec_mkdir d' ps
  have hg' := hd.trans (hg.mono (B := A) (by rintro _ rfl; exact hA))
  rw [run_call]
  cases hr : (Call.exec (.mkdir ps) d').1 with
  | ok u => exact hok _ ⟨hg', ho hr⟩
  | error e => exact herr e _ hg'

theorem orDir_spec (ps : List (Piece Name)) (e : Errno) :
    Triple (Grown A d) (orDir ps e) (fun _ d' => Grown A d d' ∧ d'.tree.Open [] ps)
      (fun _ => Grown A d) := by
  refine Triple.call (fun b d' => Grown A d d' ∧ (b = true → d'.tree.Open [] ps)) ?_ ?_
  · intro d' hd
    obtain ⟨hg, ho⟩ := exec_isDir d' ps A
    exact ⟨hd.trans hg, ho⟩
  · rintro (_ | _)
    · exact Triple.error fun _ h => h.1
    · exact Triple.ok fun _ h => ⟨h.1, h.2 rfl⟩

theorem mkdirOrDir_spec {ps : List (Piece Name)} (hA : A ps) :
    Triple (Grown A d) (mkdirOrDir ps) (fun _ d' => Grown A d d' ∧ d'.tree.Open [] ps)
      (fun _ => Grown A d) :=
  triple_mkdir hA (Triple.ok fun _ h => h) (orDir_spec ps)

theorem mkdirElse_spec {ps : List (Piece Name)} (hA : A ps) {missing : Prog Name γ Errno Unit}
    (hm : Triple (Grown A d) missing (fun _ d' => Grown A d d' ∧ d'.tree.Open [] ps)
      (fun _ => Grown A d)) :
    Triple (Grown A d) (mkdirElse ps missing) (fun _ d' => Grown A d d' ∧ d'.tree.Open [] ps)
      (fun _ => Grown A d) := by
  refine triple_mkdir hA (Triple.ok fun _ h => h) fun e => ?_
  cases e with
  | notFound => exact hm
  | _ => exact orDir_spec ps _

theorem makeAll_spec (n : Nat) {ps : List (Piece Name)} (hA : ∀ qs, Attempt ps qs → A qs) :
    Triple (Grown A d) (makeAll n ps) (fun _ d' => Grown A d d' ∧ d'.tree.Open [] ps)
      (fun _ => Grown A d) := by
  have hps : A ps := hA ps (.inl rfl)
  induction n generalizing ps with
  | zero => exact mkdirElse_spec hps (Triple.error fun _ h => h)
  | succ n ih =>
    have hA' : ∀ qs, Attempt (parent ps) qs → A qs := fun qs hqs => hA qs (attempt_parent hqs)
    refine mkdirElse_spec hps ((ih hA' (hA' _ (.inl rfl))).bind fun _ => ?_)
    exact (mkdirOrDir_spec hps).weaken (fun _ h => h.1) (fun _ _ h => h) (fun _ _ h => h)

/-- Whether it succeeds or not, `create_dir_all` only makes directories where
there was nothing; when it succeeds, the whole path is open. -/
theorem createDirAll_spec {ps : List (Piece Name)} (hA : ∀ qs, Attempt ps qs → A qs) :
    Triple (Grown A d) (createDirAll ps) (fun _ d' => Grown A d d' ∧ d'.tree.Open [] ps)
      (fun _ => Grown A d) := makeAll_spec _ hA

theorem exec_mkdir_error {d : Disk Name γ} {ps : List (Piece Name)} {e : Errno}
    (h : (Call.exec (.mkdir ps) d).1 = .error e) :
    (Call.exec (.mkdir ps) d).2.tree = d.tree ∧ (Call.exec (.mkdir ps) d).2.touched = d.touched := by
  unfold Call.exec at h ⊢
  cases hf : d.faults.head?.join with
  | some k => simp [Call.apply]
  | none =>
    rw [hf] at h
    cases hm : d.tree.mkdir ps with
    | error e' => simp [Call.apply, hm]
    | ok t =>
      simp only [Call.apply, hm] at h
      cases h

theorem triple_mkdir_error {ε α : Type} {ps : List (Piece Name)}
    {k : (Call.mkdir ps : Call Name γ).Reply → Prog Name γ ε α}
    {Q : α → Disk Name γ → Prop} {E : ε → Disk Name γ → Prop}
    (hok : Triple (fun _ => True) (k (.ok ())) Q E)
    (herr : ∀ e, Triple (Grown A d) (k (.error e)) Q E) :
    Triple (Grown A d) (.call (.mkdir ps) k) Q E := by
  intro d' hd
  rw [run_call]
  cases hr : (Call.exec (.mkdir ps) d').1 with
  | ok u => exact hok _ trivial
  | error e =>
    obtain ⟨ht, hto⟩ := exec_mkdir_error hr
    exact herr e _ (hd.trans (.of_same ht hto))

theorem makeAll_error (n : Nat) {ps : List (Piece Name)} (hA : ∀ qs, qs <+: parent ps → A qs) :
    Triple (Grown A d) (makeAll n ps) (fun _ _ => True) (fun _ => Grown A d) := by
  have hdir : ∀ e, Triple (Grown A d) (orDir ps e) (fun _ _ => True) (fun _ => Grown A d) :=
    fun e => (orDir_spec ps e).weaken (fun _ h => h) (fun _ _ _ => trivial) (fun _ _ h => h)
  have helse : ∀ missing, Triple (Grown A d) missing (fun _ _ => True) (fun _ => Grown A d) →
      Triple (Grown A d) (mkdirElse ps missing) (fun _ _ => True) (fun _ => Grown A d) := by
    intro missing hm
    refine triple_mkdir_error (Triple.ok fun _ _ => trivial) fun e => ?_
    cases e with
    | notFound => exact hm
    | _ => exact hdir _
  cases n with
  | zero => exact helse _ (Triple.error fun _ h => h)
  | succ n =>
    have hparent : ∀ qs, Attempt (parent ps) qs → A qs := by
      rintro qs (rfl | h)
      · exact hA _ (List.prefix_refl _)
      · rw [parent, components_parent] at h
        exact hA qs (h.trans (List.dropLast_prefix _))
    have hmk : Triple (Grown A d) (mkdirOrDir ps) (fun _ _ => True) (fun _ => Grown A d) :=
      triple_mkdir_error (Triple.ok fun _ _ => trivial) hdir
    refine helse _ ((makeAll_spec n hparent).bind fun _ => ?_)
    exact hmk.weaken (fun _ h => h.1) (fun _ _ h => h) (fun _ _ h => h)

theorem createDirAll_error {ps : List (Piece Name)} (hA : ∀ qs, qs <+: parent ps → A qs) :
    Triple (Grown A d) (createDirAll ps) (fun _ _ => True) (fun _ => Grown A d) := makeAll_error _ hA

end Specs

def Quiet (k : Nat) (d : Disk Name γ) : Prop := ∀ f ∈ d.faults.take k, f = none

omit [DecidableEq Name] in
theorem quiet_head {k : Nat} {d : Disk Name γ} (h : Quiet (k + 1) d) :
    d.faults.head?.join = none := by
  cases hf : d.faults with
  | nil => rfl
  | cons f fs => simp [h f (by simp [hf])]

omit [DecidableEq Name] in
theorem quiet_tail {k : Nat} {d : Disk Name γ} (h : Quiet (k + 1) d) {t : Tree Name (List γ)}
    {l : List (List Name)} : Quiet k ⟨t, d.faults.tail, l⟩ := by
  cases hf : d.faults with
  | nil => simp [Quiet]
  | cons f fs =>
    intro g hg
    exact h g (by simpa [hf] using .inr hg)

theorem createDirAll_open {d : Disk Name γ} {ps : List (Piece Name)} (hq : Quiet 2 d)
    (ho : d.tree.Open [] ps) :
    (createDirAll ps).run d = (.ok (), { d with faults := d.faults.drop 2 }) := by
  have hm : Call.exec (.mkdir ps) d =
      (.error .alreadyExists, { d with faults := d.faults.tail }) := by
    simp only [Call.exec, quiet_head hq, Call.apply, Tree.mkdir_open _ ho, List.append_nil]
  have hw : d.tree.walk [] ps = .ok (resolve [] ps) := (d.tree.walk_ok d.tree.root _ _).mpr ⟨ho, rfl⟩
  have hi : Call.exec (.isDir ps) { d with faults := d.faults.tail } =
      (true, { d with faults := d.faults.drop 2 }) := by
    have hq' := quiet_head (quiet_tail hq (t := d.tree) (l := d.touched))
    simp only [Call.exec, hq', Call.apply, hw, List.append_nil]
    simp only [← List.drop_one, List.drop_drop]
    rfl
  have hmake : ∀ n, (makeAll n ps : Prog Name γ Errno Unit).run d =
      (.ok (), { d with faults := d.faults.drop 2 }) := by
    intro n
    have helse : ∀ missing, (mkdirElse ps missing : Prog Name γ Errno Unit).run d =
        (.ok (), { d with faults := d.faults.drop 2 }) := by
      intro missing
      rw [mkdirElse, run_call, hm]
      change (orDir ps .alreadyExists).run { d with faults := d.faults.tail } = _
      rw [orDir, run_call, hi]
      rfl
    cases n <;> exact helse _
  exact hmake _

theorem createDirAll_new {d : Disk Name γ} {qs : List (Piece Name)} {n : Name} (hq : Quiet 1 d)
    (ho : d.tree.Open [] qs) (hn : d.tree.node (resolve [] qs ++ [n]) = none) :
    ∃ t, (createDirAll (qs ++ [.down n])).run d =
        (.ok (), ⟨t, d.faults.tail, d.touched ++ [resolve [] qs ++ [n]]⟩) ∧
      t.node = Function.update d.tree.node (resolve [] qs ++ [n]) (some .dir) := by
  obtain ⟨t, hm, ht⟩ := d.tree.mkdir_new ho hn
  refine ⟨t, ?_, ht⟩
  have he : Call.exec (.mkdir (qs ++ [.down n])) d =
      (.ok (), ⟨t, d.faults.tail, d.touched ++ [resolve [] qs ++ [n]]⟩) := by
    simp only [Call.exec, quiet_head hq, Call.apply, hm, resolve_append, resolve_cons,
      resolve_nil, move]
  have hmake : ∀ k, (makeAll k (qs ++ [.down n]) : Prog Name γ Errno Unit).run d =
      (.ok (), ⟨t, d.faults.tail, d.touched ++ [resolve [] qs ++ [n]]⟩) := by
    intro k
    have helse : ∀ missing, (mkdirElse (qs ++ [.down n]) missing : Prog Name γ Errno Unit).run d =
        (.ok (), ⟨t, d.faults.tail, d.touched ++ [resolve [] qs ++ [n]]⟩) := by
      intro missing
      rw [mkdirElse, run_call, he]
      rfl
    cases k <;> exact helse _
  exact hmake _

end UnBoxer.DirAll
