import UnBoxer.DirAll

namespace UnBoxer.QuietRuns

open UnBoxer.Trees UnBoxer.Programs UnBoxer.DirAll

variable {Name γ ε α : Type}

def NoFaults (d : Disk Name γ) : Prop := ∀ f ∈ d.faults, f = none

def At (t : Tree Name (List γ)) (d : Disk Name γ) : Prop := NoFaults d ∧ d.tree = t

theorem NoFaults.quiet {d : Disk Name γ} (h : NoFaults d) (k : Nat) : Quiet k d :=
  fun f hf => h f (List.mem_of_mem_take hf)

theorem NoFaults.tail {d : Disk Name γ} (h : NoFaults d) (t : Tree Name (List γ))
    (l : List (List Name)) : NoFaults ⟨t, d.faults.tail, l⟩ :=
  fun f hf => h f (List.mem_of_mem_tail hf)

theorem NoFaults.drop {d : Disk Name γ} (h : NoFaults d) (k : Nat) (t : Tree Name (List γ))
    (l : List (List Name)) : NoFaults ⟨t, d.faults.drop k, l⟩ :=
  fun f hf => h f (List.mem_of_mem_drop hf)

variable [DecidableEq Name]

theorem NoFaults.exec {d : Disk Name γ} (h : NoFaults d) (c : Call Name γ) :
    NoFaults (c.exec d).2 := fun f hf => h f (List.mem_of_mem_tail hf)

theorem NoFaults.run (p : Prog Name γ ε α) {d : Disk Name γ} (h : NoFaults d) :
    NoFaults (p.run d).2 := by
  induction p generalizing d with
  | done r => exact h
  | call c k ih => exact ih _ (h.exec c)

/-- Without faults a call does what it is specified to do. -/
theorem quiet_call {t : Tree Name (List γ)} {c : Call Name γ} {k : c.Reply → Prog Name γ ε α}
    {Q : α → Disk Name γ → Prop} {E : ε → Disk Name γ → Prop}
    (h : Triple (At (c.apply t none).2.1) (k (c.apply t none).1) Q E) :
    Triple (At t) (.call c k) Q E := by
  rintro d ⟨hq, rfl⟩
  have he : c.exec d = ((c.apply d.tree none).1, ⟨(c.apply d.tree none).2.1, d.faults.tail,
      d.touched ++ (c.apply d.tree none).2.2⟩) := by
    unfold Call.exec
    rw [quiet_head (hq.quiet 1)]
  rw [run_call, he]
  exact h _ ⟨hq.tail _ _, rfl⟩

theorem quiet_next {t : Tree Name (List γ)} :
    Triple (At t) next (fun _ => At t) (fun _ _ => False) :=
  quiet_call (Triple.ok fun _ h => h)

theorem quiet_dirAll_open {t : Tree Name (List γ)} {ps : List (Piece Name)} (ho : t.Open [] ps) :
    Triple (At t) (createDirAll ps) (fun _ => At t) (fun _ _ => False) := by
  rintro d ⟨hq, rfl⟩
  rw [createDirAll_open (hq.quiet 2) ho]
  exact ⟨hq.drop 2 _ _, rfl⟩

theorem quiet_dirAll_new {t : Tree Name (List γ)} {qs : List (Piece Name)} {n : Name}
    (ho : t.Open [] qs) (hn : t.node (resolve [] qs ++ [n]) = none) :
    Triple (At t) (createDirAll (qs ++ [.down n]))
      (fun _ d => NoFaults d ∧
        d.tree.node = Function.update t.node (resolve [] qs ++ [n]) (some .dir))
      (fun _ _ => False) := by
  rintro d ⟨hq, rfl⟩
  obtain ⟨t', he, ht'⟩ := createDirAll_new (hq.quiet 1) ho hn
  rw [he]
  exact ⟨hq.tail _ _, ht'⟩

/-- The path `ps` leads along directories to names that are not there yet. -/
def Fresh (t : Tree Name (List γ)) (ps : List (Piece Name)) : Prop :=
  ∃ (qs : List (Piece Name)) (m : Name) (ms : List Name),
    ps = qs ++ .down m :: ms.map .down ∧ t.Open [] qs ∧
    t.node (resolve [] qs ++ [m]) = none

def Empty (ps : List (Piece Name)) (d : Disk Name γ) : Prop :=
  d.tree.Open [] ps ∧ ∀ x, d.tree.node (resolve [] ps ++ [x]) = none

omit [DecidableEq Name] in
theorem Empty.below {ps : List (Piece Name)} {d : Disk Name γ} (h : Empty ps d) {r : List Name}
    (hr : r ≠ []) : d.tree.node (resolve [] ps ++ r) = none := by
  obtain ⟨x, r, rfl⟩ := List.exists_cons_of_ne_nil hr
  by_contra hn
  by_cases hr' : r = []
  · subst hr'
    exact hn (h.2 x)
  · have hp : resolve [] ps ++ [x] <+: resolve [] ps ++ x :: r := ⟨r, by simp⟩
    have hd := d.tree.dir_of_prefix hp (by simpa [eq_comm] using hr') hn
    rw [h.2 x] at hd
    cases hd

theorem parent_concat (qs : List (Piece Name)) (m : Name) :
    parent (qs ++ [.down m]) = components qs := by
  rw [parent, components_append]
  exact List.dropLast_concat

omit [DecidableEq Name] in
theorem children_none {t : Tree Name (List γ)} {p : List Name} (h : t.node p = none) (x : Name) :
    t.node (p ++ [x]) = none := by
  by_contra hn
  rw [t.parent p x hn] at h
  cases h

theorem quiet_mkdir_new {t : Tree Name (List γ)} {qs : List (Piece Name)} {n : Name}
    (ho : t.Open [] qs) (hn : t.node (resolve [] qs ++ [n]) = none) {d : Disk Name γ}
    (hd : At t d) :
    (Call.exec (.mkdir (qs ++ [.down n])) d).1 = .ok () ∧
      NoFaults (Call.exec (.mkdir (qs ++ [.down n])) d).2 ∧
      Empty (qs ++ [.down n]) (Call.exec (.mkdir (qs ++ [.down n])) d).2 := by
  obtain ⟨hq, rfl⟩ := hd
  obtain ⟨t', hm, ht⟩ := d.tree.mkdir_new ho hn
  obtain ⟨_, hopen⟩ := exec_mkdir d (qs ++ [.down n])
  have he : Call.exec (.mkdir (qs ++ [.down n])) d =
      (.ok (), ⟨t', d.faults.tail, d.touched ++ [resolve [] (qs ++ [.down n])]⟩) := by
    simp only [Call.exec, quiet_head (hq.quiet 1), Call.apply, hm]
  rw [he] at hopen ⊢
  refine ⟨rfl, hq.tail _ _, hopen rfl, fun x => ?_⟩
  have hr : resolve [] (qs ++ [.down n]) = resolve [] qs ++ [n] := by simp [move]
  have hne : resolve [] qs ++ [n] ++ [x] ≠ resolve [] qs ++ [n] := by simp
  rw [hr, ht, Function.update_of_ne hne]
  exact children_none hn x

theorem quiet_mkdirElse_new {t : Tree Name (List γ)} {qs : List (Piece Name)} {n : Name}
    (ho : t.Open [] qs) (hn : t.node (resolve [] qs ++ [n]) = none)
    (missing : Prog Name γ Errno Unit) :
    Triple (At t) (mkdirElse (qs ++ [.down n]) missing)
      (fun _ d => NoFaults d ∧ Empty (qs ++ [.down n]) d) (fun _ _ => False) := by
  intro d hd
  obtain ⟨hr, hq, he⟩ := quiet_mkdir_new ho hn hd
  rw [mkdirElse, run_call, hr]
  exact ⟨hq, he⟩

theorem quiet_mkdirOrDir_new {t : Tree Name (List γ)} {qs : List (Piece Name)} {n : Name}
    (ho : t.Open [] qs) (hn : t.node (resolve [] qs ++ [n]) = none) :
    Triple (At t) (mkdirOrDir (qs ++ [.down n]))
      (fun _ d => NoFaults d ∧ Empty (qs ++ [.down n]) d) (fun _ _ => False) := by
  intro d hd
  obtain ⟨hr, hq, he⟩ := quiet_mkdir_new ho hn hd
  rw [mkdirOrDir, run_call, hr]
  exact ⟨hq, he⟩

theorem quiet_makeAll {t : Tree Name (List γ)} (ms : List Name) {n : Nat} (hn : ms.length ≤ n)
    {qs : List (Piece Name)} {m : Name} (ho : t.Open [] qs)
    (hm : t.node (resolve [] qs ++ [m]) = none) :
    Triple (At t) (makeAll n (qs ++ .down m :: ms.map .down))
      (fun _ d => NoFaults d ∧ Empty (qs ++ .down m :: ms.map .down) d) (fun _ _ => False) := by
  induction ms using List.reverseRecOn generalizing n qs with
  | nil =>
    cases n with
    | zero => exact quiet_mkdirElse_new ho hm _
    | succ n => exact quiet_mkdirElse_new ho hm _
  | append_singleton ms k ih =>
    cases n with
    | zero => simp at hn
    | succ n =>
      have hps : qs ++ Piece.down m :: (ms ++ [k]).map .down =
          (qs ++ .down m :: ms.map .down) ++ [.down k] := by simp
      have hpar : parent (qs ++ Piece.down m :: (ms ++ [k]).map .down) =
          components qs ++ .down m :: ms.map .down := by
        rw [hps, parent_concat, components_append]
        congr 1
        exact List.filter_eq_self.mpr (by simp)
      have ho' : t.Open [] (components qs) := (open_components t [] qs).mpr ho
      have hm' : t.node (resolve [] (components qs) ++ [m]) = none := by
        rw [resolve_components, hm]
      have hparent := ih (n := n) (by simpa using hn) ho' hm'
      rw [← hpar] at hparent
      refine quiet_call ?_
      have hnf : t.mkdir (qs ++ Piece.down m :: (ms ++ [k]).map .down) = .error .notFound :=
        t.mkdir_notFound ho hm (by simp)
      simp only [Call.apply, hnf]
      refine hparent.bind fun _ => ?_
      rintro d ⟨hq, hopen, hnone⟩
      rw [hps] at hopen hnone ⊢
      rw [parent_concat] at hopen hnone
      rw [resolve_components] at hnone
      exact quiet_mkdirOrDir_new ((open_components d.tree [] _).mp hopen) (hnone k) d ⟨hq, rfl⟩

theorem quiet_dirAll_fresh {t : Tree Name (List γ)} {ps : List (Piece Name)} (h : Fresh t ps) :
    Triple (At t) (createDirAll ps)
      (fun _ d => NoFaults d ∧ Empty ps d ∧ ∀ qs b, t.read qs = .ok b → d.tree.read qs = .ok b)
      (fun _ _ => False) := by
  obtain ⟨qs, m, ms, rfl, ho, hm⟩ := h
  have hlen : ms.length ≤ (components (qs ++ .down m :: ms.map .down)).length := by
    rw [components_append, List.length_append]
    have hc : components (Piece.down m :: ms.map .down) = .down m :: ms.map .down :=
      List.filter_eq_self.mpr (by simp)
    rw [hc, List.length_cons, List.length_map]
    omega
  rintro d ⟨hq, rfl⟩
  have hgrown : Triple (· = d) (createDirAll (qs ++ .down m :: ms.map .down))
      (fun _ d' => Grown (fun _ => True) d d') (fun _ _ => True) :=
    (createDirAll_spec (fun _ _ => trivial)).weaken (fun _ h => h ▸ Grown.of_same rfl rfl)
      (fun _ _ h => h.1) (fun _ _ _ => trivial)
  refine ((quiet_makeAll ms hlen ho hm).and hgrown).weaken (fun d' h => ?_) (fun _ d' h => ?_)
    (fun _ _ h => h.1) d rfl
  · subst h
    exact ⟨⟨hq, rfl⟩, rfl⟩
  · exact ⟨h.1.1, h.1.2, fun _ _ hr => h.2.read hr⟩

end UnBoxer.QuietRuns
