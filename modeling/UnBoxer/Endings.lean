import UnBoxer.DirAll

namespace UnBoxer.Endings

open UnBoxer.Trees UnBoxer.Programs UnBoxer.DirAll

variable {Name γ ε ε' α α' : Type} [DecidableEq Name]

/-- How a program can end on a tree when one may choose which of its calls fail:
what it returns, the tree then, and the paths touched on the way. -/
inductive Ends : Prog Name γ ε α → Tree Name (List γ) → Except ε α → Tree Name (List γ) →
    List (List Name) → Prop
  | done (r : Except ε α) (t : Tree Name (List γ)) : Ends (.done r) t r t []
  | call {c : Call Name γ} {k : c.Reply → Prog Name γ ε α} {t t' : Tree Name (List γ)}
      {r : Except ε α} {l : List (List Name)} (fault : Option Nat) :
      Ends (k (c.apply t fault).1) (c.apply t fault).2.1 r t' l →
      Ends (.call c k) t r t' ((c.apply t fault).2.2 ++ l)

variable {p : Prog Name γ ε α} {t t' t'' : Tree Name (List γ)} {r : Except ε α} {a : α}
  {l l' : List (List Name)}

theorem exec_fault (c : Call Name γ) (t : Tree Name (List γ)) (fault : Option Nat)
    (faults : List (Option Nat)) (touched : List (List Name)) :
    c.exec ⟨t, fault :: faults, touched⟩ =
      ((c.apply t fault).1, ⟨(c.apply t fault).2.1, faults, touched ++ (c.apply t fault).2.2⟩) := by
  cases fault <;> rfl

/-- Each ending is that of a run with the right faults. -/
theorem Ends.run (h : Ends p t r t' l) : ∃ faults, ∀ rest touched,
    p.run ⟨t, faults ++ rest, touched⟩ = (r, ⟨t', rest, touched ++ l⟩) := by
  induction h with
  | done r t => exact ⟨[], fun rest touched => by rw [List.append_nil]; rfl⟩
  | call fault _ ih =>
    obtain ⟨faults, hrun⟩ := ih
    refine ⟨fault :: faults, fun rest touched => ?_⟩
    rw [run_call, List.cons_append, exec_fault, hrun, List.append_assoc]

theorem Ends.call_eq {c : Call Name γ} {k : c.Reply → Prog Name γ ε α} (fault : Option Nat)
    {reply : c.Reply} {new : List (List Name)} (hc : c.apply t fault = (reply, t', new))
    (h : Ends (k reply) t' r t'' l) : Ends (.call c k) t r t'' (new ++ l) := by
  obtain ⟨rfl, rfl, rfl⟩ : reply = (c.apply t fault).1 ∧ t' = (c.apply t fault).2.1 ∧
      new = (c.apply t fault).2.2 := by simp [hc]
  exact .call fault h

theorem exists_ends (p : Prog Name γ ε α) (t : Tree Name (List γ)) :
    ∃ r t' l, Ends p t r t' l := by
  induction p generalizing t with
  | done r => exact ⟨_, _, _, .done r t⟩
  | call c k ih =>
    obtain ⟨r, t', l, h⟩ := ih (c.apply t none).1 (c.apply t none).2.1
    exact ⟨_, _, _, .call none h⟩

theorem Ends.bind {f : α → Prog Name γ ε α'} {r' : Except ε α'} (h : Ends p t (.ok a) t' l)
    (hf : Ends (f a) t' r' t'' l') : Ends (p.bind f) t r' t'' (l ++ l') := by
  generalize he : (.ok a : Except ε α) = r at h
  induction h with
  | done r t =>
    subst he
    exact hf
  | call fault _ ih =>
    rw [List.append_assoc]
    exact .call fault (ih hf he)

theorem Ends.handle {f : Except ε α → Prog Name γ ε' α'} {r' : Except ε' α'} (h : Ends p t r t' l)
    (hf : Ends (f r) t' r' t'' l') : Ends (p.handle f) t r' t'' (l ++ l') := by
  induction h with
  | done r t => exact hf
  | call fault _ ih =>
    rw [List.append_assoc]
    exact .call fault (ih hf)

theorem Ends.bind_error {e : ε} (h : Ends p t (.error e) t' l) (f : α → Prog Name γ ε α') :
    Ends (p.bind f) t (.error e) t' l := by
  generalize he : (.error e : Except ε α) = r at h
  induction h with
  | done r t =>
    subst he
    exact .done _ t
  | call fault _ ih => exact .call fault (ih he)

/-- A program can return `a` and leave the tree `t'`. -/
def Passes (p : Prog Name γ ε α) (t : Tree Name (List γ)) (a : α) (t' : Tree Name (List γ)) :
    Prop := ∃ l, Ends p t (.ok a) t' l

theorem Passes.done (a : α) (t : Tree Name (List γ)) :
    Passes (.done (.ok a) : Prog Name γ ε α) t a t := ⟨[], .done _ t⟩

theorem Passes.call {c : Call Name γ} {k : c.Reply → Prog Name γ ε α} (fault : Option Nat)
    {reply : c.Reply} {new : List (List Name)} (hc : c.apply t fault = (reply, t', new))
    (h : Passes (k reply) t' a t'') : Passes (.call c k) t a t'' := by
  obtain ⟨l, h⟩ := h
  exact ⟨_, .call_eq fault hc h⟩

theorem Passes.bind {f : α → Prog Name γ ε α'} {b : α'} (h : Passes p t a t')
    (hf : Passes (f a) t' b t'') : Passes (p.bind f) t b t'' := by
  obtain ⟨l, h⟩ := h
  obtain ⟨l', hf⟩ := hf
  exact ⟨_, h.bind hf⟩

theorem Passes.mapErr {f : ε → ε'} (h : Passes p t a t') : Passes (p.mapErr f) t a t' := by
  obtain ⟨l, h⟩ := h
  exact ⟨_, h.handle (.done _ t')⟩

theorem Ends.ignore (h : Ends p t r t' l) : Passes (p.ignore : Prog Name γ ε' Unit) t () t' :=
  ⟨_, h.handle (.done _ t')⟩

/-- A program can end so that it has touched `q`. -/
def CanTouch (p : Prog Name γ ε α) (t : Tree Name (List γ)) (q : List Name) : Prop :=
  ∃ r t' l, Ends p t r t' l ∧ q ∈ l

variable {q : List Name}

theorem CanTouch.bind (h : CanTouch p t q) (f : α → Prog Name γ ε α') :
    CanTouch (p.bind f) t q := by
  obtain ⟨r, t', l, hp, hq⟩ := h
  cases r with
  | error e => exact ⟨_, _, _, hp.bind_error f, hq⟩
  | ok a =>
    obtain ⟨r', t'', l', hf⟩ := exists_ends (f a) t'
    exact ⟨_, _, _, hp.bind hf, List.mem_append_left l' hq⟩

theorem CanTouch.handle (h : CanTouch p t q) (f : Except ε α → Prog Name γ ε' α') :
    CanTouch (p.handle f) t q := by
  obtain ⟨r, t', l, hp, hq⟩ := h
  obtain ⟨r', t'', l', hf⟩ := exists_ends (f r) t'
  exact ⟨_, _, _, hp.handle hf, List.mem_append_left l' hq⟩

theorem CanTouch.after {f : α → Prog Name γ ε α'} (hp : Passes p t a t')
    (h : CanTouch (f a) t' q) : CanTouch (p.bind f) t q := by
  obtain ⟨l, hp⟩ := hp
  obtain ⟨r', t'', l', hf, hq⟩ := h
  exact ⟨_, _, _, hp.bind hf, List.mem_append_right l hq⟩

theorem CanTouch.call {c : Call Name γ} {k : c.Reply → Prog Name γ ε α} (fault : Option Nat)
    (h : q ∈ (c.apply t fault).2.2 ∨ CanTouch (k (c.apply t fault).1) (c.apply t fault).2.1 q) :
    CanTouch (.call c k) t q := by
  obtain h | ⟨r, t', l, hk, hq⟩ := h
  · obtain ⟨r, t', l, hk⟩ := exists_ends (k (c.apply t fault).1) (c.apply t fault).2.1
    exact ⟨_, _, _, .call fault hk, List.mem_append_left l h⟩
  · exact ⟨_, _, _, .call fault hk, List.mem_append_right _ hq⟩

section Calls

theorem passes_next (t : Tree Name (List γ)) : Passes (next : Prog Name γ Errno Unit) t () t :=
  .call none rfl (.done () t)

theorem passes_write (p : List Name) (data : List γ) (t : Tree Name (List γ)) :
    Passes (write p data) t () (t.modify p fun _ => data) := .call none rfl (.done () _)

theorem passes_load {ps : List (Piece Name)} {b : List γ} (h : t.read ps = .ok b) :
    Passes (load ps) t b t := by
  have hc : (Call.load ps : Call Name γ).apply t none = (.ok b, t, []) := by
    simp only [Call.apply, h]
  exact .call none hc (.done b t)

theorem apply_create {qs : List (Piece Name)} {n : Name} (ho : t.Open [] qs)
    (hn : t.node (resolve [] qs ++ [n]) ≠ some .dir) :
    ∃ t', (Call.create (qs ++ [.down n]) : Call Name γ).apply t none =
        (.ok (resolve [] qs ++ [n]), t', [resolve [] qs ++ [n]]) ∧
      t'.node = Function.update t.node (resolve [] qs ++ [n]) (some (.file [])) := by
  obtain ⟨t', hcreate, ht'⟩ := t.create_new [] ho hn
  exact ⟨t', by simp only [Call.apply, hcreate], ht'⟩

theorem passes_create {qs : List (Piece Name)} {n : Name} (ho : t.Open [] qs)
    (hn : t.node (resolve [] qs ++ [n]) ≠ some .dir) (data : List γ) : ∃ t₁ t₂,
    Passes (create (qs ++ [.down n])) t (resolve [] qs ++ [n]) t₁ ∧
      Passes (write (resolve [] qs ++ [n]) data) t₁ () t₂ ∧
      t₂.node = Function.update t.node (resolve [] qs ++ [n]) (some (.file data)) := by
  obtain ⟨t₁, hcreate, ht₁⟩ := apply_create ho hn
  have hnode : t₁.node (resolve [] qs ++ [n]) = some (.file []) := by
    rw [ht₁, Function.update_self]
  have hwritten := Tree.modify_node hnode fun _ => data
  rw [ht₁, Function.update_idem] at hwritten
  exact ⟨t₁, _, .call none hcreate (.done _ t₁), passes_write _ data t₁, hwritten⟩

theorem apply_mkdir {qs : List (Piece Name)} {n : Name} (ho : t.Open [] qs)
    (hn : t.node (resolve [] qs ++ [n]) = none) :
    ∃ t', (Call.mkdir (qs ++ [.down n]) : Call Name γ).apply t none =
      (.ok (), t', [resolve [] qs ++ [n]]) := by
  obtain ⟨t', hm, _⟩ := t.mkdir_new ho hn
  have hr : resolve [] (qs ++ [.down n]) = resolve [] qs ++ [n] := by simp [move]
  exact ⟨t', by simp only [Call.apply, hm, hr]⟩

end Calls

section Directories

variable {ps qs : List (Piece Name)} {n : Name}

theorem passes_dirAll_open (ho : t.Open [] ps) :
    Passes (createDirAll ps : Prog Name γ Errno Unit) t () t := by
  have hw : t.walk [] ps = .ok (resolve [] ps) := (t.walk_ok t.root _ _).mpr ⟨ho, rfl⟩
  have hm : (Call.mkdir ps : Call Name γ).apply t none = (.error .alreadyExists, t, []) := by
    simp only [Call.apply, Tree.mkdir_open t ho]
  have hi : (Call.isDir ps : Call Name γ).apply t none = (true, t, []) := by
    simp only [Call.apply, hw]
    rfl
  have hdir : Passes (orDir ps .alreadyExists : Prog Name γ Errno Unit) t () t :=
    .call none hi (.done () t)
  unfold createDirAll
  cases (components ps).length with
  | zero => exact .call none hm hdir
  | succ k => exact .call none hm hdir

theorem ends_dirAll_failed (t : Tree Name (List γ)) (ps : List (Piece Name)) :
    ∃ r l, Ends (createDirAll ps) t r t l := by
  have hm : (Call.mkdir ps : Call Name γ).apply t (some 0) = (.error .failed, t, []) := rfl
  have hdir : Ends (orDir ps .failed : Prog Name γ Errno Unit) t (.error .failed) t _ :=
    .call_eq (some 0) rfl (.done _ t)
  unfold createDirAll
  cases (components ps).length with
  | zero => exact ⟨_, _, .call_eq (some 0) hm hdir⟩
  | succ k => exact ⟨_, _, .call_eq (some 0) hm hdir⟩

theorem attempt_within {us : List (Piece Name)} (hps : components ps = ps)
    (h : us <+: ps) : Attempt ps us := by
  obtain rfl | ⟨rs, r, rfl⟩ := List.eq_nil_or_concat ps
  · exact .inl (List.prefix_nil.mp h)
  · rw [List.concat_eq_append] at hps h ⊢
    obtain rfl | h := List.prefix_concat_iff.mp h
    · exact .inl rfl
    · rw [Attempt, parent, hps, List.dropLast_concat]
      exact .inr h

theorem split_parent (h : qs ++ [.down n] <+: parent ps) :
    ∃ us rs, ps = us ++ .down n :: rs ∧ components us = qs ∧ rs ≠ [] := by
  obtain ⟨vs, hvs⟩ := h
  have hne : components ps ≠ [] := by
    intro hnil
    rw [parent, hnil] at hvs
    simp at hvs
  have hall : components ps = qs ++ .down n :: (vs ++ [(components ps).getLast hne]) := by
    have hlast : parent ps ++ [(components ps).getLast hne] = components ps :=
      List.dropLast_append_getLast hne
    rw [← hvs] at hlast
    simpa using hlast.symm
  obtain ⟨us, ws, rfl, hus, hws⟩ := List.filter_eq_append_iff.mp hall
  obtain ⟨vs', rs, rfl, hvs', _, hrs⟩ := List.filter_eq_cons_iff.mp hws
  refine ⟨us ++ vs', rs, by simp, ?_, ?_⟩
  · have hnil : components vs' = [] := List.filter_eq_nil_iff.mpr hvs'
    rw [components_append, hnil, List.append_nil]
    exact hus
  · rintro rfl
    simp at hrs

theorem canTouch_makeAll (k : Nat) (hk : (components ps).length ≤ k)
    (ha : Attempt ps (qs ++ [.down n])) (ho : t.Open [] qs)
    (hn : t.node (resolve [] qs ++ [n]) = none) :
    CanTouch (makeAll k ps : Prog Name γ Errno Unit) t (resolve [] qs ++ [n]) := by
  induction k generalizing ps with
  | zero =>
    obtain rfl | ha := ha
    · obtain ⟨t', hm⟩ := apply_mkdir ho hn
      exact .call none (.inl (by rw [hm]; exact List.mem_singleton_self _))
    · have hlen := ha.length_le
      simp only [parent, List.length_append, List.length_dropLast] at hlen
      simp only [List.length_singleton] at hlen
      omega
  | succ k ih =>
    obtain rfl | ha := ha
    · obtain ⟨t', hm⟩ := apply_mkdir ho hn
      exact .call none (.inl (by rw [hm]; exact List.mem_singleton_self _))
    · obtain ⟨us, rs, hps, hus, hrs⟩ := split_parent ha
      have hnf : (Call.mkdir ps : Call Name γ).apply t none = (.error .notFound, t, []) := by
        have ho' : t.Open [] us := (open_components t [] us).mp (hus ▸ ho)
        have hn' : t.node (resolve [] us ++ [n]) = none := by
          rwa [← resolve_components, hus]
        simp only [Call.apply, hps, t.mkdir_notFound ho' hn' hrs]
      have hlen : (components (parent ps)).length ≤ k := by
        rw [components_parent, parent, List.length_dropLast]
        omega
      have hrec := (ih hlen (attempt_within (components_parent ps) ha)).bind
        fun _ => mkdirOrDir ps
      refine .call none (.inr ?_)
      rw [hnf]
      exact hrec

theorem canTouch_dirAll (ha : Attempt ps (qs ++ [.down n])) (ho : t.Open [] qs)
    (hn : t.node (resolve [] qs ++ [n]) = none) :
    CanTouch (createDirAll ps : Prog Name γ Errno Unit) t (resolve [] qs ++ [n]) :=
  canTouch_makeAll _ (le_refl _) ha ho hn

end Directories

end UnBoxer.Endings
