import UnBoxer.DirAll

namespace UnBoxer.Effects

open UnBoxer.Trees UnBoxer.Programs UnBoxer.DirAll

variable {Name γ ε ε' α α' : Type}

/-- Every call that the program may come to is one of `A`. -/
inductive Only (A : Call Name γ → Prop) : Prog Name γ ε α → Prop
  | done (r : Except ε α) : Only A (.done r)
  | call {c : Call Name γ} {k : c.Reply → Prog Name γ ε α} :
      A c → (∀ r, Only A (k r)) → Only A (.call c k)

/-- What the program may return when its calls may answer anything, since others
may change the disk between any two of them. -/
inductive Returns : Prog Name γ ε α → Except ε α → Prop
  | done (r : Except ε α) : Returns (.done r) r
  | call {c : Call Name γ} {k : c.Reply → Prog Name γ ε α} {r : Except ε α} (reply : c.Reply) :
      Returns (k reply) r → Returns (.call c k) r

theorem run_returns [DecidableEq Name] (p : Prog Name γ ε α) (d : Disk Name γ) :
    Returns p (p.run d).1 := by
  induction p generalizing d with
  | done r => exact .done r
  | call c k ih => exact .call _ (ih _ _)

theorem Returns.bind_ok {p : Prog Name γ ε α} {f : α → Prog Name γ ε α'} {b : α'}
    (h : Returns (p.bind f) (.ok b)) : ∃ a, Returns p (.ok a) ∧ Returns (f a) (.ok b) := by
  induction p with
  | done r =>
    cases r with
    | ok a => exact ⟨a, .done _, h⟩
    | error e => cases h
  | call c k ih =>
    cases h with
    | call reply h =>
      obtain ⟨a, hp, hf⟩ := ih reply h
      exact ⟨a, .call reply hp, hf⟩

section Rules

variable {A : Call Name γ → Prop}

theorem Only.bind {p : Prog Name γ ε α} {f : α → Prog Name γ ε α'} (hp : Only A p)
    (hf : ∀ a, Only A (f a)) : Only A (p.bind f) := by
  induction hp with
  | done r =>
    cases r with
    | ok a => exact hf a
    | error e => exact .done _
  | call hc _ ih => exact .call hc ih

theorem Only.handle {p : Prog Name γ ε α} {f : Except ε α → Prog Name γ ε' α'} (hp : Only A p)
    (hf : ∀ r, Only A (f r)) : Only A (p.handle f) := by
  induction hp with
  | done r => exact hf r
  | call hc _ ih => exact .call hc ih

theorem Only.ignore {p : Prog Name γ ε α} (hp : Only A p) :
    Only A (p.ignore : Prog Name γ ε' Unit) := hp.handle fun _ => .done _

theorem Only.fold {ι σ : Type} {body : σ → ι → Prog Name γ ε σ} (h : ∀ s x, Only A (body s x))
    (s : σ) (xs : List ι) : Only A (Prog.fold body s xs) := by
  induction xs generalizing s with
  | nil => exact .done _
  | cons x xs ih => exact (h s x).bind fun s => ih s

theorem Only.triple [DecidableEq Name] {p : Prog Name γ ε α} (hp : Only A p)
    {I : Disk Name γ → Prop} (hI : ∀ c, A c → ∀ d, I d → I (c.exec d).2) :
    Triple I p (fun _ => I) (fun _ => I) := by
  induction hp with
  | done r =>
    intro d hd
    cases r <;> exact hd
  | @call c _ hc _ ih => exact Triple.call (fun _ => I) (fun d hd => hI c hc d hd) ih

end Rules

section Places

variable [DecidableEq Name]

/-- The path that a call may make or change something at. -/
def place : Call Name γ → Option (List Name)
  | .mkdir ps => some (resolve [] ps)
  | .create ps => some (resolve [] ps)
  | .write p _ => some p
  | _ => none

theorem modify_elsewhere {β : Type} (t : Tree Name β) {p q : List Name} (h : q ≠ p) (f : β → β) :
    (t.modify p f).node q = t.node q := by
  simp only [Tree.modify, h, if_false]
  split
  · rename_i hq
    exact hq.symm
  · rfl

/-- What a call does to the tree: nothing, or it puts something at its place, where
no directory is, and nothing at all when a directory is put there. -/
theorem exec_cases (c : Call Name γ) (d : Disk Name γ) :
    (c.exec d).2.tree.node = d.tree.node ∨ ∃ p v, place c = some p ∧
      (c.exec d).2.tree.node = Function.update d.tree.node p (some v) ∧
      d.tree.node p ≠ some .dir ∧ (v = .dir → d.tree.node p = none) := by
  unfold Call.exec
  cases c with
  | mkdir ps =>
    cases d.faults.head?.join with
    | some k => exact .inl rfl
    | none =>
      cases hm : d.tree.mkdir ps with
      | error e => exact .inl (by simp only [Call.apply, hm])
      | ok t =>
        obtain ⟨qs, n, rfl, _, hn, ht⟩ := Tree.mkdir_ok hm
        have hp : place (.mkdir (qs ++ [.down n]) : Call Name γ) = some (resolve [] qs ++ [n]) := by
          simp [place, move]
        exact .inr ⟨_, .dir, hp, by simp only [Call.apply, hm, ht], by simp [hn], fun _ => hn⟩
  | create ps =>
    cases d.faults.head?.join with
    | some k => exact .inl rfl
    | none =>
      cases hc : d.tree.create ps [] with
      | error e => exact .inl (by simp only [Call.apply, hc])
      | ok r =>
        obtain ⟨t, p⟩ := r
        obtain ⟨_, _, _, _, _, hd, ht⟩ := Tree.create_ok hc
        obtain ⟨hp, _⟩ := Tree.create_read hc
        exact .inr ⟨p, .file [], by rw [place, hp], by simp only [Call.apply, hc, ht], hd,
          fun h => by cases h⟩
  | write p data =>
    cases hn : d.tree.node p with
    | none => cases d.faults.head?.join <;> exact .inl (Tree.modify_none (by simp [hn]) _)
    | some v =>
      cases v with
      | dir => cases d.faults.head?.join <;> exact .inl (Tree.modify_none (by simp [hn]) _)
      | file b =>
        right
        cases d.faults.head?.join with
        | some k => exact ⟨p, _, rfl, Tree.modify_node hn _, by simp [hn], fun h => by cases h⟩
        | none => exact ⟨p, _, rfl, Tree.modify_node hn _, by simp [hn], fun h => by cases h⟩
  | _ => cases d.faults.head?.join <;> exact .inl rfl

theorem exec_elsewhere (c : Call Name γ) (d : Disk Name γ) {q : List Name}
    (hq : place c ≠ some q) : (c.exec d).2.tree.node q = d.tree.node q := by
  obtain h | ⟨p, v, hp, h, _⟩ := exec_cases c d
  · rw [h]
  · rw [h, Function.update_of_ne]
    rintro rfl
    exact hq hp

def Same (S : List Name → Prop) (d d' : Disk Name γ) : Prop :=
  ∀ q, ¬ S q → d'.tree.node q = d.tree.node q

theorem create_empty (ps : List (Piece Name)) (d : Disk Name γ) :
    Triple (· = d) (create ps)
      (fun h d' => h = resolve [] ps ∧ d'.tree.read ps = .ok [] ∧
        Same (· = resolve [] ps) d d' ∧ d'.touched = d.touched ++ [resolve [] ps])
      (fun (_ : Errno) d' => d'.tree = d.tree ∧ d'.touched = d.touched) := by
  rintro d rfl
  unfold create
  rw [run_call]
  unfold Call.exec
  cases d.faults.head?.join with
  | some k => exact ⟨rfl, List.append_nil _⟩
  | none =>
    cases hc : d.tree.create ps [] with
    | error e =>
      simp only [Call.apply, hc, Prog.run]
      exact ⟨trivial, List.append_nil _⟩
    | ok r =>
      obtain ⟨t, p⟩ := r
      obtain ⟨rfl, hread, ht⟩ := Tree.create_read hc
      simp only [Call.apply, hc, Prog.run]
      refine ⟨trivial, hread, fun q hq => ?_, trivial⟩
      simp only [ht, Function.update_of_ne hq]

theorem create_spec (ps : List (Piece Name)) (d : Disk Name γ) :
    Triple (· = d) (create ps)
      (fun h d' => h = resolve [] ps ∧ (∃ b, d'.tree.read ps = .ok b) ∧
        Same (· = resolve [] ps) d d' ∧ d'.touched = d.touched ++ [resolve [] ps])
      (fun (_ : Errno) d' => d'.tree = d.tree ∧ d'.touched = d.touched) :=
  (create_empty ps d).weaken (fun _ h => h) (fun _ _ h => ⟨h.1, ⟨[], h.2.1⟩, h.2.2⟩)
    (fun _ _ h => h)

theorem load_spec (ps : List (Piece Name)) (d : Disk Name γ) :
    Triple (· = d) (load ps)
      (fun data d' => d'.tree = d.tree ∧ d'.touched = d.touched ∧ d.tree.read ps = .ok data)
      (fun (_ : Errno) d' => d'.tree = d.tree ∧ d'.touched = d.touched) := by
  rintro d rfl
  unfold load
  rw [run_call]
  unfold Call.exec
  cases d.faults.head?.join with
  | some k => exact ⟨rfl, List.append_nil _⟩
  | none =>
    dsimp only [Call.apply, Prog.run]
    cases d.tree.read ps <;> simp

theorem next_spec (d : Disk Name γ) :
    Triple (· = d) next (fun _ d' => d'.tree = d.tree ∧ d'.touched = d.touched)
      (fun (_ : Errno) d' => d'.tree = d.tree ∧ d'.touched = d.touched) := by
  rintro d rfl
  unfold next
  rw [run_call]
  unfold Call.exec
  cases d.faults.head?.join <;> exact ⟨rfl, List.append_nil _⟩

theorem next_keeps (P : Tree Name (List γ) → Prop) : Triple (fun d => P d.tree) next
    (fun _ d => P d.tree) (fun (_ : Errno) d => P d.tree) := by
  refine Triple.each fun d hd => (next_spec d).weaken (fun _ h => h) (fun _ d' h => ?_)
    (fun _ d' h => ?_)
  · rwa [h.1]
  · rwa [h.1]

theorem write_spec (ps : List (Piece Name)) (data : List γ) (d : Disk Name γ) :
    Triple (fun d' => d' = d ∧ ∃ b, d'.tree.read ps = .ok b) (write (resolve [] ps) data)
      (fun _ d' => d'.tree.read ps = .ok data ∧ Same (· = resolve [] ps) d d' ∧
        d'.touched = d.touched ++ [resolve [] ps])
      (fun _ d' => (∃ k, d'.tree.read ps = .ok (data.take (min k (data.length - 1)))) ∧
        Same (· = resolve [] ps) d d' ∧ d'.touched = d.touched ++ [resolve [] ps]) := by
  rintro d ⟨rfl, b, hb⟩
  have hsame : ∀ f, Same (· = resolve [] ps) d ⟨d.tree.modify (resolve [] ps) f, [], []⟩ :=
    fun f q hq => modify_elsewhere d.tree hq f
  unfold write
  rw [run_call]
  unfold Call.exec
  cases d.faults.head?.join with
  | some k => exact ⟨⟨k, Tree.read_modify hb _⟩, hsame _, rfl⟩
  | none => exact ⟨Tree.read_modify hb fun _ => data, hsame _, rfl⟩

end Places

section Growth

variable [DecidableEq Name]

/-- What is there stays what it is, save for the contents of files. -/
structure After (t t' : Tree Name (List γ)) : Prop where
  dir : ∀ q, t.node q = some .dir → t'.node q = some .dir
  file : ∀ q b, t.node q = some (.file b) → ∃ b', t'.node q = some (.file b')

omit [DecidableEq Name] in
theorem After.refl (t : Tree Name (List γ)) : After t t := ⟨fun _ h => h, fun _ b h => ⟨b, h⟩⟩

omit [DecidableEq Name] in
theorem After.trans {t t' t'' : Tree Name (List γ)} (h : After t t') (h' : After t' t'') :
    After t t'' where
  dir q hq := h'.dir q (h.dir q hq)
  file q b hq := by
    obtain ⟨b', hq'⟩ := h.file q b hq
    exact h'.file q b' hq'

omit [DecidableEq Name] in
theorem After.open {t t' : Tree Name (List γ)} (h : After t t') {p : List Name}
    {ps : List (Piece Name)} (ho : t.Open p ps) : t'.Open p ps :=
  fun qs hqs => h.dir _ (ho qs hqs)

theorem exec_after (c : Call Name γ) (d : Disk Name γ) : After d.tree (c.exec d).2.tree := by
  obtain h | ⟨p, v, _, h, hdir, hnew⟩ := exec_cases c d
  · exact ⟨fun q hq => by rwa [h], fun q b hq => ⟨b, by rwa [h]⟩⟩
  · refine ⟨fun q hq => ?_, fun q b hq => ?_⟩
    · have hne : q ≠ p := by
        rintro rfl
        exact hdir hq
      rwa [h, Function.update_of_ne hne]
    · by_cases hqp : q = p
      · subst hqp
        cases v with
        | dir =>
          rw [hnew rfl] at hq
          cases hq
        | file b' => exact ⟨b', by rw [h, Function.update_self]⟩
      · exact ⟨b, by rwa [h, Function.update_of_ne hqp]⟩

theorem run_after (p : Prog Name γ ε α) (d : Disk Name γ) : After d.tree (p.run d).2.tree := by
  induction p generalizing d with
  | done r => exact .refl _
  | call c k ih => exact (exec_after c d).trans (ih _ _)

theorem triple_after {p : Prog Name γ ε α} {d : Disk Name γ} {Q : α → Disk Name γ → Prop}
    {E : ε → Disk Name γ → Prop} (h : Triple (· = d) p Q E) :
    Triple (· = d) p (fun a d' => Q a d' ∧ After d.tree d'.tree)
      (fun e d' => E e d' ∧ After d.tree d'.tree) := by
  have hafter : Triple (· = d) p (fun _ d' => After d.tree d'.tree)
      (fun _ d' => After d.tree d'.tree) := Triple.always fun _ hd => hd ▸ run_after p d
  exact (h.and hafter).weaken (fun _ hd => ⟨hd, hd⟩) (fun _ _ h => h) (fun _ _ h => h)

/-- All that is new among the paths touched was made along open directories, at
a path for which `A` holds. -/
def Touched (A : List (Piece Name) → Prop) (d d' : Disk Name γ) : Prop :=
  ∃ new, d'.touched = d.touched ++ new ∧ ∀ q ∈ new, ∃ qs n, A (qs ++ [.down n]) ∧
    q = resolve [] (qs ++ [.down n]) ∧ d'.tree.Open [] qs

variable {A : List (Piece Name) → Prop} {d d' d'' : Disk Name γ}

omit [DecidableEq Name] in
theorem Touched.of_same (h : d'.touched = d.touched) : Touched A d d' := ⟨[], by simp [h], by simp⟩

omit [DecidableEq Name] in
theorem Touched.one {qs : List (Piece Name)} {n : Name} (hA : A (qs ++ [.down n]))
    (ho : d'.tree.Open [] qs) (h : d'.touched = d.touched ++ [resolve [] (qs ++ [.down n])]) :
    Touched A d d' := by
  refine ⟨_, h, fun q hq => ⟨qs, n, hA, List.mem_singleton.mp hq, ho⟩⟩

omit [DecidableEq Name] in
theorem Touched.trans (h : Touched A d d') (h' : Touched A d' d'') (ha : After d'.tree d''.tree) :
    Touched A d d'' := by
  obtain ⟨new, ht, hnew⟩ := h
  obtain ⟨new', ht', hnew'⟩ := h'
  refine ⟨new ++ new', by rw [ht', ht, List.append_assoc], fun q hq => ?_⟩
  obtain hq | hq := List.mem_append.mp hq
  · obtain ⟨qs, n, hA, he, ho⟩ := hnew q hq
    exact ⟨qs, n, hA, he, ha.open ho⟩
  · exact hnew' q hq

theorem Touched.of_grown {B : List (Piece Name) → Prop} (h : Grown B d d') (hB : ∀ qs, B qs → A qs) :
    Touched A d d' := by
  obtain ⟨new, ht, _, hnew⟩ := h
  refine ⟨new, ht, fun q hq => ?_⟩
  obtain ⟨_, qs, n, hA, he, ho⟩ := hnew q hq
  exact ⟨qs, n, hB _ hA, he, ho.of_prefix (List.prefix_append _ _)⟩

theorem touched_bind {p : Prog Name γ ε α} {f : α → Prog Name γ ε α'} {Q : α → Disk Name γ → Prop}
    {R : α' → Disk Name γ → Prop}
    (hp : Triple (· = d) p (fun a d' => Touched A d d' ∧ Q a d') (fun _ => Touched A d))
    (hf : ∀ a d₁, Q a d₁ → Triple (· = d₁) (f a) (fun b d' => Touched A d₁ d' ∧ R b d')
      (fun _ => Touched A d₁)) :
    Triple (· = d) (p.bind f) (fun b d' => Touched A d d' ∧ R b d') (fun _ => Touched A d) := by
  refine hp.bind fun a => Triple.each fun d₁ h₁ => ?_
  refine (triple_after (hf a d₁ h₁.2)).weaken (fun _ hd => hd) ?_ ?_
  · rintro b d' ⟨⟨ht, hR⟩, hafter⟩
    exact ⟨h₁.1.trans ht hafter, hR⟩
  · rintro e d' ⟨ht, hafter⟩
    exact h₁.1.trans ht hafter

end Growth

end UnBoxer.Effects
