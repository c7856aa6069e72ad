import UnBoxer.Trees

namespace UnBoxer.Trees.Tree

variable {Name β : Type} [DecidableEq Name]

def put (t : Tree Name β) (p : List Name) (n : Name) (v : Node β)
    (hp : t.node p = some .dir) (hn : t.node (p ++ [n]) ≠ some .dir) : Tree Name β where
  node := Function.update t.node (p ++ [n]) (some v)
  root := by simp [t.root]
  parent := by
    intro q m h
    have hq : q ≠ p ++ [n] := by
      rintro rfl
      by_cases hm : p ++ [n] ++ [m] = p ++ [n]
      · simp at hm
      · rw [Function.update_of_ne hm] at h
        exact hn (t.parent _ _ h)
    rw [Function.update_of_ne hq]
    by_cases hm : q ++ [m] = p ++ [n]
    · rwa [(List.append_inj' hm rfl).1]
    · rw [Function.update_of_ne hm] at h
      exact t.parent _ _ h
  finite := by
    refine (t.finite.insert (p ++ [n])).subset fun q hq => ?_
    by_cases he : q = p ++ [n]
    · exact .inl he
    · exact .inr (by simpa [Function.update_of_ne he] using hq)

theorem put_node (t : Tree Name β) {p : List Name} {n : Name} {v : Node β}
    (hp : t.node p = some .dir) (hn : t.node (p ++ [n]) ≠ some .dir) :
    (t.put p n v hp hn).node = Function.update t.node (p ++ [n]) (some v) := rfl

def mkdir (t : Tree Name β) (ps : List (Piece Name)) : Except Errno (Tree Name β) :=
  match hw : t.walk [] ps.dropLast with
  | .error e => .error e
  | .ok cwd =>
    match ps.getLast? with
    | some (.down n) =>
      match hn : t.node (cwd ++ [n]) with
      | none => .ok (t.put cwd n .dir (t.walk_isDir hw) (by simp [hn]))
      | some _ => .error .alreadyExists
    | _ => .error .alreadyExists

/-- Open a file for writing: it is created, or cut down to `empty`. The path
that the file then has stands for the handle. -/
def create (t : Tree Name β) (ps : List (Piece Name)) (empty : β) :
    Except Errno (Tree Name β × List Name) :=
  match hw : t.walk [] ps.dropLast with
  | .error e => .error e
  | .ok cwd =>
    match ps.getLast? with
    | some (.down n) =>
      match hn : t.node (cwd ++ [n]) with
      | some .dir => .error .isADirectory
      | some (.file _) =>
        .ok (t.put cwd n (.file empty) (t.walk_isDir hw) (by simp [hn]), cwd ++ [n])
      | none => .ok (t.put cwd n (.file empty) (t.walk_isDir hw) (by simp [hn]), cwd ++ [n])
    | _ => .error .isADirectory

def read (t : Tree Name β) (ps : List (Piece Name)) : Except Errno β :=
  match t.walk [] ps.dropLast with
  | .error e => .error e
  | .ok cwd =>
    match ps.getLast? with
    | some (.down n) =>
      match t.node (cwd ++ [n]) with
      | some (.file b) => .ok b
      | some .dir => .error .isADirectory
      | none => .error .notFound
    | _ => .error .isADirectory

/-- Change the content of the file at `p`; nothing happens when it is gone. -/
def modify (t : Tree Name β) (p : List Name) (f : β → β) : Tree Name β where
  node q :=
    match t.node q with
    | some (.file b) => some (.file (if q = p then f b else b))
    | v => v
  root := by simp [t.root]
  parent := by
    intro q n h
    have hq : t.node (q ++ [n]) ≠ none := by
      intro hn
      simp [hn] at h
    simp [t.parent q n hq]
  finite := by
    refine t.finite.subset fun q hq hn => hq ?_
    simp [hn]

def remove (t : Tree Name β) (p : List Name) (n : Name) : Tree Name β where
  node q := if p ++ [n] <+: q then none else t.node q
  root := by simp [t.root]
  parent := by
    intro q m h
    by_cases hm : p ++ [n] <+: q ++ [m]
    · simp [hm] at h
    · have hq : ¬ p ++ [n] <+: q := fun hq => hm (hq.trans (List.prefix_append q [m]))
      rw [if_neg hm] at h
      rw [if_neg hq]
      exact t.parent q m h
  finite := by
    refine t.finite.subset fun q hq hn => hq ?_
    simp [hn]

def removeAll (t : Tree Name β) (ps : List (Piece Name)) : Except Errno (Tree Name β) :=
  match t.walk [] ps.dropLast with
  | .error e => .error e
  | .ok cwd =>
    match ps.getLast? with
    | some (.down n) =>
      match t.node (cwd ++ [n]) with
      | none => .error .notFound
      | some _ => .ok (t.remove cwd n)
    | _ => .error .failed

theorem mkdir_ok {t t' : Tree Name β} {ps : List (Piece Name)} (h : t.mkdir ps = .ok t') :
    ∃ qs n, ps = qs ++ [.down n] ∧ t.Open [] qs ∧ t.node (resolve [] qs ++ [n]) = none ∧
      t'.node = Function.update t.node (resolve [] qs ++ [n]) (some .dir) := by
  unfold mkdir at h
  split at h
  · cases h
  · rename_i cwd hw
    split at h
    · rename_i n hl
      split at h
      · rename_i hn
        obtain ⟨qs, hps, ho, rfl⟩ := walk_last hw hl
        cases h
        exact ⟨qs, n, hps, ho, hn, rfl⟩
      · cases h
    · cases h

theorem mkdir_new (t : Tree Name β) {qs : List (Piece Name)} {n : Name} (ho : t.Open [] qs)
    (hn : t.node (resolve [] qs ++ [n]) = none) :
    ∃ t', t.mkdir (qs ++ [.down n]) = .ok t' ∧
      t'.node = Function.update t.node (resolve [] qs ++ [n]) (some .dir) := by
  have hw := t.walk_concat ho (.down n)
  unfold mkdir
  split
  · rename_i e he
    rw [hw] at he
    cases he
  · rename_i cwd hc
    rw [hw] at hc
    cases hc
    simp only [List.getLast?_concat]
    split
    · exact ⟨_, rfl, rfl⟩
    · rename_i v hv
      rw [hn] at hv
      cases hv

theorem mkdir_open (t : Tree Name β) {ps : List (Piece Name)} (ho : t.Open [] ps) :
    t.mkdir ps = .error .alreadyExists := by
  have hw : t.walk [] ps.dropLast = .ok (resolve [] ps.dropLast) :=
    (t.walk_ok t.root _ _).mpr ⟨ho.of_prefix (List.dropLast_prefix ps), rfl⟩
  unfold mkdir
  split
  · rename_i e he
    rw [hw] at he
    cases he
  · rename_i cwd hc
    rw [hw] at hc
    cases hc
    split
    · rename_i n hl
      have hps := List.dropLast_append_getLast? _ hl
      have hd : t.node (resolve [] ps.dropLast ++ [n]) = some .dir := by
        have := ho.dir
        rwa [← hps, resolve_append] at this
      split
      · rename_i hn
        rw [hd] at hn
        cases hn
      · rfl
    · rfl

theorem mkdir_notFound (t : Tree Name β) {qs rs : List (Piece Name)} {n : Name}
    (ho : t.Open [] qs) (hn : t.node (resolve [] qs ++ [n]) = none) (hr : rs ≠ []) :
    t.mkdir (qs ++ .down n :: rs) = .error .notFound := by
  have hw := t.walk_notFound ho hn rs.dropLast
  have hd : (qs ++ .down n :: rs).dropLast = qs ++ .down n :: rs.dropLast := by
    rw [List.dropLast_append_of_ne_nil (by simp), List.dropLast_cons_of_ne_nil hr]
  rw [← hd] at hw
  unfold mkdir
  split
  · rename_i e he
    rw [hw] at he
    cases he
    rfl
  · rename_i cwd hc
    rw [hw] at hc
    cases hc

theorem create_ok {t t' : Tree Name β} {ps : List (Piece Name)} {empty : β} {p : List Name}
    (h : t.create ps empty = .ok (t', p)) :
    ∃ qs n, ps = qs ++ [.down n] ∧ t.Open [] qs ∧ p = resolve [] qs ++ [n] ∧
      t.node p ≠ some .dir ∧ t'.node = Function.update t.node p (some (.file empty)) := by
  unfold create at h
  split at h
  · cases h
  · rename_i cwd hw
    split at h
    · rename_i n hl
      obtain ⟨qs, hps, ho, rfl⟩ := walk_last hw hl
      split at h
      · cases h
      · rename_i hn
        cases h
        exact ⟨qs, n, hps, ho, rfl, by simp [hn], rfl⟩
      · rename_i hn
        cases h
        exact ⟨qs, n, hps, ho, rfl, by simp [hn], rfl⟩
    · cases h

theorem create_new (t : Tree Name β) {qs : List (Piece Name)} {n : Name} (empty : β)
    (ho : t.Open [] qs) (hn : t.node (resolve [] qs ++ [n]) ≠ some .dir) :
    ∃ t', t.create (qs ++ [.down n]) empty = .ok (t', resolve [] qs ++ [n]) ∧
      t'.node = Function.update t.node (resolve [] qs ++ [n]) (some (.file empty)) := by
  have hw := t.walk_concat ho (.down n)
  unfold create
  split
  · rename_i e he
    rw [hw] at he
    cases he
  · rename_i cwd hc
    rw [hw] at hc
    cases hc
    simp only [List.getLast?_concat]
    split
    · rename_i hd
      exact absurd hd hn
    · exact ⟨_, rfl, rfl⟩
    · exact ⟨_, rfl, rfl⟩

omit [DecidableEq Name] in
theorem read_ok {t : Tree Name β} {ps : List (Piece Name)} {b : β} :
    t.read ps = .ok b ↔ ∃ qs n, ps = qs ++ [.down n] ∧ t.Open [] qs ∧
      t.node (resolve [] ps) = some (.file b) := by
  unfold read
  constructor
  · intro h
    split at h
    · cases h
    · rename_i cwd hw
      split at h
      · rename_i n hl
        obtain ⟨qs, rfl, ho, rfl⟩ := walk_last hw hl
        split at h
        · rename_i hn
          cases h
          exact ⟨qs, n, rfl, ho, by simpa [move] using hn⟩
        · cases h
        · cases h
      · cases h
  · rintro ⟨qs, n, rfl, ho, hn⟩
    have hw : t.walk [] qs = .ok (resolve [] qs) := (t.walk_ok t.root _ _).mpr ⟨ho, rfl⟩
    have hn' : t.node (resolve [] qs ++ [n]) = some (.file b) := by simpa [move] using hn
    simp [hw, hn']

omit [DecidableEq Name] in
theorem read_downs {t : Tree Name β} {ns : List Name} {b : β} :
    t.read (ns.map .down) = .ok b ↔ t.node ns = some (.file b) := by
  rw [read_ok]
  constructor
  · rintro ⟨qs, n, _, _, hn⟩
    rwa [resolve_down] at hn
  · intro hn
    have hne : ns ≠ [] := by
      rintro rfl
      rw [t.root] at hn
      cases hn
    obtain ⟨ms, n, rfl⟩ : ∃ ms n, ns = ms ++ [n] :=
      ⟨_, _, (List.dropLast_append_getLast hne).symm⟩
    have hd : t.node ([] ++ ms) = some .dir := t.parent ms n (by simp [hn])
    exact ⟨ms.map .down, n, by simp, t.open_downs hd, by rwa [resolve_down]⟩

theorem create_read {t t' : Tree Name β} {ps : List (Piece Name)} {empty : β} {p : List Name}
    (h : t.create ps empty = .ok (t', p)) : p = resolve [] ps ∧ t'.read ps = .ok empty ∧
      t'.node = Function.update t.node p (some (.file empty)) := by
  obtain ⟨qs, n, rfl, ho, rfl, hd, ht⟩ := create_ok h
  have hr : resolve [] (qs ++ [.down n]) = resolve [] qs ++ [n] := by simp [move]
  refine ⟨hr.symm, read_ok.mpr ⟨qs, n, rfl, fun rs hrs => ?_, ?_⟩, ht⟩
  · have hne : resolve [] rs ≠ resolve [] qs ++ [n] := fun he => hd (he ▸ ho rs hrs)
    rw [ht, Function.update_of_ne hne]
    exact ho rs hrs
  · rw [hr, ht, Function.update_self]

theorem modify_node {t : Tree Name β} {p : List Name} {b : β} (h : t.node p = some (.file b))
    (f : β → β) : (t.modify p f).node = Function.update t.node p (some (.file (f b))) := by
  funext q
  by_cases hq : q = p
  · subst hq
    simp only [modify, h, if_true, Function.update_self]
  · rw [Function.update_of_ne hq]
    simp only [modify, hq, if_false]
    split
    · rename_i h
      rw [h]
    · rfl

theorem modify_none {t : Tree Name β} {p : List Name} (h : ∀ b, t.node p ≠ some (.file b))
    (f : β → β) : (t.modify p f).node = t.node := by
  funext q
  simp only [modify]
  split
  · rename_i b hb
    have hne : q ≠ p := by
      rintro rfl
      exact h b hb
    rw [if_neg hne, hb]
  · rfl

theorem modify_dir (t : Tree Name β) (p q : List Name) (f : β → β) :
    (t.modify p f).node q = some .dir ↔ t.node q = some .dir := by
  simp only [modify]
  split
  · rename_i h
    simp [h]
  · rfl

theorem read_modify {t : Tree Name β} {ps : List (Piece Name)} {b : β} (h : t.read ps = .ok b)
    (f : β → β) : (t.modify (resolve [] ps) f).read ps = .ok (f b) := by
  obtain ⟨qs, n, rfl, ho, hn⟩ := read_ok.mp h
  refine read_ok.mpr ⟨qs, n, rfl, fun rs hrs => ?_, ?_⟩
  · exact (modify_dir t _ _ f).mpr (ho rs hrs)
  · simp only [modify, hn, if_true]

theorem removeAll_ok {t t' : Tree Name β} {ps : List (Piece Name)}
    (h : t.removeAll ps = .ok t') (q : List Name) :
    t'.node q = if resolve [] ps <+: q then none else t.node q := by
  unfold removeAll at h
  split at h
  · cases h
  · rename_i cwd hw
    split at h
    · rename_i n hl
      obtain ⟨qs, rfl, _, rfl⟩ := walk_last hw hl
      have hr : resolve [] (qs ++ [.down n]) = resolve [] qs ++ [n] := by simp [move]
      split at h
      · cases h
      · cases h
        rw [hr]
        rfl
    · cases h

theorem removeAll_downs {t t' : Tree Name β} {ns : List Name}
    (h : t.removeAll (ns.map .down) = .ok t') (q : List Name) :
    t'.node q = if ns <+: q then none else t.node q := by
  have hq := removeAll_ok h q
  rwa [resolve_down, List.nil_append] at hq

end UnBoxer.Trees.Tree
