import Mathlib.Data.List.Basic
import Mathlib.Data.List.Infix
import Mathlib.Data.Set.Finite.Basic
import Mathlib.Logic.Function.Basic
import Mathlib.Tactic.Common

namespace UnBoxer.Trees

variable {Name β : Type}

inductive Node (β : Type) where
  | dir
  | file (content : β)
  deriving DecidableEq

/-- A file system without links: a node for each of the finitely many paths
that exist, where the root is a directory and only directories have children. -/
structure Tree (Name β : Type) where
  node : List Name → Option (Node β)
  root : node [] = some .dir
  parent : ∀ p n, node (p ++ [n]) ≠ none → node p = some .dir
  finite : {p | node p ≠ none}.Finite

/-- One component of a path as the kernel reads it. -/
inductive Piece (Name : Type) where
  | here
  | up
  | down (n : Name)
  deriving DecidableEq

inductive Errno where
  | notFound
  | notADirectory
  | isADirectory
  | alreadyExists
  | failed
  deriving DecidableEq

def move (p : List Name) : Piece Name → List Name
  | .here => p
  | .up => p.dropLast
  | .down n => p ++ [n]

/-- The path that a list of components names when it is followed from `p`. -/
def resolve (p : List Name) (ps : List (Piece Name)) : List Name := ps.foldl move p

@[simp] theorem resolve_nil (p : List Name) : resolve p [] = p := rfl

@[simp] theorem resolve_cons (p : List Name) (c : Piece Name) (ps : List (Piece Name)) :
    resolve p (c :: ps) = resolve (move p c) ps := rfl

@[simp] theorem resolve_append (p : List Name) (ps qs : List (Piece Name)) :
    resolve p (ps ++ qs) = resolve (resolve p ps) qs := List.foldl_append

theorem resolve_down (p ns : List Name) : resolve p (ns.map .down) = p ++ ns := by
  induction ns generalizing p with
  | nil => simp
  | cons n ns ih => simp [move, ih]

namespace Tree

theorem ext {s t : Tree Name β} (h : ∀ p, s.node p = t.node p) : s = t := by
  cases s; cases t
  congr
  exact funext h

theorem prefix_dir (t : Tree Name β) {p q : List Name} (h : t.node (p ++ q) ≠ none)
    (hq : q ≠ []) : t.node p = some .dir := by
  induction q using List.reverseRecOn with
  | nil => exact absurd rfl hq
  | append_singleton q n ih =>
    rw [← List.append_assoc] at h
    have hd := t.parent _ _ h
    by_cases hq' : q = []
    · simpa [hq'] using hd
    · exact ih (by simp [hd]) hq'

theorem dir_of_prefix (t : Tree Name β) {p q : List Name} (hpq : p <+: q) (hne : p ≠ q)
    (h : t.node q ≠ none) : t.node p = some .dir := by
  obtain ⟨r, rfl⟩ := hpq
  exact t.prefix_dir h (by rintro rfl; simp at hne)

theorem dir_of_prefix_dir (t : Tree Name β) {p q : List Name} (hpq : p <+: q)
    (h : t.node q = some .dir) : t.node p = some .dir := by
  by_cases hne : p = q
  · rw [hne, h]
  · exact t.dir_of_prefix hpq hne (by simp [h])

theorem dropLast_dir (t : Tree Name β) {p : List Name} (h : t.node p = some .dir) :
    t.node p.dropLast = some .dir := t.dir_of_prefix_dir (List.dropLast_prefix p) h

/-- Follow a list of components, every one of which must lead to a directory. -/
def walk (t : Tree Name β) : List Name → List (Piece Name) → Except Errno (List Name)
  | p, [] => .ok p
  | p, .here :: ps => t.walk p ps
  | p, .up :: ps => t.walk p.dropLast ps
  | p, .down n :: ps =>
    match t.node (p ++ [n]) with
    | some .dir => t.walk (p ++ [n]) ps
    | some (.file _) => .error .notADirectory
    | none => .error .notFound

/-- Every path that the components pass through is a directory. -/
def Open (t : Tree Name β) (p : List Name) (ps : List (Piece Name)) : Prop :=
  ∀ qs, qs <+: ps → t.node (resolve p qs) = some .dir

theorem open_nil (t : Tree Name β) (p : List Name) : t.Open p [] ↔ t.node p = some .dir := by
  simp [Open, List.prefix_nil]

theorem open_cons (t : Tree Name β) (p : List Name) (c : Piece Name) (ps : List (Piece Name)) :
    t.Open p (c :: ps) ↔ t.node p = some .dir ∧ t.Open (move p c) ps := by
  constructor
  · intro h
    refine ⟨h [] (by simp), fun qs hqs => ?_⟩
    exact h (c :: qs) (List.cons_prefix_cons.mpr ⟨rfl, hqs⟩)
  · rintro ⟨hp, h⟩ qs hqs
    cases qs with
    | nil => exact hp
    | cons d qs =>
      obtain ⟨rfl, hqs'⟩ := List.cons_prefix_cons.mp hqs
      exact h qs hqs'

theorem open_append (t : Tree Name β) (p : List Name) (ps qs : List (Piece Name)) :
    t.Open p (ps ++ qs) ↔ t.Open p ps ∧ t.Open (resolve p ps) qs := by
  induction ps generalizing p with
  | nil =>
    simp only [List.nil_append, resolve_nil, open_nil, iff_and_self]
    exact fun h => h [] (by simp)
  | cons c ps ih => simp only [List.cons_append, open_cons, ih, resolve_cons, and_assoc]

theorem Open.of_prefix {t : Tree Name β} {p : List Name} {ps qs : List (Piece Name)}
    (h : t.Open p ps) (hq : qs <+: ps) : t.Open p qs := fun rs hr => h rs (hr.trans hq)

theorem Open.dir {t : Tree Name β} {p : List Name} {ps : List (Piece Name)}
    (h : t.Open p ps) : t.node (resolve p ps) = some .dir := h ps (List.prefix_refl ps)

theorem open_concat (t : Tree Name β) (p : List Name) (ps : List (Piece Name)) (c : Piece Name) :
    t.Open p (ps ++ [c]) ↔ t.Open p ps ∧ t.node (resolve p (ps ++ [c])) = some .dir := by
  rw [open_append, open_cons, open_nil, resolve_append]
  constructor
  · rintro ⟨h, _, hc⟩
    exact ⟨h, hc⟩
  · rintro ⟨h, hc⟩
    exact ⟨h, h.dir, hc⟩

/-- The walk succeeds exactly along directories, and ends at the resolved path. -/
theorem walk_ok (t : Tree Name β) {p : List Name} (hp : t.node p = some .dir)
    (ps : List (Piece Name)) (q : List Name) :
    t.walk p ps = .ok q ↔ t.Open p ps ∧ q = resolve p ps := by
  induction ps generalizing p with
  | nil => simp [walk, open_nil, hp, eq_comm]
  | cons c ps ih =>
    rw [open_cons]
    simp only [hp, true_and, resolve_cons]
    cases c with
    | here => exact ih hp
    | up => exact ih (t.dropLast_dir hp)
    | down n =>
      have hclosed : t.node (p ++ [n]) ≠ some .dir → ¬ t.Open (p ++ [n]) ps :=
        fun hn h => hn (h [] (by simp))
      cases hn : t.node (p ++ [n]) with
      | none => simp [walk, hn, move, hclosed]
      | some v =>
        cases v with
        | dir => simpa [walk, hn, move] using ih hn
        | file b => simp [walk, hn, move, hclosed]

theorem walk_concat (t : Tree Name β) {ps : List (Piece Name)} (h : t.Open [] ps)
    (c : Piece Name) : t.walk [] (ps ++ [c]).dropLast = .ok (resolve [] ps) := by
  rw [List.dropLast_concat]
  exact (t.walk_ok t.root _ _).mpr ⟨h, rfl⟩

theorem walk_last {t : Tree Name β} {ps : List (Piece Name)} {cwd : List Name} {n : Name}
    (hw : t.walk [] ps.dropLast = .ok cwd) (hl : ps.getLast? = some (.down n)) :
    ∃ qs, ps = qs ++ [.down n] ∧ t.Open [] qs ∧ cwd = resolve [] qs := by
  obtain ⟨ho, rfl⟩ := (t.walk_ok t.root _ _).mp hw
  exact ⟨ps.dropLast, (List.dropLast_append_getLast? _ hl).symm, ho, rfl⟩

def present (t : Tree Name β) (ps : List (Piece Name)) : Bool :=
  match t.walk [] ps.dropLast with
  | .error _ => false
  | .ok cwd =>
    match ps.getLast? with
    | some (.down n) => (t.node (cwd ++ [n])).isSome
    | _ => true

theorem open_downs (t : Tree Name β) {p ns : List Name} (h : t.node (p ++ ns) = some .dir) :
    t.Open p (ns.map .down) := by
  intro qs hqs
  obtain ⟨ms, hms, rfl⟩ := List.prefix_map_iff.mp hqs
  rw [resolve_down]
  exact t.dir_of_prefix_dir (List.prefix_append_right_inj p |>.mpr hms) h

theorem present_down (t : Tree Name β) (ps : List (Piece Name)) (n : Name) :
    t.present (ps ++ [.down n]) = true ↔ t.Open [] ps ∧ t.node (resolve [] ps ++ [n]) ≠ none := by
  have hw := t.walk_ok t.root ps
  unfold present
  rw [List.dropLast_concat, List.getLast?_concat]
  cases h : t.walk [] ps with
  | error e =>
    have ho : ¬ t.Open [] ps := fun ho => by simp [(hw _).mpr ⟨ho, rfl⟩] at h
    simp [ho]
  | ok q =>
    obtain ⟨ho, rfl⟩ := (hw q).mp h
    simp [ho, Option.isSome_iff_ne_none]

theorem present_downs (t : Tree Name β) (ns : List Name) :
    t.present (ns.map .down) = true ↔ t.node ns ≠ none := by
  induction ns using List.reverseRecOn with
  | nil => simp [present, walk, t.root]
  | append_singleton ns n _ =>
    rw [List.map_append, List.map_singleton, present_down, resolve_down, List.nil_append]
    refine and_iff_right_of_imp fun hn => t.open_downs ?_
    exact t.parent ns n hn

theorem walk_isDir (t : Tree Name β) {ps : List (Piece Name)} {q : List Name}
    (h : t.walk [] ps = .ok q) : t.node q = some .dir := by
  obtain ⟨ho, rfl⟩ := (t.walk_ok t.root ps q).mp h
  exact ho.dir

theorem walk_notFound (t : Tree Name β) {p : List Name} {qs : List (Piece Name)} {n : Name}
    (ho : t.Open p qs) (hn : t.node (resolve p qs ++ [n]) = none) (rs : List (Piece Name)) :
    t.walk p (qs ++ .down n :: rs) = .error .notFound := by
  induction qs generalizing p with
  | nil => simpa [walk] using by rw [show t.node (p ++ [n]) = none from hn]
  | cons c qs ih =>
    obtain ⟨_, ho'⟩ := (t.open_cons p c qs).mp ho
    have h := ih ho' hn
    cases c with
    | here => exact h
    | up => exact h
    | down m =>
      have hm : t.node (p ++ [m]) = some .dir := ho' [] (by simp)
      simpa [walk, hm, move] using h

end Tree

end UnBoxer.Trees
