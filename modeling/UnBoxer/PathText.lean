import UnBoxer.Trees

namespace UnBoxer.PathText

open UnBoxer.Trees

abbrev Text := List Char

/-- How the kernel reads one part of a path between slashes. -/
def piece (s : Text) : Option (Piece Text) :=
  if s = [] then none
  else if s = ['.'] then some .here
  else if s = ['.', '.'] then some .up
  else some (.down s)

def pieces (path : Text) : List (Piece Text) := (path.splitOn '/').filterMap piece

/-- `Path::join`: an absolute second path replaces the first. -/
def join (base name : Text) : Text :=
  if name.head? = some '/' then name
  else if base = [] ∨ base.getLast? = some '/' then base ++ name
  else base ++ '/' :: name

/-- A name that a file system allows for a file. -/
def Legal (n : Text) : Prop := n ≠ [] ∧ '/' ∉ n ∧ n ≠ ['.'] ∧ n ≠ ['.', '.']

instance (n : Text) : Decidable (Legal n) := inferInstanceAs (Decidable (_ ∧ _ ∧ _ ∧ _))

abbrev nul : Char := Char.ofNat 0

/-- What can stand as a name in a directory. -/
def FileName (n : Text) : Prop := Legal n ∧ nul ∉ n

instance (n : Text) : Decidable (FileName n) := inferInstanceAs (Decidable (_ ∧ _))

def hasNul : Piece Text → Bool
  | .down n => decide (nul ∈ n)
  | _ => false

def path (ns : List Text) : Text := ['/'].intercalate ns

theorem pieces_nil : pieces [] = [] := rfl

theorem pieces_append (a b : Text) : pieces (a ++ '/' :: b) = pieces a ++ pieces b := by
  rw [pieces, List.splitOn_append_cons_self, List.filterMap_append]
  rfl

theorem pieces_slash (a : Text) : pieces (a ++ ['/']) = pieces a := by
  rw [pieces_append, pieces_nil, List.append_nil]

theorem pieces_legal {n : Text} (hn : Legal n) : pieces n = [.down n] := by
  obtain ⟨h0, hs, h1, h2⟩ := hn
  rw [pieces, List.splitOn_eq_singleton hs]
  simp [piece, h0, h1, h2]

theorem pieces_join {base name : Text} (h : name.head? ≠ some '/') :
    pieces (join base name) = pieces base ++ pieces name := by
  rw [join, if_neg h]
  split
  · rename_i hb
    obtain rfl | hb := hb
    · rfl
    · have hbase := List.dropLast_append_getLast? _ hb
      rw [← hbase, pieces_slash, List.append_assoc, List.singleton_append, pieces_append]
  · exact pieces_append base name

theorem Legal.head {n : Text} (hn : Legal n) : n.head? ≠ some '/' := by
  intro h
  exact hn.2.1 (List.mem_of_mem_head? h)

theorem path_cons (n m : Text) (ns : List Text) : path (n :: m :: ns) = n ++ '/' :: path (m :: ns) := by
  simp [path, List.intercalate]

theorem path_concat {ns : List Text} (hns : ns ≠ []) (n : Text) :
    path (ns ++ [n]) = path ns ++ '/' :: n := by
  induction ns with
  | nil => exact absurd rfl hns
  | cons m ns ih =>
    cases ns with
    | nil => simp [path, List.intercalate]
    | cons k ns =>
      have h := ih (by simp)
      rw [List.cons_append, List.cons_append, path_cons, path_cons, ← List.cons_append, h]
      simp

theorem pieces_path {ns : List Text} (h : ∀ n ∈ ns, Legal n) : pieces (path ns) = ns.map .down := by
  induction ns using List.reverseRecOn with
  | nil => rfl
  | append_singleton ns n ih =>
    have hn := pieces_legal (h n (by simp))
    by_cases hns : ns = []
    · subst hns
      simpa [path, List.intercalate] using hn
    · rw [path_concat hns, pieces_append, ih (fun m hm => h m (by simp [hm])), hn]
      simp

theorem path_head {ns : List Text} (h : ∀ n ∈ ns, Legal n) : (path ns).head? ≠ some '/' := by
  cases ns with
  | nil => simp [path, List.intercalate]
  | cons n ns =>
    have hn := (h n List.mem_cons_self).head
    obtain ⟨c, cs, rfl⟩ := List.exists_cons_of_ne_nil (h n List.mem_cons_self).1
    cases ns with
    | nil => simpa [path, List.intercalate] using hn
    | cons m ns => simpa [path_cons] using hn

theorem path_ne_nil {ns : List Text} (h : ∀ n ∈ ns, Legal n) (hns : ns ≠ []) : path ns ≠ [] := by
  intro he
  have hl := pieces_path h
  rw [he, pieces_nil] at hl
  exact hns (List.map_eq_nil_iff.mp hl.symm)

theorem path_getLast {ns : List Text} {n : Text} (hn : n ≠ []) :
    (path (ns ++ [n])).getLast? = n.getLast? := by
  by_cases hns : ns = []
  · simp [hns, path, List.intercalate]
  · rw [path_concat hns, List.getLast?_append_cons, List.getLast?_cons_of_ne_nil hn]

end UnBoxer.PathText
