import UnBoxer.TreeUpdates

namespace UnBoxer.Scaffolds

open UnBoxer.Trees

variable {Name β : Type}

def Needed (ws : List (List (Piece Name))) (q : List Name) : Prop :=
  ∃ ps ∈ ws, ∃ qs, qs <+: ps ∧ q <+: resolve [] qs

variable {ws : List (List (Piece Name))}

theorem needed_iff_inits {q : List Name} :
    (∃ ps ∈ ws, ∃ qs ∈ ps.inits, q <+: resolve [] qs) ↔ Needed ws q := by
  simp only [Needed, List.mem_inits]

instance [DecidableEq Name] (q : List Name) : Decidable (Needed ws q) :=
  decidable_of_iff _ needed_iff_inits

theorem Needed.of_prefix {p q : List Name} (h : Needed ws q) (hp : p <+: q) : Needed ws p := by
  obtain ⟨ps, hps, qs, hqs, hq⟩ := h
  exact ⟨ps, hps, qs, hqs, hp.trans hq⟩

theorem Needed.mono {ws' : List (List (Piece Name))} {q : List Name} (h : Needed ws q)
    (hsub : ∀ ps ∈ ws, ∃ ps' ∈ ws', ps <+: ps') : Needed ws' q := by
  obtain ⟨ps, hps, qs, hqs, hq⟩ := h
  obtain ⟨ps', hps', hpp⟩ := hsub ps hps
  exact ⟨ps', hps', qs, hqs.trans hpp, hq⟩

theorem needed_dir {t : Tree Name β} (h : ∀ ps ∈ ws, t.Open [] ps) {q : List Name}
    (hq : Needed ws q) : t.node q = some .dir := by
  obtain ⟨ps, hps, qs, hqs, hp⟩ := hq
  exact t.dir_of_prefix_dir hp (h ps hps qs hqs)

theorem needed_finite (ws : List (List (Piece Name))) : {q | Needed ws q}.Finite := by
  refine (List.finite_toSet (ws.flatMap fun ps => ps.inits.flatMap fun qs =>
    (resolve [] qs).inits)).subset ?_
  rintro q ⟨ps, hps, qs, hqs, hq⟩
  refine List.mem_flatMap.mpr ⟨ps, hps, List.mem_flatMap.mpr ⟨qs, ?_, ?_⟩⟩
  · exact (List.mem_inits qs ps).mpr hqs
  · exact (List.mem_inits q _).mpr hq

/-- A tree with nothing in it but the directories that are needed. -/
theorem exists_scaffold (β : Type) (hne : ws ≠ []) : ∃ t : Tree Name β, ∀ q,
    (Needed ws q → t.node q = some .dir) ∧ (¬ Needed ws q → t.node q = none) := by
  classical
  obtain ⟨ps, hps⟩ := List.exists_mem_of_ne_nil ws hne
  have hroot : Needed ws [] := ⟨ps, hps, [], List.nil_prefix, List.nil_prefix⟩
  refine ⟨⟨fun q => if Needed ws q then some .dir else none, if_pos hroot, fun p n h => ?_, ?_⟩,
    fun q => ⟨fun h => if_pos h, fun h => if_neg h⟩⟩
  · by_cases hn : Needed ws (p ++ [n])
    · exact if_pos (hn.of_prefix (List.prefix_append _ _))
    · exact absurd (if_neg hn) h
  · refine (needed_finite ws).subset fun q hq => ?_
    by_contra hn
    exact hq (if_neg hn)

theorem open_of_needed {t : Tree Name β} (ht : ∀ q, Needed ws q → t.node q = some .dir)
    {ps : List (Piece Name)} (hps : ∃ ps' ∈ ws, ps <+: ps') : t.Open [] ps := by
  obtain ⟨ps', hps', hpp⟩ := hps
  exact fun qs hqs => ht _ ⟨ps', hps', qs, hqs.trans hpp, List.prefix_refl _⟩

end UnBoxer.Scaffolds
