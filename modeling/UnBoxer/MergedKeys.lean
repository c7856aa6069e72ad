import Mathlib.Data.List.Basic
import Mathlib.Data.List.Pairwise
import Mathlib.Data.List.Perm.Basic
import Mathlib.Tactic.Common

namespace UnBoxer.MergedKeys

variable {κ α β : Type}

/-- Of the pairs whose keys are the same, `m` has just one: with one of their keys, and with
one of their values. -/
structure Merges (same : κ → κ → Prop) (kvs m : List (κ × α)) : Prop where
  distinct : m.Pairwise fun a b => ¬ same a.1 b.1
  key : ∀ e ∈ m, ∃ v, (e.1, v) ∈ kvs
  value : ∀ e ∈ m, ∃ k, same k e.1 ∧ (k, e.2) ∈ kvs
  total : ∀ e ∈ kvs, ∃ e' ∈ m, same e.1 e'.1

section Laws

variable {same same' : κ → κ → Prop} {kvs m m' : List (κ × α)}

theorem Merges.trans (h : Merges same kvs m) (h' : Merges same' m m')
    (hle : ∀ a b, same a b → same' a b) (hs : Equivalence same') : Merges same' kvs m' where
  distinct := h'.distinct
  key e he := by
    obtain ⟨v, hv⟩ := h'.key e he
    exact h.key (e.1, v) hv
  value e he := by
    obtain ⟨k, hk, hm⟩ := h'.value e he
    obtain ⟨l, hl, hkvs⟩ := h.value _ hm
    exact ⟨l, hs.trans (hle _ _ hl) hk, hkvs⟩
  total e he := by
    obtain ⟨e₁, he₁, h₁⟩ := h.total e he
    obtain ⟨e₂, he₂, h₂⟩ := h'.total e₁ he₁
    exact ⟨e₂, he₂, hs.trans (hle _ _ h₁) h₂⟩

theorem Merges.map (g : α → β) (h : Merges same kvs m) :
    Merges same (kvs.map fun e => (e.1, g e.2)) (m.map fun e => (e.1, g e.2)) where
  distinct := List.pairwise_map.mpr h.distinct
  key e he := by
    obtain ⟨e₀, he₀, rfl⟩ := List.mem_map.mp he
    obtain ⟨v, hv⟩ := h.key e₀ he₀
    exact ⟨g v, List.mem_map.mpr ⟨_, hv, rfl⟩⟩
  value e he := by
    obtain ⟨e₀, he₀, rfl⟩ := List.mem_map.mp he
    obtain ⟨k, hk, hm⟩ := h.value e₀ he₀
    exact ⟨k, hk, List.mem_map.mpr ⟨_, hm, rfl⟩⟩
  total e he := by
    obtain ⟨e₀, he₀, rfl⟩ := List.mem_map.mp he
    obtain ⟨e', he', hs⟩ := h.total e₀ he₀
    exact ⟨_, List.mem_map.mpr ⟨e', he', rfl⟩, hs⟩

theorem nodup_of_distinct (hrefl : ∀ k, same k k) (h : kvs.Pairwise fun a b => ¬ same a.1 b.1) :
    kvs.Nodup :=
  h.imp fun hne he => by
    subst he
    exact hne (hrefl _)

theorem eq_of_same (hs : Equivalence same) (h : kvs.Pairwise fun a b => ¬ same a.1 b.1)
    {a b : κ × α} (ha : a ∈ kvs) (hb : b ∈ kvs) (he : same a.1 b.1) : a = b := by
  by_contra hne
  have : Std.Symm fun a b : κ × α => ¬ same a.1 b.1 := ⟨fun _ _ hn hm => hn (hs.symm hm)⟩
  exact h.forall ha hb hne he

theorem Merges.perm (hs : Equivalence same) (hle : ∀ a b, same a b → same' a b)
    (hs' : Equivalence same') (h : Merges same kvs m)
    (hkeys : kvs.Pairwise fun a b => ¬ same' a.1 b.1) : m.Perm kvs := by
  have hsub : ∀ e ∈ m, e ∈ kvs := by
    intro e he
    obtain ⟨v, hv⟩ := h.key e he
    obtain ⟨k, hk, hm⟩ := h.value e he
    have heq := eq_of_same hs' hkeys hm hv (hle _ _ hk)
    have hval : e.2 = v := congrArg Prod.snd heq
    rwa [← hval] at hv
  refine (List.perm_ext_iff_of_nodup (nodup_of_distinct hs.refl h.distinct)
    (nodup_of_distinct hs'.refl hkeys)).mpr fun e => ⟨hsub e, fun he => ?_⟩
  obtain ⟨e', he', hk⟩ := h.total e he
  rwa [eq_of_same hs' hkeys he (hsub e' he') (hle _ _ hk)]

end Laws

section First

variable (same : κ → κ → Bool)

def firsts : List (κ × α) → List (κ × α)
  | [] => []
  | e :: kvs => e :: (firsts kvs).filter fun e' => !same e.1 e'.1

theorem firsts_sublist (kvs : List (κ × α)) : (firsts same kvs).Sublist kvs := by
  induction kvs with
  | nil => exact List.Sublist.refl _
  | cons e kvs ih => exact (List.filter_sublist.trans ih).cons_cons e

variable {same}

theorem firsts_merges (hs : Equivalence fun a b => same a b = true) (kvs : List (κ × α)) :
    Merges (fun a b => same a b = true) kvs (firsts same kvs) where
  distinct := by
    induction kvs with
    | nil => exact List.Pairwise.nil
    | cons e kvs ih =>
      refine List.Pairwise.cons (fun e' he' => ?_) (ih.sublist List.filter_sublist)
      simpa using (List.mem_filter.mp he').2
  key e he := ⟨e.2, (firsts_sublist same kvs).mem he⟩
  value e he := ⟨e.1, hs.refl _, (firsts_sublist same kvs).mem he⟩
  total := by
    induction kvs with
    | nil => simp
    | cons e₀ kvs ih =>
      intro e he
      obtain rfl | he := List.mem_cons.mp he
      · exact ⟨_, List.mem_cons_self, hs.refl _⟩
      obtain ⟨e', he', hk⟩ := ih e he
      by_cases h₀ : same e₀.1 e'.1 = true
      · exact ⟨e₀, List.mem_cons_self, hs.trans hk (hs.symm h₀)⟩
      · exact ⟨e', List.mem_cons_of_mem _ (List.mem_filter.mpr ⟨he', by simpa using h₀⟩), hk⟩

end First

theorem mapM_eq_some_iff {f : α → Option β} {g : β → α} (h : ∀ a b, f a = some b ↔ a = g b)
    {l : List α} {r : List β} : l.mapM f = some r ↔ l = r.map g := by
  induction l generalizing r with
  | nil => cases r <;> simp
  | cons a l ih =>
    rw [List.mapM_cons]
    constructor
    · intro hm
      simp only [Option.bind_eq_bind, Option.bind_eq_some_iff] at hm
      obtain ⟨b, hb, bs, hbs, he⟩ := hm
      cases he
      rw [(h a b).mp hb, ih.mp hbs, List.map_cons]
    · intro hm
      cases r with
      | nil => cases hm
      | cons b bs =>
        rw [List.map_cons, List.cons.injEq] at hm
        have hb := (h a b).mpr hm.1
        have hbs := ih.mpr hm.2
        simp [hb, hbs]

end UnBoxer.MergedKeys
