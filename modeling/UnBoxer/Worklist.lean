import Mathlib.Data.Finset.Card
import Mathlib.Data.List.Nodup
import Mathlib.Logic.Relation
import Mathlib.Tactic.Common

namespace UnBoxer.Worklist

variable {α : Type}

/-- A search with a stack: what is left to visit, what has been visited, and
what has been found there. -/
structure Search (α : Type) where
  stack : List α
  done : List α
  found : List α

section Forest

variable (Child : α → α → Prop) (inner : α → Bool) (root : α)

/-- No vertex is found in two places, and the root in none. -/
structure Forest : Prop where
  parent_unique : ∀ x y z, Child x z → Child y z → x = y
  root_top : ∀ x, ¬ Child x root

inductive Step : Search α → Search α → Prop
  | visit (x : α) (stack done found kids : List α) (hn : kids.Nodup)
      (hk : ∀ y, y ∈ kids ↔ Child x y) :
      Step ⟨x :: stack, done, found⟩
        ⟨(kids.filter inner).reverse ++ stack, done ++ [x], found ++ kids⟩

def Reach : α → Prop := Relation.ReflTransGen (fun x y => Child x y ∧ inner y = true) root

structure Inv (s : Search α) : Prop where
  nodup : (s.done ++ s.stack).Nodup
  reach : ∀ x ∈ s.done ++ s.stack, Reach Child inner root x
  root_mem : root ∈ s.done ++ s.stack
  child_found : ∀ x ∈ s.done, ∀ y, Child x y → y ∈ s.found
  found_child : ∀ y ∈ s.found, ∃ x ∈ s.done, Child x y
  inner_mem : ∀ y ∈ s.found, inner y = true → y ∈ s.done ++ s.stack
  mem_found : ∀ x ∈ s.done ++ s.stack, x = root ∨ x ∈ s.found
  found_nodup : s.found.Nodup
  parent_before : ∀ l y r x, s.found = l ++ y :: r → Child x y → x = root ∨ x ∈ l

theorem inv_start : Inv Child inner root ⟨[root], [], []⟩ where
  nodup := by simp
  reach x hx := by
    obtain rfl : x = root := by simpa using hx
    exact Relation.ReflTransGen.refl
  root_mem := by simp
  child_found := by simp
  found_child := by simp
  inner_mem := by simp
  mem_found x hx := .inl (by simpa using hx)
  found_nodup := by simp
  parent_before := by simp

end Forest

variable {Child : α → α → Prop} {inner : α → Bool} {root : α}

theorem Inv.fresh (hf : Forest Child root) {x : α} {stack done found : List α}
    (h : Inv Child inner root ⟨x :: stack, done, found⟩) {y : α} (hy : Child x y) :
    y ∉ found ∧ y ∉ done ++ x :: stack := by
  have hx : x ∉ done := by
    have hd := (List.nodup_append.mp h.nodup).2.2
    exact fun hm => hd x hm x List.mem_cons_self rfl
  have hnot : y ∉ found := by
    intro hm
    obtain ⟨x', hx', hc⟩ := h.found_child y hm
    exact hx (hf.parent_unique _ _ _ hc hy ▸ hx')
  refine ⟨hnot, fun hm => ?_⟩
  obtain rfl | hm' := h.mem_found y hm
  · exact hf.root_top _ hy
  · exact hnot hm'

theorem Inv.step (hf : Forest Child root) {s t : Search α} (h : Inv Child inner root s)
    (hst : Step Child inner s t) : Inv Child inner root t := by
  obtain ⟨x, stack, done, found, kids, hn, hk⟩ := hst
  have hfresh : ∀ y ∈ kids, y ∉ found ∧ y ∉ done ++ x :: stack :=
    fun y hy => h.fresh hf ((hk y).mp hy)
  have hmem : ∀ y, y ∈ (done ++ [x]) ++ ((kids.filter inner).reverse ++ stack) ↔
      y ∈ done ++ x :: stack ∨ (y ∈ kids ∧ inner y = true) := by
    intro y
    simp only [List.mem_append, List.mem_reverse, List.mem_filter, List.mem_cons]
    grind
  refine ⟨?_, fun y hy => ?_, (hmem root).mpr (.inl h.root_mem), fun y hy z hz => ?_,
    fun y hy => ?_, fun y hy hi => ?_, fun y hy => ?_, ?_, fun l y r z hl hz => ?_⟩
  · have hpush : (kids.filter inner).reverse.Nodup := List.nodup_reverse.mpr (hn.filter _)
    have hnd := h.nodup
    have hout : ∀ y ∈ (kids.filter inner).reverse, y ∉ done ++ x :: stack := by
      intro y hy
      exact (hfresh y (List.mem_filter.mp (List.mem_reverse.mp hy)).1).2
    simp only [List.nodup_append, List.mem_append, List.mem_cons, List.nodup_cons] at hnd hout ⊢
    grind
  · obtain hy | ⟨hy, hi⟩ := (hmem y).mp hy
    · exact h.reach y hy
    · exact (h.reach x (by simp)).tail ⟨(hk y).mp hy, hi⟩
  · obtain hy | hy := List.mem_append.mp hy
    · exact List.mem_append_left _ (h.child_found y hy z hz)
    · obtain rfl := List.mem_singleton.mp hy
      exact List.mem_append_right _ ((hk z).mpr hz)
  · obtain hy | hy := List.mem_append.mp hy
    · obtain ⟨z, hz, hc⟩ := h.found_child y hy
      exact ⟨z, List.mem_append_left _ hz, hc⟩
    · exact ⟨x, by simp, (hk y).mp hy⟩
  · obtain hy | hy := List.mem_append.mp hy
    · exact (hmem y).mpr (.inl (h.inner_mem y hy hi))
    · exact (hmem y).mpr (.inr ⟨hy, hi⟩)
  · obtain hy | ⟨hy, _⟩ := (hmem y).mp hy
    · exact (h.mem_found y hy).imp_right (List.mem_append_left _)
    · exact .inr (List.mem_append_right _ hy)
  · exact List.nodup_append.mpr ⟨h.found_nodup, hn, fun a ha b hb he => (hfresh b hb).1 (he ▸ ha)⟩
  · obtain ⟨m, rfl, hm⟩ | ⟨m, hm, hr⟩ := List.append_eq_append_iff.mp hl
    · have hy : y ∈ kids := by simp [hm]
      have hxz : x = z := hf.parent_unique _ _ _ ((hk y).mp hy) hz
      exact (h.mem_found z (by simp [hxz])).imp_right (List.mem_append_left _)
    · cases m with
      | nil =>
        have hy : y ∈ kids := by
          rw [List.nil_append] at hr
          simp [← hr]
        have hxz : x = z := hf.parent_unique _ _ _ ((hk y).mp hy) hz
        have hl' : l = found := by simpa using hm.symm
        exact hl' ▸ h.mem_found z (by simp [hxz])
      | cons a m =>
        obtain ⟨rfl, _⟩ := List.cons.inj hr
        exact h.parent_before l _ m z hm hz

theorem Inv.steps (hf : Forest Child root) {s t : Search α} (h : Inv Child inner root s)
    (hst : Relation.ReflTransGen (Step Child inner) s t) : Inv Child inner root t := by
  induction hst with
  | refl => exact h
  | tail _ hstep ih => exact ih.step hf hstep

/-- When the stack is empty, everything that can be reached has been visited. -/
theorem Inv.complete {s : Search α} (h : Inv Child inner root s) (hs : s.stack = []) (x : α) :
    x ∈ s.done ↔ Reach Child inner root x := by
  have hd : s.done ++ s.stack = s.done := by rw [hs, List.append_nil]
  constructor
  · intro hx
    exact h.reach x (List.mem_append_left _ hx)
  · intro hr
    induction hr with
    | refl => exact hd ▸ h.root_mem
    | tail _ hc ih => exact hd ▸ h.inner_mem _ (h.child_found _ ih _ hc.1) hc.2

theorem Inv.found_iff {s : Search α} (h : Inv Child inner root s) (hs : s.stack = []) (y : α) :
    y ∈ s.found ↔ ∃ x, Reach Child inner root x ∧ Child x y := by
  constructor
  · intro hy
    obtain ⟨x, hx, hc⟩ := h.found_child y hy
    exact ⟨x, (h.complete hs x).mp hx, hc⟩
  · rintro ⟨x, hx, hc⟩
    exact h.child_found x ((h.complete hs x).mpr hx) y hc

/-- A finite bound on what can be reached bounds the search. -/
theorem Inv.length_le {s : Search α} (h : Inv Child inner root s) {S : Finset α}
    (hS : ∀ x, Reach Child inner root x → x ∈ S) : s.done.length + s.stack.length ≤ S.card := by
  classical
  rw [← List.length_append, ← List.toFinset_card_of_nodup h.nodup]
  exact Finset.card_le_card fun x hx => hS x (h.reach x (List.mem_toFinset.mp hx))

end UnBoxer.Worklist
