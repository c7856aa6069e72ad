import Mathlib.Data.List.Induction
import Mathlib.Data.List.Nodup
import Mathlib.Logic.Function.Basic

namespace UnBoxer.Chains

variable {α : Type*}

/-- The cells stand one behind the other, linked in both directions: `b` is what the first of
them has before it, `a` what the last of them has behind it. -/
def Linked (next prev : α → Option α) : Option α → List α → Option α → Prop
  | _, [], _ => True
  | b, x :: xs, a => prev x = b ∧ next x = xs.head?.or a ∧ Linked next prev (some x) xs a

def relink [DecidableEq α] (link : α → Option α) (cell : Option α) (v : Option α) :
    α → Option α :=
  match cell with
  | none => link
  | some x => Function.update link x v

section Links

variable {next prev next' prev' : α → Option α} {a b a' b' : Option α} {x : α}
  {xs ys zs : List α}

theorem linked_append :
    Linked next prev b (xs ++ ys) a ↔
      Linked next prev b xs (ys.head?.or a) ∧ Linked next prev (xs.getLast?.or b) ys a := by
  induction xs generalizing b with
  | nil => simp [Linked]
  | cons x xs ih =>
    have hl : (x :: xs).getLast?.or b = xs.getLast?.or (some x) := by
      rw [List.getLast?_cons]
      cases xs.getLast? <;> rfl
    rw [List.cons_append, Linked, Linked, ih, hl, List.head?_append, Option.or_assoc]
    simp only [and_assoc]

theorem Linked.congr (h : Linked next prev b xs a) (hn : ∀ x ∈ xs, next' x = next x)
    (hp : ∀ x ∈ xs, prev' x = prev x) : Linked next' prev' b xs a := by
  induction xs generalizing b with
  | nil => trivial
  | cons x xs ih =>
    obtain ⟨h₁, h₂, h₃⟩ := h
    refine ⟨(hp x List.mem_cons_self).trans h₁, (hn x List.mem_cons_self).trans h₂, ?_⟩
    exact ih h₃ (fun y hy => hn y (List.mem_cons_of_mem x hy))
      (fun y hy => hp y (List.mem_cons_of_mem x hy))

theorem Linked.next_cons (h : Linked next prev b (x :: xs) none) : next x = xs.head? :=
  h.2.1.trans Option.or_none

theorem Linked.around (h : Linked next prev b (ys ++ x :: zs) a) :
    prev x = ys.getLast?.or b ∧ next x = zs.head?.or a :=
  ⟨(linked_append.mp h).2.1, (linked_append.mp h).2.2.1⟩

end Links

section Relinking

variable [DecidableEq α] {next prev : α → Option α} {a b a' b' v : Option α} {c x : α}
  {cell : Option α} {xs ys zs : List α}

theorem relink_of_ne (h : ∀ y, cell = some y → x ≠ y) : relink next cell v x = next x := by
  cases cell with
  | none => rfl
  | some y => exact Function.update_of_ne (h y rfl) v next

theorem Linked.relink_off {cell' : Option α} {w : Option α} (h : Linked next prev b xs a)
    (hn : ∀ y ∈ xs, cell ≠ some y) (hp : ∀ y ∈ xs, cell' ≠ some y) :
    Linked (relink next cell v) (relink prev cell' w) b xs a :=
  h.congr (fun x hx => relink_of_ne fun _ hy hxy => hn x hx (hxy ▸ hy))
    (fun x hx => relink_of_ne fun _ hy hxy => hp x hx (hxy ▸ hy))

theorem Linked.update_off {w : Option α} (h : Linked next prev b xs a) (hc : c ∉ xs) :
    Linked (Function.update next c v) (Function.update prev c w) b xs a :=
  h.congr (fun _ hx => Function.update_of_ne (ne_of_mem_of_not_mem hx hc) v next)
    (fun _ hx => Function.update_of_ne (ne_of_mem_of_not_mem hx hc) w prev)

theorem Linked.relink_last (h : Linked next prev b xs a) (hn : xs.Nodup) :
    Linked (relink next xs.getLast? a') prev b xs a' := by
  cases xs using List.reverseRecOn with
  | nil => trivial
  | append_singleton xs x =>
    obtain ⟨h₁, h₂⟩ := linked_append.mp h
    have hx : ∀ y ∈ xs, y ≠ x := fun y hy hyx =>
      (List.nodup_append.mp hn).2.2 y hy x (List.mem_singleton_self x) hyx
    rw [List.getLast?_concat, relink]
    refine linked_append.mpr ⟨?_, ?_⟩
    · exact h₁.congr (fun y hy => Function.update_of_ne (hx y hy) a' next) (fun _ _ => rfl)
    · exact ⟨h₂.1, Function.update_self x a' next, trivial⟩

theorem Linked.relink_head (h : Linked next prev b xs a) (hn : xs.Nodup) :
    Linked next (relink prev xs.head? b') b' xs a := by
  cases xs with
  | nil => trivial
  | cons x xs =>
    have hx : ∀ y ∈ xs, y ≠ x := fun y hy hyx => (List.nodup_cons.mp hn).1 (hyx ▸ hy)
    rw [List.head?_cons, relink]
    refine ⟨Function.update_self x b' prev, h.2.1, ?_⟩
    exact h.2.2.congr (fun _ _ => rfl) (fun y hy => Function.update_of_ne (hx y hy) b' prev)

theorem Linked.insert (h : Linked next prev b (ys ++ zs) a) (hn : (ys ++ zs).Nodup)
    (hc : c ∉ ys ++ zs) :
    Linked (relink (Function.update next c (zs.head?.or a)) ys.getLast? (some c))
      (relink (Function.update prev c (ys.getLast?.or b)) zs.head? (some c)) b
      (ys ++ c :: zs) a := by
  obtain ⟨hy, hz⟩ := linked_append.mp h
  obtain ⟨hny, hnz, hd⟩ := List.nodup_append.mp hn
  have hcy : ∀ y ∈ ys, y ≠ c := fun y hy => ne_of_mem_of_not_mem (List.mem_append_left zs hy) hc
  have hcz : ∀ z ∈ zs, z ≠ c := fun z hz => ne_of_mem_of_not_mem (List.mem_append_right ys hz) hc
  refine linked_append.mpr ⟨?_, ?_, ?_, ?_⟩
  · have hy' : Linked (Function.update next c (zs.head?.or a))
        (relink (Function.update prev c (ys.getLast?.or b)) zs.head? (some c)) b ys
        (zs.head?.or a) := by
      refine hy.congr (fun y hm => Function.update_of_ne (hcy y hm) _ _) (fun y hm => ?_)
      rw [relink_of_ne (fun z hz' hyz => hd y hm z (List.mem_of_head? hz') hyz),
        Function.update_of_ne (hcy y hm)]
    exact hy'.relink_last hny
  · rw [relink_of_ne (fun z hz' hcz' => hcz z (List.mem_of_head? hz') hcz'.symm),
      Function.update_self]
  · rw [relink_of_ne (fun y hy' hcy' => hcy y (List.mem_of_getLast? hy') hcy'.symm),
      Function.update_self]
  · have hz' : Linked (relink (Function.update next c (zs.head?.or a)) ys.getLast? (some c))
        (Function.update prev c (ys.getLast?.or b)) (ys.getLast?.or b) zs a := by
      refine hz.congr (fun z hm => ?_) (fun z hm => Function.update_of_ne (hcz z hm) _ _)
      rw [relink_of_ne (fun y hy' hzy => hd y (List.mem_of_getLast? hy') z hm hzy.symm),
        Function.update_of_ne (hcz z hm)]
    exact hz'.relink_head hnz

theorem Linked.remove (h : Linked next prev b (ys ++ x :: zs) a) (hn : (ys ++ x :: zs).Nodup) :
    Linked (relink next ys.getLast? (zs.head?.or a)) (relink prev zs.head? (ys.getLast?.or b)) b
      (ys ++ zs) a := by
  obtain ⟨hy, -, -, hz⟩ := linked_append.mp h
  obtain ⟨hny, hnz, hd⟩ := List.nodup_append.mp hn
  have hd' : ∀ y ∈ ys, ∀ z ∈ zs, y ≠ z := fun y hm z hz' => hd y hm z (List.mem_cons_of_mem x hz')
  refine linked_append.mpr ⟨?_, ?_⟩
  · have hy' : Linked next (relink prev zs.head? (ys.getLast?.or b)) b ys (some x) :=
      hy.congr (fun _ _ => rfl) fun y hm =>
        relink_of_ne fun z hz' => hd' y hm z (List.mem_of_head? hz')
    exact hy'.relink_last hny
  · have hz' : Linked (relink next ys.getLast? (zs.head?.or a)) prev (some x) zs a :=
      hz.congr (fun z hm => relink_of_ne fun y hy' hzy =>
        hd' y (List.mem_of_getLast? hy') z hm hzy.symm) (fun _ _ => rfl)
    exact hz'.relink_head (List.nodup_cons.mp hnz).2

end Relinking

end UnBoxer.Chains
