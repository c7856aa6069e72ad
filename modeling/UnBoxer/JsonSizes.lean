import UnBoxer.JsonParser
import Mathlib.Algebra.BigOperators.Group.List.Basic
import Mathlib.Algebra.Order.BigOperators.Group.List

namespace UnBoxer.JsonSizes

open UnBoxer.JsonStrings UnBoxer.JsonParser

def cost (c : Char) : Nat := if Plain c then 1 else 2

def costs (s : List Char) : Nat := (s.map cost).sum

theorem cost_le (c : Char) : cost c ≤ 2 := by
  unfold cost
  split <;> omega

theorem costs_cons (c : Char) (s : List Char) : costs (c :: s) = cost c + costs s := rfl

theorem tight {α : Type} {f g : α → Nat} {xs : List α} (hle : ∀ x ∈ xs, f x ≤ g x)
    (h : (xs.map g).sum ≤ (xs.map f).sum) : ∀ x ∈ xs, g x ≤ f x := by
  induction xs with
  | nil => simp
  | cons y xs ih =>
    have hle' : ∀ x ∈ xs, f x ≤ g x := fun x hx => hle x (List.mem_cons_of_mem y hx)
    have hy := hle y List.mem_cons_self
    have hsum : (xs.map f).sum ≤ (xs.map g).sum := List.sum_le_sum hle'
    simp only [List.map_cons, List.sum_cons] at h
    intro x hx
    obtain rfl | hx := List.mem_cons.mp hx
    · omega
    · apply ih hle' _ x hx
      omega

section Encoding

variable {enc : Char → List Char} (henc : ∀ c, (enc c).length ≤ cost c)

include henc

theorem length_le_costs (s : List Char) : (s.flatMap enc).length ≤ costs s := by
  rw [List.length_flatMap]
  exact List.sum_le_sum fun c _ => henc c

/-- What is written with no more characters than it needs is so one character at a time. -/
theorem tight_costs {s : List Char} (h : costs s ≤ (s.flatMap enc).length) :
    ∀ c ∈ s, cost c ≤ (enc c).length := by
  rw [List.length_flatMap] at h
  exact tight (fun c _ => henc c) h

end Encoding

theorem length_le (s : List Char) : s.length ≤ costs s := by
  have hone : ∀ c : Char, [c].length ≤ cost c := by
    intro c
    unfold cost
    split <;> simp
  have hs := length_le_costs hone s
  simpa using hs

/-- A string that needs no more characters than it has is plain. -/
theorem plain_of_costs {s : List Char} (h : costs s ≤ s.length) : ∀ c ∈ s, Plain c := by
  have hsum : s.length = (s.map fun _ => 1).sum := by simp
  rw [hsum] at h
  have hone : ∀ c ∈ s, 1 ≤ cost c := by
    intro c _
    unfold cost
    split <;> omega
  intro c hc
  have hcost := tight hone h c hc
  by_contra hp
  have htwo : cost c = 2 := if_neg hp
  omega

def width : Scanned → Nat
  | .char c => cost c
  | .unit _ => 6

theorem push_some {x : Scanned} {r : Option (List Scanned × List Char)} {xs : List Scanned}
    {rest : List Char} (h : push x r = some (xs, rest)) :
    ∃ ys, r = some (ys, rest) ∧ xs = x :: ys := by
  obtain ⟨⟨ys, rest'⟩, hr, he⟩ := Option.map_eq_some_iff.mp h
  cases he
  exact ⟨ys, hr, rfl⟩

theorem scan_length (s : List Char) : ∀ xs rest, scan s = some (xs, rest) →
    (xs.map width).sum + 1 + rest.length ≤ s.length := by
  -- the four ways to go on are the end, a code unit, an escape and a plain character
  fun_induction scan s with
  | case2 =>
    intro xs rest h
    cases h
    simp [Nat.add_comm]
  | case4 h₃ h₂ h₁ h₀ s d₃ d₂ d₁ d₀ _ _ _ _ _ ih =>
    intro xs rest h
    obtain ⟨ys, hys, rfl⟩ := push_some h
    have hlen := ih ys rest hys
    simp only [List.map_cons, List.sum_cons, List.length_cons, width]
    omega
  | case7 e s _ x _ _ ih =>
    intro xs rest h
    obtain ⟨ys, hys, rfl⟩ := push_some h
    have hlen := ih ys rest hys
    have hcost := cost_le x
    simp only [List.map_cons, List.sum_cons, List.length_cons, width]
    omega
  | case10 c s hquote hback hge ih =>
    intro xs rest h
    obtain ⟨ys, hys, rfl⟩ := push_some h
    have hlen := ih ys rest hys
    have hcost : cost c = 1 := if_pos ⟨hquote, hback, Nat.not_lt.mp hge⟩
    simp only [List.map_cons, List.sum_cons, List.length_cons, width]
    omega
  | _ =>
    intro xs rest h
    cases h

theorem assemble_length (xs : List Scanned) : ∀ s, assemble xs = some s →
    costs s ≤ (xs.map width).sum := by
  fun_induction assemble xs with
  | case1 =>
    intro s h
    cases h
    exact Nat.le_refl 0
  | case2 c xs ih =>
    intro s h
    obtain ⟨t, ht, rfl⟩ := Option.map_eq_some_iff.mp h
    have hlen := ih t ht
    simp only [costs_cons, List.map_cons, List.sum_cons, width]
    omega
  | case3 n xs _ ih =>
    intro s h
    obtain ⟨t, ht, rfl⟩ := Option.map_eq_some_iff.mp h
    have hlen := ih t ht
    have hcost := cost_le (Char.ofNat n)
    simp only [costs_cons, List.map_cons, List.sum_cons, width]
    omega
  | case4 n _ _ m xs _ ih =>
    intro s h
    obtain ⟨t, ht, rfl⟩ := Option.map_eq_some_iff.mp h
    have hlen := ih t ht
    have hcost := cost_le (Char.ofNat (0x10000 + (n - 0xD800) * 1024 + (m - 0xDC00)))
    simp only [costs_cons, List.map_cons, List.sum_cons, width]
    omega
  | _ =>
    intro s h
    cases h

theorem string_length {s t rest : List Char} (h : string s = some (t, rest)) :
    costs t + 1 + rest.length ≤ s.length := by
  unfold string at h
  cases hs : scan s with
  | none =>
    rw [hs] at h
    cases h
  | some p =>
    obtain ⟨xs, rest'⟩ := p
    rw [hs] at h
    obtain ⟨t', ht, he⟩ := Option.map_eq_some_iff.mp h
    cases he
    have hscan := scan_length s xs rest hs
    have hassemble := assemble_length xs t ht
    omega

/-- What is known of the length of a text for a value: a string has two quotes. -/
def least : Value → Nat
  | .str s => costs s + 2
  | _ => 0

def leasts (vs : List Value) : Nat := (vs.map fun v => least v + 1).sum

def leastMembers (kvs : List (List Char × Value)) : Nat :=
  (kvs.map fun kv => costs kv.1 + 3 + least kv.2 + 1).sum

theorem skip_length (s : List Char) : (skip s).length ≤ s.length :=
  (List.dropWhile_suffix _).length_le

theorem sign_length (s : List Char) : (sign s).2.length ≤ s.length := by
  unfold sign
  split
  · simp
  · split <;> simp

theorem digits_length {s m rest : List Char} (h : digits s = some (m, rest)) :
    rest.length ≤ s.length := by
  unfold digits at h
  split at h
  · cases h
  · cases h
    exact (List.dropWhile_suffix _).length_le

theorem digits_map_length {s m rest : List Char}
    {f : List Char × List Char → List Char × List Char} (h : (digits s).map f = some (m, rest))
    (hf : ∀ x, (f x).2 = x.2) : rest.length ≤ s.length := by
  obtain ⟨x, hd, he⟩ := Option.map_eq_some_iff.mp h
  have hrest : x.2 = rest := (hf x).symm.trans (congrArg Prod.snd he)
  rw [← hrest]
  exact digits_length hd

theorem integer_length {s m rest : List Char} (h : integer s = some (m, rest)) :
    rest.length ≤ s.length := by
  unfold integer at h
  split at h
  · cases h
  · split at h
    · cases h
      simp
    · split at h
      · cases h
        exact Nat.le_succ_of_le (List.dropWhile_suffix _).length_le
      · cases h

theorem fraction_length {s m rest : List Char} (h : fraction s = some (m, rest)) :
    rest.length ≤ s.length := by
  unfold fraction at h
  split at h
  · cases h
    simp
  · split at h
    · exact Nat.le_succ_of_le (digits_map_length h fun _ => rfl)
    · cases h
      simp

theorem exponent_length {s m rest : List Char} (h : exponent s = some (m, rest)) :
    rest.length ≤ s.length := by
  unfold exponent at h
  split at h
  · cases h
    simp
  · split at h
    · split at h
      · cases h
      · split at h
        · exact Nat.le_succ_of_le (Nat.le_succ_of_le (digits_map_length h fun _ => rfl))
        · exact Nat.le_succ_of_le (digits_map_length h fun _ => rfl)
    · cases h
      simp

theorem number_length {s m rest : List Char} (h : number s = some (m, rest)) :
    rest.length ≤ s.length := by
  unfold number at h
  simp only [Option.bind_eq_bind, Option.bind_eq_some_iff] at h
  obtain ⟨⟨i, s₁⟩, hi, ⟨f, s₂⟩, hf, ⟨e, s₃⟩, he, hr⟩ := h
  cases hr
  have hs := sign_length s
  have h₁ := integer_length hi
  have h₂ := fraction_length hf
  have h₃ := exponent_length he
  dsimp only at h₁ h₂ h₃ ⊢
  omega

theorem literal_length {word s rest : List Char} {v w : Value}
    (h : literal word v s = some (w, rest)) : rest.length ≤ s.length ∧ w = v := by
  unfold literal at h
  split at h
  · cases h
    exact ⟨(List.drop_suffix _ _).length_le, rfl⟩
  · cases h

/-- What the three readers take from a text is at least what they need. -/
structure Lengths (n : Nat) : Prop where
  value : ∀ s v rest, value n s = some (v, rest) → least v + rest.length ≤ s.length
  members : ∀ s kvs rest, members n s = some (kvs, rest) →
    leastMembers kvs + rest.length ≤ s.length
  elements : ∀ s vs rest, elements n s = some (vs, rest) → leasts vs + rest.length ≤ s.length

theorem opened_some {β : Type} {s rest : List Char} {close : Char} {empty v : Value}
    {f : List Char → Option (β × List Char)} {g : β → Value}
    (h : (match skip s with
      | [] => none
      | d :: r =>
        if d = close then some (empty, r) else (f (d :: r)).map fun (b, s) => (g b, s)) =
      some (v, rest)) :
    (v = empty ∧ rest.length ≤ s.length) ∨
      ∃ b t, v = g b ∧ f t = some (b, rest) ∧ t.length ≤ s.length := by
  have hskip := skip_length s
  cases hk : skip s with
  | nil =>
    rw [hk] at h
    cases h
  | cons d r =>
    rw [hk] at h hskip
    dsimp only at h
    by_cases hd : d = close
    · rw [if_pos hd] at h
      cases h
      exact .inl ⟨rfl, Nat.le_of_succ_le hskip⟩
    · rw [if_neg hd] at h
      obtain ⟨⟨b, r'⟩, hf, he⟩ := Option.map_eq_some_iff.mp h
      cases he
      exact .inr ⟨b, d :: r, rfl, hf, hskip⟩

/-- What the reader of a value goes on with behind the first character. -/
inductive Taken (n : Nat) (s rest : List Char) : Value → Prop
  | str {t : List Char} : string s = some (t, rest) → Taken n s rest (.str t)
  | obj {kvs : List (List Char × Value)} : (kvs = [] ∧ rest.length ≤ s.length) ∨
      (∃ t, members n t = some (kvs, rest) ∧ t.length ≤ s.length) → Taken n s rest (.obj kvs)
  | arr {vs : List Value} : (vs = [] ∧ rest.length ≤ s.length) ∨
      (∃ t, elements n t = some (vs, rest) ∧ t.length ≤ s.length) → Taken n s rest (.arr vs)
  | null : rest.length ≤ s.length + 1 → Taken n s rest .null
  | bool {b : Bool} : rest.length ≤ s.length + 1 → Taken n s rest (.bool b)
  | num {t : List Char} : rest.length ≤ s.length + 1 → Taken n s rest (.num t)

theorem value_taken {n : Nat} {c : Char} {s rest : List Char} {v : Value}
    (h : value (n + 1) (c :: s) = some (v, rest)) : Taken n s rest v := by
  rw [value] at h
  by_cases hq : c = '"'
  · rw [if_pos hq] at h
    obtain ⟨⟨t, r⟩, hs, he⟩ := Option.map_eq_some_iff.mp h
    cases he
    exact .str hs
  rw [if_neg hq] at h
  by_cases ho : c = '{'
  · rw [if_pos ho] at h
    obtain ⟨rfl, hlen⟩ | ⟨kvs, t, rfl, hm, ht⟩ := opened_some h
    · exact .obj (.inl ⟨rfl, hlen⟩)
    · exact .obj (.inr ⟨t, hm, ht⟩)
  rw [if_neg ho] at h
  by_cases ha : c = '['
  · rw [if_pos ha] at h
    obtain ⟨rfl, hlen⟩ | ⟨vs, t, rfl, hm, ht⟩ := opened_some h
    · exact .arr (.inl ⟨rfl, hlen⟩)
    · exact .arr (.inr ⟨t, hm, ht⟩)
  rw [if_neg ha] at h
  by_cases ht : c = 't'
  · rw [if_pos ht] at h
    obtain ⟨hlen, rfl⟩ := literal_length h
    exact .bool hlen
  rw [if_neg ht] at h
  by_cases hf : c = 'f'
  · rw [if_pos hf] at h
    obtain ⟨hlen, rfl⟩ := literal_length h
    exact .bool hlen
  rw [if_neg hf] at h
  by_cases hn : c = 'n'
  · rw [if_pos hn] at h
    obtain ⟨hlen, rfl⟩ := literal_length h
    exact .null hlen
  rw [if_neg hn] at h
  obtain ⟨⟨t, r⟩, hm, he⟩ := Option.map_eq_some_iff.mp h
  cases he
  exact .num (number_length hm)

theorem value_length {n : Nat} (h : Lengths n) (s : List Char) (v : Value) (rest : List Char)
    (hv : value (n + 1) s = some (v, rest)) : least v + rest.length ≤ s.length := by
  cases s with
  | nil => cases hv
  | cons c s =>
    rw [List.length_cons]
    cases value_taken hv with
    | str hs =>
      have hlen := string_length hs
      simp only [least]
      omega
    | obj hm =>
      simp only [least]
      obtain ⟨_, hlen⟩ | ⟨t, hm, ht⟩ := hm
      · omega
      · have hlen := h.members _ _ _ hm
        omega
    | arr hm =>
      simp only [least]
      obtain ⟨_, hlen⟩ | ⟨t, hm, ht⟩ := hm
      · omega
      · have hlen := h.elements _ _ _ hm
        omega
    | null hlen | bool hlen | num hlen =>
      simp only [least]
      omega

theorem item_some {β : Type} {n : Nat} {s rest : List Char} {close : Char} {ys : β}
    {more : List Char → Option (β × List Char)} {g : Value → β → β} {last : Value → β}
    (h : (match value n s with
      | none => none
      | some (v, s) =>
        match skip s with
        | [] => none
        | d :: s =>
          if d = ',' then (more (skip s)).map fun (xs, s) => (g v xs, s)
          else if d = close then some (last v, s)
          else none) = some (ys, rest)) :
    ∃ v t, value n s = some (v, t) ∧
      ((∃ xs u, more u = some (xs, rest) ∧ ys = g v xs ∧ u.length + 1 ≤ t.length) ∨
        (ys = last v ∧ rest.length + 1 ≤ t.length)) := by
  cases hx : value n s with
  | none =>
    rw [hx] at h
    cases h
  | some p =>
    obtain ⟨v, t⟩ := p
    have hskip := skip_length t
    rw [hx] at h
    refine ⟨v, t, rfl, ?_⟩
    dsimp only at h
    cases hk : skip t with
    | nil =>
      rw [hk] at h
      cases h
    | cons d r =>
      rw [hk] at h hskip
      dsimp only at h
      rw [List.length_cons] at hskip
      by_cases hd : d = ','
      · rw [if_pos hd] at h
        obtain ⟨⟨xs, r'⟩, hm, he⟩ := Option.map_eq_some_iff.mp h
        cases he
        have hskip' := skip_length r
        exact .inl ⟨xs, skip r, hm, rfl, by omega⟩
      · rw [if_neg hd] at h
        by_cases hc : d = close
        · rw [if_pos hc] at h
          cases h
          exact .inr ⟨rfl, hskip⟩
        · rw [if_neg hc] at h
          cases h

theorem elements_length {n : Nat} (h : Lengths n) (s : List Char) (vs : List Value)
    (rest : List Char) (hv : elements (n + 1) s = some (vs, rest)) :
    leasts vs + rest.length ≤ s.length := by
  rw [elements] at hv
  obtain ⟨v, t, hx, hrest⟩ := item_some hv
  have hlen := h.value _ _ _ hx
  obtain ⟨ws, u, hm, rfl, hu⟩ | ⟨rfl, ht⟩ := hrest
  · have hmore := h.elements _ _ _ hm
    simp only [leasts, List.map_cons, List.sum_cons] at hmore ⊢
    omega
  · simp only [leasts, List.map_cons, List.sum_cons, List.map_nil, List.sum_nil]
    omega

theorem members_length {n : Nat} (h : Lengths n) (s : List Char) (kvs : List (List Char × Value))
    (rest : List Char) (hv : members (n + 1) s = some (kvs, rest)) :
    leastMembers kvs + rest.length ≤ s.length := by
  cases s with
  | nil => cases hv
  | cons c s =>
    rw [members] at hv
    by_cases hq : c = '"'
    · rw [if_pos hq] at hv
      cases hs : string s with
      | none =>
        rw [hs] at hv
        cases hv
      | some p =>
        obtain ⟨k, t⟩ := p
        have hkey := string_length hs
        have hskip := skip_length t
        rw [hs] at hv
        dsimp only at hv
        cases hk : skip t with
        | nil =>
          rw [hk] at hv
          cases hv
        | cons d r =>
          rw [hk] at hv hskip
          dsimp only at hv
          rw [List.length_cons] at hskip ⊢
          by_cases hd : d = ':'
          · rw [if_pos hd] at hv
            have hskip' := skip_length r
            obtain ⟨v, t', hx, hrest⟩ := item_some hv
            have hlen := h.value _ _ _ hx
            obtain ⟨kvs', u, hm, rfl, hu⟩ | ⟨rfl, ht⟩ := hrest
            · have hmore := h.members _ _ _ hm
              simp only [leastMembers, List.map_cons, List.sum_cons] at hmore ⊢
              omega
            · simp only [leastMembers, List.map_cons, List.sum_cons, List.map_nil, List.sum_nil]
              omega
          · rw [if_neg hd] at hv
            cases hv
    · rw [if_neg hq] at hv
      cases hv

theorem lengths (n : Nat) : Lengths n := by
  induction n with
  | zero =>
    refine ⟨fun s v rest h => ?_, fun s kvs rest h => ?_, fun s vs rest h => ?_⟩
    · cases h
    · cases h
    · cases h
  | succ n ih => exact ⟨value_length ih, members_length ih, elements_length ih⟩

theorem parse_taken {s : List Char} {v : Value} (h : parse s = some v) :
    ∃ n t rest, Taken n t rest v ∧ t.length + 1 ≤ s.length := by
  have hskip := skip_length s
  unfold parse at h
  cases hx : value (s.length + 1) (skip s) with
  | none =>
    rw [hx] at h
    cases h
  | some p =>
    obtain ⟨w, rest⟩ := p
    rw [hx] at h
    dsimp only at h
    cases hk : skip s with
    | nil =>
      rw [hk] at hx
      cases hx
    | cons c t =>
      rw [hk] at hx hskip
      by_cases hr : skip rest = []
      · rw [if_pos hr] at h
        cases h
        exact ⟨_, t, rest, value_taken hx, hskip⟩
      · rw [if_neg hr] at h
        cases h

theorem array_length {s : List Char} {vs : List Value} (h : parse s = some (.arr vs)) :
    leasts vs + 1 ≤ s.length := by
  obtain ⟨n, t, rest, ht, hlen⟩ := parse_taken h
  cases ht with
  | arr hm =>
    obtain ⟨rfl, _⟩ | ⟨u, hm, hu⟩ := hm
    · simp only [leasts, List.map_nil, List.sum_nil]
      omega
    · have helements := (lengths n).elements _ _ _ hm
      omega

theorem object_length {s : List Char} {kvs : List (List Char × Value)}
    (h : parse s = some (.obj kvs)) : leastMembers kvs + 1 ≤ s.length := by
  obtain ⟨n, t, rest, ht, hlen⟩ := parse_taken h
  cases ht with
  | obj hm =>
    obtain ⟨rfl, _⟩ | ⟨u, hm, hu⟩ := hm
    · simp only [leastMembers, List.map_nil, List.sum_nil]
      omega
    · have hmembers := (lengths n).members _ _ _ hm
      omega

end UnBoxer.JsonSizes
