import UnBoxer.JsonParser
import Mathlib.Data.List.TakeWhile

namespace UnBoxer.JsonNumbers

open UnBoxer.JsonStrings UnBoxer.JsonParser

section Numbers

def Stops (rest : List Char) : Prop := ∀ c r, rest = c :: r → c = ',' ∨ c = ']' ∨ c = '}'

theorem stops_nil : Stops [] := fun c r h => by cases h

theorem stops_cons {c : Char} (hc : c = ',' ∨ c = ']' ∨ c = '}') (r : List Char) :
    Stops (c :: r) := fun d s h => by
  cases h
  exact hc

theorem Stops.not_digit {c : Char} {r : List Char} (h : Stops (c :: r)) : c.isDigit = false := by
  obtain rfl | rfl | rfl := h c r rfl <;> rfl

def Numeral (t : List Char) : Prop := number t = some (t, [])

variable {rest : List Char}

theorem takeWhile_stops (h : Stops rest) (s : List Char) :
    (s ++ rest).takeWhile Char.isDigit = s.takeWhile Char.isDigit := by
  induction s with
  | nil =>
    cases rest with
    | nil => rfl
    | cons c r => simp [h.not_digit]
  | cons c s ih => cases hc : c.isDigit <;> simp [hc, ih]

theorem dropWhile_stops (h : Stops rest) (s : List Char) :
    (s ++ rest).dropWhile Char.isDigit = s.dropWhile Char.isDigit ++ rest := by
  induction s with
  | nil =>
    cases rest with
    | nil => rfl
    | cons c r => simp [h.not_digit]
  | cons c s ih => cases hc : c.isDigit <;> simp [hc, ih]

def extend (rest : List Char) : List Char × List Char → List Char × List Char :=
  fun (m, r) => (m, r ++ rest)

theorem sign_stops (h : Stops rest) (s : List Char) : sign (s ++ rest) = extend rest (sign s) := by
  cases s with
  | nil =>
    cases rest with
    | nil => rfl
    | cons c r => obtain rfl | rfl | rfl := h c r rfl <;> rfl
  | cons c s =>
    by_cases hc : c = '-' <;> simp [sign, extend, hc]

theorem integer_stops (h : Stops rest) (s : List Char) :
    integer (s ++ rest) = (integer s).map (extend rest) := by
  cases s with
  | nil =>
    cases rest with
    | nil => rfl
    | cons c r => obtain rfl | rfl | rfl := h c r rfl <;> rfl
  | cons c s =>
    by_cases h0 : c = '0'
    · simp [integer, extend, h0]
    · cases hc : c.isDigit <;>
        simp [integer, extend, h0, hc, takeWhile_stops h, dropWhile_stops h]

theorem digits_stops (h : Stops rest) (s : List Char) :
    digits (s ++ rest) = (digits s).map (extend rest) := by
  unfold digits
  rw [takeWhile_stops h, dropWhile_stops h]
  cases s.takeWhile Char.isDigit <;> rfl

theorem fraction_stops (h : Stops rest) (s : List Char) :
    fraction (s ++ rest) = (fraction s).map (extend rest) := by
  cases s with
  | nil =>
    cases rest with
    | nil => rfl
    | cons c r => obtain rfl | rfl | rfl := h c r rfl <;> rfl
  | cons c s =>
    by_cases hc : c = '.'
    · simp only [List.cons_append, fraction, hc, if_true, digits_stops h, Option.map_map]
      rfl
    · simp [fraction, extend, hc]

theorem exponent_stops (h : Stops rest) (s : List Char) :
    exponent (s ++ rest) = (exponent s).map (extend rest) := by
  cases s with
  | nil =>
    cases rest with
    | nil => rfl
    | cons c r => obtain rfl | rfl | rfl := h c r rfl <;> rfl
  | cons c s =>
    by_cases hc : (c = 'e' || c = 'E') = true
    · cases s with
      | nil =>
        cases rest with
        | nil => rw [List.append_nil]; simp [exponent, hc]
        | cons d r => obtain rfl | rfl | rfl := h d r rfl <;> simp [exponent, hc, digits]
      | cons d s =>
        by_cases hd : (d = '+' || d = '-') = true
        · simp only [List.cons_append, exponent, hc, hd, if_true, digits_stops h, Option.map_map]
          rfl
        · rw [List.cons_append, List.cons_append]
          simp only [exponent, hc, if_true, if_neg hd]
          rw [← List.cons_append, digits_stops h, Option.map_map, Option.map_map]
          rfl
    · simp [exponent, extend, hc]

theorem number_stops (h : Stops rest) (s : List Char) :
    number (s ++ rest) = (number s).map (extend rest) := by
  have hs := sign_stops h s
  unfold number
  rw [hs]
  obtain ⟨m, s⟩ := sign s
  simp only [extend]
  rw [integer_stops h]
  cases integer s with
  | none => rfl
  | some p =>
    obtain ⟨i, s⟩ := p
    simp only [extend, Option.map_some, Option.bind_eq_bind, Option.bind_some]
    rw [fraction_stops h]
    cases fraction s with
    | none => rfl
    | some p =>
      obtain ⟨f, s⟩ := p
      simp only [extend, Option.map_some, Option.bind_some]
      rw [exponent_stops h]
      cases exponent s with
      | none => rfl
      | some p => rfl

theorem Numeral.append {t : List Char} (ht : Numeral t) (h : Stops rest) :
    number (t ++ rest) = some (t, rest) := by
  rw [number_stops h, ht]
  rfl

theorem Numeral.head {t : List Char} (ht : Numeral t) :
    ∃ c s, t = c :: s ∧ (c = '-' ∨ c.isDigit = true) := by
  cases t with
  | nil => cases ht
  | cons c s =>
    refine ⟨c, s, rfl, ?_⟩
    by_contra hc
    obtain ⟨hm, hd⟩ := not_or.mp hc
    have h0 : c ≠ '0' := by
      rintro rfl
      exact hd rfl
    simp [Numeral, number, sign, integer, hm, hd, h0] at ht

end Numbers

section Visible

def Visible (t : List Char) : Prop := ∀ c ∈ t, 32 ≤ c.toNat

instance (t : List Char) : Decidable (Visible t) := inferInstanceAs (Decidable (∀ c ∈ t, _))

theorem visible_append {s t : List Char} (hs : Visible s) (ht : Visible t) : Visible (s ++ t) :=
  fun c hc => (List.mem_append.mp hc).elim (hs c) (ht c)

theorem visible_cons {c : Char} {t : List Char} (hc : 32 ≤ c.toNat) (ht : Visible t) :
    Visible (c :: t) := fun d hd => by
  obtain rfl | hd := List.mem_cons.mp hd
  · exact hc
  · exact ht d hd

theorem visible_nil : Visible [] := fun _ h => absurd h List.not_mem_nil

theorem visible_takeWhile (s : List Char) : Visible (s.takeWhile Char.isDigit) := by
  intro c hc
  have hd := List.mem_takeWhile_imp hc
  simp only [Char.isDigit, Bool.and_eq_true, decide_eq_true_eq] at hd
  have hle : 48 ≤ c.toNat := hd.1
  omega

theorem visible_sign (s : List Char) : Visible (sign s).1 := by
  cases s with
  | nil => exact visible_nil
  | cons c s =>
    by_cases hc : c = '-'
    · rw [sign, if_pos hc]
      exact visible_cons (by decide) visible_nil
    · rw [sign, if_neg hc]
      exact visible_nil

theorem visible_integer {s m r : List Char} (h : integer s = some (m, r)) : Visible m := by
  cases s with
  | nil => cases h
  | cons c s =>
    by_cases h0 : c = '0'
    · rw [integer, if_pos h0] at h
      cases h
      exact visible_cons (by decide) visible_nil
    · by_cases hd : c.isDigit = true
      · rw [integer, if_neg h0, if_pos hd] at h
        cases h
        have hw := visible_takeWhile (c :: s)
        rwa [List.takeWhile_cons_of_pos hd] at hw
      · rw [integer, if_neg h0, if_neg hd] at h
        cases h

theorem visible_digits {s m r : List Char} (h : digits s = some (m, r)) : Visible m := by
  unfold digits at h
  have hw := visible_takeWhile s
  cases hs : s.takeWhile Char.isDigit with
  | nil =>
    rw [hs] at h
    cases h
  | cons d ds =>
    rw [hs] at h hw
    cases h
    exact hw

theorem visible_digits_map {c : List Char} (hc : Visible c) {s m r : List Char}
    (h : (digits s).map (fun (ds, s) => (c ++ ds, s)) = some (m, r)) : Visible m := by
  obtain ⟨⟨ds, s'⟩, hd, hm⟩ := Option.map_eq_some_iff.mp h
  cases hm
  exact visible_append hc (visible_digits hd)

theorem visible_fraction {s m r : List Char} (h : fraction s = some (m, r)) : Visible m := by
  cases s with
  | nil =>
    cases h
    exact visible_nil
  | cons c s =>
    rw [fraction.eq_def] at h
    dsimp only at h
    by_cases hc : c = '.'
    · rw [if_pos hc] at h
      exact @visible_digits_map ['.'] (visible_cons (by decide) visible_nil) s m r h
    · rw [if_neg hc] at h
      cases h
      exact visible_nil

theorem visible_of_or {c d e : Char} (hd : 32 ≤ d.toNat) (he : 32 ≤ e.toNat)
    (h : (c = d || c = e) = true) : 32 ≤ c.toNat := by
  obtain h | h := Bool.or_eq_true_iff.mp h <;> rwa [of_decide_eq_true h]

theorem visible_exponent {s m r : List Char} (h : exponent s = some (m, r)) : Visible m := by
  cases s with
  | nil =>
    cases h
    exact visible_nil
  | cons c s =>
    rw [exponent.eq_def] at h
    dsimp only at h
    by_cases hc : (c = 'e' || c = 'E') = true
    · have hc32 := visible_of_or (by decide) (by decide) hc
      rw [if_pos hc] at h
      cases s with
      | nil => cases h
      | cons d s =>
        by_cases hd : (d = '+' || d = '-') = true
        · have hd32 := visible_of_or (by decide) (by decide) hd
          exact @visible_digits_map [c, d] (visible_cons hc32 (visible_cons hd32 visible_nil)) s m r
            (by simpa only [if_pos hd, List.cons_append, List.nil_append] using h)
        · exact @visible_digits_map [c] (visible_cons hc32 visible_nil) (d :: s) m r
            (by simpa only [if_neg hd, List.cons_append, List.nil_append] using h)
    · rw [if_neg hc] at h
      cases h
      exact visible_nil

theorem Numeral.visible {t : List Char} (h : Numeral t) : Visible t := by
  unfold Numeral number at h
  have hs := visible_sign t
  obtain ⟨m, s⟩ := sign t
  simp only [Option.bind_eq_bind, Option.bind_eq_some_iff] at h
  obtain ⟨⟨i, s⟩, hi, ⟨f, s⟩, hf, ⟨e, s⟩, he, ht⟩ := h
  have hm := (Prod.mk.inj (Option.some.inj ht)).1
  rw [← hm]
  exact visible_append (visible_append (visible_append hs (visible_integer hi))
    (visible_fraction hf)) (visible_exponent he)

end Visible

end UnBoxer.JsonNumbers
