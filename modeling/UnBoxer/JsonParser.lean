import UnBoxer.JsonStrings
import Mathlib.Tactic.IntervalCases

namespace UnBoxer.JsonParser

open UnBoxer.JsonStrings

inductive Value where
  | null
  | bool (b : Bool)
  | num (text : List Char)
  | str (s : List Char)
  | arr (vs : List Value)
  | obj (kvs : List (List Char × Value))

def isSpace (c : Char) : Bool := c = ' ' || c = '\t' || c = '\n' || c = '\r'

def skip (s : List Char) : List Char := s.dropWhile isSpace

def sign : List Char → List Char × List Char
  | [] => ([], [])
  | c :: s => if c = '-' then (['-'], s) else ([], c :: s)

def integer (s : List Char) : Option (List Char × List Char) :=
  match s with
  | [] => none
  | c :: s =>
    if c = '0' then some (['0'], s)
    else if c.isDigit then some (c :: s.takeWhile Char.isDigit, s.dropWhile Char.isDigit)
    else none

def digits (s : List Char) : Option (List Char × List Char) :=
  match s.takeWhile Char.isDigit with
  | [] => none
  | ds => some (ds, s.dropWhile Char.isDigit)

def fraction : List Char → Option (List Char × List Char)
  | [] => some ([], [])
  | c :: s => if c = '.' then (digits s).map fun (ds, s) => ('.' :: ds, s) else some ([], c :: s)

def exponent : List Char → Option (List Char × List Char)
  | [] => some ([], [])
  | c :: s =>
    if c = 'e' || c = 'E' then
      match s with
      | [] => none
      | d :: r =>
        if d = '+' || d = '-' then (digits r).map fun (ds, s) => (c :: d :: ds, s)
        else (digits s).map fun (ds, s) => (c :: ds, s)
    else some ([], c :: s)

def number (s : List Char) : Option (List Char × List Char) := do
  let (m, s) := sign s
  let (i, s) ← integer s
  let (f, s) ← fraction s
  let (e, s) ← exponent s
  some (m ++ i ++ f ++ e, s)

def literal (word : List Char) (v : Value) (s : List Char) : Option (Value × List Char) :=
  if word.isPrefixOf s then some (v, s.drop word.length) else none

mutual

/-- Read one value of RFC 8259, with `n` as the bound on the nesting. -/
def value : Nat → List Char → Option (Value × List Char)
  | 0, _ => none
  | _ + 1, [] => none
  | n + 1, c :: s =>
    if c = '"' then (string s).map fun (t, s) => (.str t, s)
    else if c = '{' then
      match skip s with
      | [] => none
      | d :: r =>
        if d = '}' then some (.obj [], r)
        else (members n (d :: r)).map fun (kvs, s) => (.obj kvs, s)
    else if c = '[' then
      match skip s with
      | [] => none
      | d :: r =>
        if d = ']' then some (.arr [], r)
        else (elements n (d :: r)).map fun (vs, s) => (.arr vs, s)
    else if c = 't' then literal "true".toList (.bool true) (c :: s)
    else if c = 'f' then literal "false".toList (.bool false) (c :: s)
    else if c = 'n' then literal "null".toList .null (c :: s)
    else (number (c :: s)).map fun (t, s) => (.num t, s)

def members : Nat → List Char → Option (List (List Char × Value) × List Char)
  | 0, _ => none
  | _ + 1, [] => none
  | n + 1, c :: s =>
    if c = '"' then
      match string s with
      | none => none
      | some (k, s) =>
        match skip s with
        | [] => none
        | d :: s =>
          if d = ':' then
            match value n (skip s) with
            | none => none
            | some (v, s) =>
              match skip s with
              | [] => none
              | d :: s =>
                if d = ',' then (members n (skip s)).map fun (kvs, s) => ((k, v) :: kvs, s)
                else if d = '}' then some ([(k, v)], s)
                else none
          else none
    else none

def elements : Nat → List Char → Option (List Value × List Char)
  | 0, _ => none
  | n + 1, s =>
    match value n s with
    | none => none
    | some (v, s) =>
      match skip s with
      | [] => none
      | d :: s =>
        if d = ',' then (elements n (skip s)).map fun (vs, s) => (v :: vs, s)
        else if d = ']' then some ([v], s)
        else none

end

/-- A whole text is one value with white space around it. -/
def parse (s : List Char) : Option Value :=
  match value (s.length + 1) (skip s) with
  | none => none
  | some (v, s) => if skip s = [] then some v else none

theorem skip_cons {c : Char} (hc : isSpace c = false) (s : List Char) : skip (c :: s) = c :: s := by
  simp [skip, hc]

theorem value_string (n : Nat) {t u : List Char} {k : List Char} (h : string t = some (k, u)) :
    value (n + 1) ('"' :: t) = some (.str k, u) := by
  simp [value, h]

theorem value_string_none (n : Nat) {t : List Char} (h : string t = none) :
    value n ('"' :: t) = none := by
  cases n with
  | zero => rfl
  | succ n => simp [value, h]

theorem takeWhile_digits {ds : List Char} (hd : ∀ c ∈ ds, c.isDigit = true) {d : Char}
    (h : d.isDigit = false) (rest : List Char) :
    (ds ++ d :: rest).takeWhile Char.isDigit = ds := by
  rw [List.takeWhile_append_of_pos hd, List.takeWhile_cons_of_neg (by simp [h]), List.append_nil]

theorem dropWhile_digits {ds : List Char} (hd : ∀ c ∈ ds, c.isDigit = true) {d : Char}
    (h : d.isDigit = false) (rest : List Char) :
    (ds ++ d :: rest).dropWhile Char.isDigit = d :: rest := by
  rw [List.dropWhile_append_of_pos hd, List.dropWhile_cons_of_neg (by simp [h])]

def decimal (n : Nat) : List Char := Nat.toDigits 10 n

theorem decimal_digit {n : Nat} {c : Char} (h : c ∈ decimal n) : c.isDigit = true :=
  Nat.isDigit_of_mem_toDigits (by decide) (by decide) h

theorem decimal_head {n : Nat} (hn : 0 < n) : ∃ c ds, decimal n = c :: ds ∧ c ≠ '0' := by
  induction n using Nat.strongRecOn with
  | ind n ih =>
    rw [decimal, Nat.toDigits_eq_if (by decide)]
    split
    · rename_i h
      refine ⟨n.digitChar, [], rfl, ?_⟩
      interval_cases n <;> decide
    · rename_i h
      obtain ⟨c, ds, hc, h0⟩ := ih (n / 10) (by omega) (by omega)
      rw [decimal] at hc
      exact ⟨c, ds ++ [(n % 10).digitChar], by rw [hc]; rfl, h0⟩

theorem integer_decimal (n : Nat) {d : Char} (h : d.isDigit = false) (rest : List Char) :
    integer (decimal n ++ d :: rest) = some (decimal n, d :: rest) := by
  obtain rfl | hn := Nat.eq_zero_or_pos n
  · rfl
  · obtain ⟨c, ds, hc, h0⟩ := decimal_head hn
    have hd : ∀ x ∈ c :: ds, x.isDigit = true := fun x hx => decimal_digit (hc ▸ hx)
    have hds : ∀ x ∈ ds, x.isDigit = true := fun x hx => hd x (List.mem_cons_of_mem c hx)
    rw [hc, List.cons_append]
    simp only [integer, h0, hd c List.mem_cons_self, if_true, if_false,
      takeWhile_digits hds h rest, dropWhile_digits hds h rest]

def decimalInt (z : Int) : List Char := (if z < 0 then ['-'] else []) ++ decimal z.natAbs

theorem digit_ne {c d : Char} (hc : c.isDigit = true) (hd : d.isDigit = false) : c ≠ d := by
  rintro rfl
  rw [hc] at hd
  cases hd

theorem sign_decimalInt (z : Int) (rest : List Char) :
    sign (decimalInt z ++ rest) =
      ((if z < 0 then ['-'] else []), decimal z.natAbs ++ rest) := by
  unfold decimalInt
  split
  · rfl
  · obtain ⟨c, ds, hc⟩ := List.exists_cons_of_ne_nil (show decimal z.natAbs ≠ [] from Nat.toDigits_ne_nil)
    have hm : c ≠ '-' := digit_ne (decimal_digit (by rw [hc]; exact List.mem_cons_self)) rfl
    simp [hc, sign, hm]

theorem decimalInt_head (z : Int) :
    ∃ c s, decimalInt z = c :: s ∧ (c = '-' ∨ c.isDigit = true) := by
  unfold decimalInt
  split
  · exact ⟨'-', _, rfl, .inl rfl⟩
  · obtain ⟨c, ds, hc⟩ := List.exists_cons_of_ne_nil (show decimal z.natAbs ≠ [] from Nat.toDigits_ne_nil)
    exact ⟨c, ds, by simpa using hc, .inr (decimal_digit (by rw [hc]; exact List.mem_cons_self))⟩

theorem head_ne {c e : Char} (hc : c = '-' ∨ c.isDigit = true) (hm : e ≠ '-')
    (hf : e.isDigit = false) : c ≠ e := by
  rintro rfl
  obtain hc | hc := hc
  · exact hm hc
  · exact digit_ne hc hf rfl

theorem value_decimalInt (n : Nat) (z : Int) {d : Char} (hd : d = ',' ∨ d = '}')
    (rest : List Char) :
    value (n + 1) (decimalInt z ++ d :: rest) = some (.num (decimalInt z), d :: rest) := by
  have hnum : number (decimalInt z ++ d :: rest) = some (decimalInt z, d :: rest) := by
    have hf : d.isDigit = false := by rcases hd with rfl | rfl <;> rfl
    have hi := integer_decimal z.natAbs hf rest
    simp only [number, sign_decimalInt, hi]
    obtain rfl | rfl := hd <;> simp [fraction, exponent, decimalInt]
  obtain ⟨c, s, hc, hd⟩ := decimalInt_head z
  have hne : ∀ e : Char, e ≠ '-' → e.isDigit = false → c ≠ e := fun e => head_ne hd
  rw [hc, List.cons_append] at hnum ⊢
  simp [value, hnum, hne '"' (by decide) rfl, hne '{' (by decide) rfl, hne '[' (by decide) rfl,
    hne 't' (by decide) rfl, hne 'f' (by decide) rfl, hne 'n' (by decide) rfl]

end UnBoxer.JsonParser
