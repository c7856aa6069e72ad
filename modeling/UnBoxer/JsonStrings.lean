import Mathlib.Data.List.Basic
import Mathlib.Tactic.Common

namespace UnBoxer.JsonStrings

inductive Scanned where
  | char (c : Char)
  | unit (n : Nat)
  deriving DecidableEq

def hexDigit (c : Char) : Option Nat :=
  if '0' ≤ c ∧ c ≤ '9' then some (c.toNat - 48)
  else if 'a' ≤ c ∧ c ≤ 'f' then some (c.toNat - 87)
  else if 'A' ≤ c ∧ c ≤ 'F' then some (c.toNat - 55)
  else none

def simpleEscape (c : Char) : Option Char :=
  if c = '"' then some '"'
  else if c = '\\' then some '\\'
  else if c = '/' then some '/'
  else if c = 'b' then some (Char.ofNat 8)
  else if c = 'f' then some (Char.ofNat 12)
  else if c = 'n' then some '\n'
  else if c = 'r' then some '\r'
  else if c = 't' then some '\t'
  else none

def push (x : Scanned) : Option (List Scanned × List Char) → Option (List Scanned × List Char) :=
  Option.map fun (xs, rest) => (x :: xs, rest)

/-- Read a string literal after its opening quote: the characters below U+0020
may not stand in it, and a backslash starts one of the escapes of RFC 8259. -/
def scan : List Char → Option (List Scanned × List Char)
  | [] => none
  | c :: rest =>
    if c = '"' then some ([], rest)
    else if c = '\\' then
      match rest with
      | [] => none
      | e :: rest =>
        if e = 'u' then
          match rest with
          | h₃ :: h₂ :: h₁ :: h₀ :: rest =>
            match hexDigit h₃, hexDigit h₂, hexDigit h₁, hexDigit h₀ with
            | some d₃, some d₂, some d₁, some d₀ =>
              push (.unit (((d₃ * 16 + d₂) * 16 + d₁) * 16 + d₀)) (scan rest)
            | _, _, _, _ => none
          | _ => none
        else
          match simpleEscape e with
          | some x => push (.char x) (scan rest)
          | none => none
    else if c.toNat < 32 then none
    else push (.char c) (scan rest)

theorem scan_quote (rest : List Char) : scan ('"' :: rest) = some ([], rest) := by
  rw [scan.eq_def]
  rfl

theorem scan_escape {e x : Char} (hu : e ≠ 'u') (hx : simpleEscape e = some x)
    (rest : List Char) : scan ('\\' :: e :: rest) = push (.char x) (scan rest) := by
  rw [scan.eq_def]
  simp [hu, hx]

/-- To be decided along the list, not over all characters. -/
instance decidableForallMem (p : Char → Prop) [DecidablePred p] (s : List Char) :
    Decidable (∀ c ∈ s, p c) :=
  List.decidableBAll p s

/-- A character that may stand for itself in a string literal. -/
def Plain (c : Char) : Prop := c ≠ '"' ∧ c ≠ '\\' ∧ 32 ≤ c.toNat

instance (c : Char) : Decidable (Plain c) := inferInstanceAs (Decidable (_ ∧ _ ∧ _))

theorem scan_plain {c : Char} (hc : Plain c) (rest : List Char) :
    scan (c :: rest) = push (.char c) (scan rest) := by
  obtain ⟨hq, hb, hn⟩ := hc
  rw [scan.eq_def]
  simp [hq, hb, Nat.not_lt.mpr hn]

theorem scan_control {c : Char} (hc : c.toNat < 32) (rest : List Char) :
    scan (c :: rest) = none := by
  have hq : c ≠ '"' := by
    rintro rfl
    revert hc
    decide
  have hb : c ≠ '\\' := by
    rintro rfl
    revert hc
    decide
  rw [scan.eq_def]
  simp [hq, hb, hc]

/-- Join the code units of surrogate pairs; a lone surrogate is no text. -/
def assemble : List Scanned → Option (List Char)
  | [] => some []
  | .char c :: xs => (assemble xs).map (c :: ·)
  | .unit n :: xs =>
    if n < 0xD800 ∨ 0xDFFF < n then (assemble xs).map (Char.ofNat n :: ·)
    else if n < 0xDC00 then
      match xs with
      | .unit m :: xs =>
        if 0xDC00 ≤ m ∧ m ≤ 0xDFFF then
          (assemble xs).map (Char.ofNat (0x10000 + (n - 0xD800) * 1024 + (m - 0xDC00)) :: ·)
        else none
      | _ => none
    else none

def string (s : List Char) : Option (List Char × List Char) :=
  match scan s with
  | some (xs, rest) => (assemble xs).map (·, rest)
  | none => none

theorem assemble_char (s : List Char) : assemble (s.map .char) = some s := by
  induction s with
  | nil => rfl
  | cons c s ih => simp [assemble, ih]

def Keeps (enc : Char → List Char) (c : Char) : Prop :=
  ∀ rest, scan (enc c ++ rest) = push (.char c) (scan rest)

def Breaks (enc : Char → List Char) (c : Char) : Prop := ∀ rest, scan (enc c ++ rest) = none

theorem scan_keeps {enc : Char → List Char} {s : List Char} (h : ∀ c ∈ s, Keeps enc c)
    (rest : List Char) : scan (s.flatMap enc ++ '"' :: rest) = some (s.map .char, rest) := by
  induction s with
  | nil => exact scan_quote rest
  | cons c s ih =>
    have ih' := ih (fun d hd => h d (List.mem_cons_of_mem c hd))
    rw [List.flatMap_cons, List.append_assoc, h c List.mem_cons_self, ih']
    rfl

theorem string_keeps {enc : Char → List Char} {s : List Char} (h : ∀ c ∈ s, Keeps enc c)
    (rest : List Char) : string (s.flatMap enc ++ '"' :: rest) = some (s, rest) := by
  simp [string, scan_keeps h, assemble_char]

theorem string_breaks {enc : Char → List Char} {s : List Char}
    (h : ∀ c ∈ s, Keeps enc c ∨ Breaks enc c) {c : Char} (hc : c ∈ s) (hb : Breaks enc c)
    (rest : List Char) : string (s.flatMap enc ++ rest) = none := by
  suffices hs : scan (s.flatMap enc ++ rest) = none by simp [string, hs]
  induction s with
  | nil => simp at hc
  | cons d s ih =>
    rw [List.flatMap_cons, List.append_assoc]
    obtain hd | hd := h d List.mem_cons_self
    · rw [hd]
      have hcs : c ∈ s ∨ Breaks enc d := by
        obtain rfl | hcs := List.mem_cons.mp hc
        · exact .inr hb
        · exact .inl hcs
      obtain hcs | hbd := hcs
      · rw [ih (fun d hd => h d (List.mem_cons_of_mem _ hd)) hcs]
        rfl
      · rw [← hd, hbd]
    · exact hd _

theorem keeps_plain {enc : Char → List Char} {c : Char} (he : enc c = [c]) (hc : Plain c) :
    Keeps enc c := fun rest => by rw [he, List.singleton_append, scan_plain hc]

theorem keeps_escape {enc : Char → List Char} {c e : Char} (he : enc c = ['\\', e])
    (hu : e ≠ 'u') (hx : simpleEscape e = some c) : Keeps enc c :=
  fun rest => by rw [he, List.cons_append, List.singleton_append, scan_escape hu hx]

theorem breaks_control {enc : Char → List Char} {c : Char} (he : enc c = [c])
    (hc : c.toNat < 32) : Breaks enc c :=
  fun rest => by rw [he, List.singleton_append, scan_control hc]

theorem string_plain {s : List Char} (hs : ∀ c ∈ s, Plain c) (rest : List Char) :
    string (s ++ '"' :: rest) = some (s, rest) := by
  have hk : ∀ c ∈ s, Keeps (fun c => [c]) c := fun c hc => keeps_plain rfl (hs c hc)
  simpa using string_keeps hk rest

end UnBoxer.JsonStrings
