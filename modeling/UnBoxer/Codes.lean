import Mathlib.Data.List.Basic
import Mathlib.Data.List.Infix
import Mathlib.Tactic.Common

namespace UnBoxer.Codes

/-- A way to write values as bytes so that each can be read off the front of
whatever follows it. -/
structure Code (α : Type) where
  put : α → List UInt8
  get : List UInt8 → Option (α × List UInt8)
  get_put : ∀ x rest, get (put x ++ rest) = some (x, rest)

namespace Code

variable {α β : Type}

def byte : Code UInt8 where
  put b := [b]
  get
    | [] => none
    | b :: rest => some (b, rest)
  get_put _ _ := rfl

def unit : Code Unit where
  put _ := []
  get s := some ((), s)
  get_put _ _ := rfl

def pair (A : Code α) (B : Code β) : Code (α × β) where
  put x := A.put x.1 ++ B.put x.2
  get s := (A.get s).bind fun (a, s) => (B.get s).map fun (b, s) => ((a, b), s)
  get_put x rest := by
    rw [List.append_assoc, A.get_put]
    simp [B.get_put]

def map (A : Code α) (f : α → β) (g : β → α) (h : ∀ b, f (g b) = b) : Code β where
  put b := A.put (g b)
  get s := (A.get s).map fun (a, s) => (f a, s)
  get_put b rest := by simp [A.get_put, h]

def getList (A : Code α) : Nat → List UInt8 → Option (List α × List UInt8)
  | 0, _ => none
  | _ + 1, [] => none
  | n + 1, b :: s =>
    if b = 0 then some ([], s)
    else (A.get s).bind fun (x, s) => (getList A n s).map fun (xs, s) => (x :: xs, s)

def putList (A : Code α) (xs : List α) : List UInt8 := xs.flatMap (fun x => 1 :: A.put x) ++ [0]

theorem putList_cons (A : Code α) (x : α) (xs : List α) :
    putList A (x :: xs) = 1 :: (A.put x ++ putList A xs) := by
  simp [putList]

theorem length_putList (A : Code α) (xs : List α) : xs.length < (putList A xs).length := by
  induction xs with
  | nil => simp [putList]
  | cons x xs ih =>
    rw [putList_cons]
    simp only [List.length_cons, List.length_append]
    omega

theorem getList_put (A : Code α) {xs : List α} {n : Nat} (hn : xs.length < n)
    (rest : List UInt8) : getList A n (putList A xs ++ rest) = some (xs, rest) := by
  induction xs generalizing n with
  | nil =>
    cases n with
    | zero => simp at hn
    | succ n => rfl
  | cons x xs ih =>
    cases n with
    | zero => simp at hn
    | succ n =>
      have ih' := ih (n := n) (by simpa using hn)
      rw [putList_cons, List.cons_append, List.append_assoc]
      simp [getList, A.get_put, ih']

def list (A : Code α) : Code (List α) where
  put := putList A
  get s := getList A s.length s
  get_put xs rest := by
    have h := length_putList A xs
    exact getList_put A (by rw [List.length_append]; omega) rest

def nat : Code Nat := (list unit).map List.length (fun n => List.replicate n ()) (by simp)

def bool : Code Bool := byte.map (fun b => b == 1) (fun b => if b then 1 else 0) (by decide)

def int : Code Int :=
  (pair bool nat).map (fun (s, n) => if s then -(n : Int) else n) (fun z => (decide (z < 0), z.natAbs))
    (by
      intro z
      by_cases h : z < 0
      · simp only [h, decide_true, if_true]
        omega
      · simp only [h, decide_false, Bool.false_eq_true, if_false]
        omega)

def decode (A : Code α) (s : List UInt8) : Option α :=
  match A.get s with
  | some (x, _) => if A.put x = s then some x else none
  | none => none

theorem decode_put (A : Code α) (x : α) : A.decode (A.put x) = some x := by
  have h := A.get_put x []
  rw [List.append_nil] at h
  simp [decode, h]

theorem decode_prefix (A : Code α) {x : α} {s : List UInt8} (hs : s <+: A.put x)
    (hne : s ≠ A.put x) : A.decode s = none := by
  unfold decode
  cases hg : A.get s with
  | none => rfl
  | some p =>
    obtain ⟨y, rest⟩ := p
    by_cases hy : A.put y = s
    · obtain ⟨t, ht⟩ := hs
      have h := A.get_put y t
      have h' := A.get_put x []
      rw [hy, ht, ← List.append_nil (A.put x), h'] at h
      cases h
      exact absurd hy.symm hne
    · simp [hy]

end Code

end UnBoxer.Codes
