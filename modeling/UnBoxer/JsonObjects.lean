import UnBoxer.JsonParser

namespace UnBoxer.JsonObjects

open UnBoxer.JsonStrings UnBoxer.JsonParser

def Closes (rest : List Char) : Prop := ∃ d r, rest = d :: r ∧ (d = ',' ∨ d = '}')

structure Reads (t : List Char) (v : Value) : Prop where
  skip_eq : ∀ rest, skip (t ++ rest) = t ++ rest
  value_eq : ∀ n rest, Closes rest → value (n + 1) (t ++ rest) = some (v, rest)

structure Fails (t : List Char) : Prop where
  skip_eq : ∀ rest, skip (t ++ rest) = t ++ rest
  value_eq : ∀ n rest, value n (t ++ rest) = none

def membersText : List (List Char × List Char) → List Char
  | [] => ['}']
  | [(k, t)] => '"' :: (k ++ '"' :: ':' :: (t ++ ['}']))
  | (k, t) :: kt :: kts => '"' :: (k ++ '"' :: ':' :: (t ++ ',' :: membersText (kt :: kts)))

def objectText (kts : List (List Char × List Char)) : List Char := '{' :: membersText kts

theorem reads_string {t s : List Char} (h : ∀ rest, string (t ++ '"' :: rest) = some (s, rest)) :
    Reads ('"' :: (t ++ ['"'])) (.str s) where
  skip_eq rest := skip_cons rfl _
  value_eq n rest _ := by
    simpa using value_string n (h rest)

theorem fails_string {t : List Char} (h : ∀ rest, string (t ++ rest) = none) :
    Fails ('"' :: (t ++ ['"'])) where
  skip_eq rest := skip_cons rfl _
  value_eq n rest := by
    simpa using value_string_none n (h ('"' :: rest))

theorem reads_decimalInt (z : Int) : Reads (decimalInt z) (.num (decimalInt z)) where
  skip_eq rest := by
    obtain ⟨c, s, hc, hd⟩ := decimalInt_head z
    have hs : isSpace c = false := by
      have hne : ∀ e : Char, e ≠ '-' → e.isDigit = false → c ≠ e := fun e => head_ne hd
      simp [isSpace, hne ' ' (by decide) rfl, hne '\t' (by decide) rfl,
        hne '\n' (by decide) rfl, hne '\r' (by decide) rfl]
    rw [hc]
    exact skip_cons hs _
  value_eq n rest hrest := by
    obtain ⟨d, r, rfl, hd⟩ := hrest
    exact value_decimalInt n z hd r

theorem skip_members (kts : List (List Char × List Char)) :
    skip (membersText kts) = membersText kts := by
  cases kts with
  | nil => rfl
  | cons kt kts => cases kts <;> exact skip_cons rfl _

section Member

variable {n : Nat} {k t rest : List Char}

theorem members_key (hk : ∀ c ∈ k, Plain c) (hs : skip (t ++ rest) = t ++ rest) :
    members (n + 1) ('"' :: (k ++ '"' :: ':' :: (t ++ rest))) =
      match value n (t ++ rest) with
      | none => none
      | some (v, s) =>
        match skip s with
        | [] => none
        | d :: s =>
          if d = ',' then (members n (skip s)).map fun (kvs, s) => ((k, v) :: kvs, s)
          else if d = '}' then some ([(k, v)], s)
          else none := by
  have hc : skip (':' :: (t ++ rest)) = ':' :: (t ++ rest) := skip_cons rfl _
  have hstr := string_plain hk (':' :: (t ++ rest))
  rw [members, if_pos rfl, hstr]
  simp only [hc, if_true]
  rewrite [hs]
  rfl

theorem members_fails (hk : ∀ c ∈ k, Plain c) (ht : Fails t) :
    members n ('"' :: (k ++ '"' :: ':' :: (t ++ rest))) = none := by
  cases n with
  | zero => rfl
  | succ n => rw [members_key hk (ht.skip_eq rest), ht.value_eq]

theorem members_cons {v : Value} (hk : ∀ c ∈ k, Plain c) (ht : Reads t v) :
    members (n + 2) ('"' :: (k ++ '"' :: ':' :: (t ++ ',' :: rest))) =
      (members (n + 1) (skip rest)).map fun (kvs, s) => ((k, v) :: kvs, s) := by
  have hc : skip (',' :: rest) = ',' :: rest := skip_cons rfl _
  rw [members_key hk (ht.skip_eq _), ht.value_eq n _ ⟨',', rest, rfl, .inl rfl⟩]
  simp only [hc, if_true]

theorem members_last {v : Value} (hk : ∀ c ∈ k, Plain c) (ht : Reads t v) :
    members (n + 2) ('"' :: (k ++ '"' :: ':' :: (t ++ '}' :: rest))) = some ([(k, v)], rest) := by
  have hc : skip ('}' :: rest) = '}' :: rest := skip_cons rfl _
  rw [members_key hk (ht.skip_eq _), ht.value_eq n _ ⟨'}', rest, rfl, .inr rfl⟩]
  simp [hc]

end Member

theorem members_reads {kts : List (List Char × List Char)} {vs : List (List Char × Value)}
    (hk : ∀ kt ∈ kts, ∀ c ∈ kt.1, Plain c)
    (hv : List.Forall₂ (fun kt kv => kt.1 = kv.1 ∧ Reads kt.2 kv.2) kts vs) (hne : kts ≠ [])
    (n : Nat) : members (n + kts.length + 1) (membersText kts) = some (vs, []) := by
  induction hv with
  | nil => exact absurd rfl hne
  | @cons kt kv kts vs h hv ih =>
    obtain ⟨k, t⟩ := kt
    obtain ⟨k', v⟩ := kv
    obtain ⟨rfl, ht⟩ : k = k' ∧ Reads t v := h
    have hkt : ∀ c ∈ k, Plain c := hk (k, t) List.mem_cons_self
    cases hv with
    | nil => exact members_last hkt ht
    | cons h' hv' =>
      have ih' := ih (fun kt hkt => hk kt (List.mem_cons_of_mem _ hkt)) (by simp)
      rw [membersText, List.length_cons, ← Nat.add_assoc]
      refine (members_cons hkt ht).trans ?_
      rw [skip_members]
      exact congrArg _ ih'

theorem members_none {kts : List (List Char × List Char)}
    (hk : ∀ kt ∈ kts, ∀ c ∈ kt.1, Plain c) (hv : ∀ kt ∈ kts, Fails kt.2 ∨ ∃ v, Reads kt.2 v)
    (hf : ∃ kt ∈ kts, Fails kt.2) (n : Nat) : members (n + kts.length) (membersText kts) = none := by
  induction kts with
  | nil => simp at hf
  | cons kt kts ih =>
    obtain ⟨k, t⟩ := kt
    have hkt : ∀ c ∈ k, Plain c := hk (k, t) List.mem_cons_self
    by_cases ht : Fails t
    · cases kts <;> exact members_fails hkt ht
    · obtain ⟨v, hr⟩ := (hv (k, t) List.mem_cons_self).resolve_left ht
      have hf' : ∃ kt ∈ kts, Fails kt.2 := by
        obtain ⟨kt, hm, h⟩ := hf
        obtain rfl | hm := List.mem_cons.mp hm
        · exact absurd h ht
        · exact ⟨kt, hm, h⟩
      have ih' := ih (fun kt h => hk kt (List.mem_cons_of_mem _ h))
        (fun kt h => hv kt (List.mem_cons_of_mem _ h)) hf'
      cases kts with
      | nil => simp at hf'
      | cons kt' kts =>
        rw [membersText, List.length_cons, List.length_cons, ← Nat.add_assoc, ← Nat.add_assoc]
        refine (members_cons hkt hr).trans ?_
        rw [skip_members]
        exact congrArg _ ih'

theorem length_members (kts : List (List Char × List Char)) :
    kts.length < (membersText kts).length := by
  induction kts with
  | nil => simp [membersText]
  | cons kt kts ih =>
    cases kts with
    | nil => simp [membersText]
    | cons kt' kts =>
      simp only [membersText, List.length_cons, List.length_append] at ih ⊢
      omega

theorem value_objectText {kts : List (List Char × List Char)} (hne : kts ≠ []) (n : Nat) :
    value (n + 1) (objectText kts) =
      (members n (membersText kts)).map fun (kvs, s) => (.obj kvs, s) := by
  have hs := skip_members kts
  obtain ⟨s, hm⟩ : ∃ s, membersText kts = '"' :: s := by
    match kts, hne with
    | [kt], _ => exact ⟨_, rfl⟩
    | kt :: kt' :: kts, _ => exact ⟨_, rfl⟩
  rw [hm] at hs
  simp [objectText, value, hm, hs]

theorem parse_objectText {kts : List (List Char × List Char)} {vs : List (List Char × Value)}
    (hk : ∀ kt ∈ kts, ∀ c ∈ kt.1, Plain c)
    (hv : List.Forall₂ (fun kt kv => kt.1 = kv.1 ∧ Reads kt.2 kv.2) kts vs) (hne : kts ≠ []) :
    parse (objectText kts) = some (.obj vs) := by
  have hs : skip (objectText kts) = objectText kts := skip_cons rfl _
  have hlen := length_members kts
  have hm := members_reads hk hv hne ((membersText kts).length - kts.length)
  rw [Nat.sub_add_cancel hlen.le] at hm
  have he : skip [] = [] := rfl
  rw [parse, hs, value_objectText hne, objectText, List.length_cons, hm]
  simp [he]

theorem parse_objectText_none {kts : List (List Char × List Char)}
    (hk : ∀ kt ∈ kts, ∀ c ∈ kt.1, Plain c) (hv : ∀ kt ∈ kts, Fails kt.2 ∨ ∃ v, Reads kt.2 v)
    (hf : ∃ kt ∈ kts, Fails kt.2) : parse (objectText kts) = none := by
  have hs : skip (objectText kts) = objectText kts := skip_cons rfl _
  have hlen := length_members kts
  have hne : kts ≠ [] := by
    rintro rfl
    simp at hf
  have hm := members_none hk hv hf ((membersText kts).length + 1 - kts.length)
  rw [Nat.sub_add_cancel (by omega)] at hm
  rw [parse, hs, value_objectText hne, objectText, List.length_cons, hm]
  rfl

end UnBoxer.JsonObjects
