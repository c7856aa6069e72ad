import Mathlib.Data.List.Basic
import Mathlib.Data.List.Nodup
import Mathlib.Logic.Function.Basic
import Mathlib.Tactic.Common

namespace UnBoxer.HashTables

variable {κ ν τ : Type}

/-- The chains of a table, each with its newest entry first. -/
structure HashTable (κ ν : Type) where
  entries : Fin 4096 → List (κ × ν)
  count : ℕ

def hashTableNew : HashTable κ ν := ⟨fun _ => [], 0⟩

def idx0 (hash : UInt32) : Fin 4096 := ⟨hash.toNat % 4096, Nat.mod_lt _ (by decide)⟩

section Table

variable (hashFunc : κ → UInt32) (compareFunc : κ → κ → Bool)

/-- The loop of `hash_table_insert`: the chain with the new value, when it holds the key. -/
def replaceValue (key : κ) (value : ν) : List (κ × ν) → Option (List (κ × ν))
  | [] => none
  | e :: es =>
    if compareFunc e.1 key then some ((e.1, value) :: es) else (replaceValue key value es).map (e :: ·)

def hashTableInsert (ht : HashTable κ ν) (key : κ) (value : ν) : HashTable κ ν :=
  let i := idx0 (hashFunc key)
  match replaceValue compareFunc key value (ht.entries i) with
  | some es => { ht with entries := Function.update ht.entries i es }
  | none =>
    { entries := Function.update ht.entries i ((key, value) :: ht.entries i)
      count := ht.count + 1 }

def hashTableLookup (ht : HashTable κ ν) (key : κ) : Option ν :=
  ((ht.entries (idx0 (hashFunc key))).find? (fun e => compareFunc e.1 key)).map Prod.snd

/-- The number of entries stays as it was. -/
def hashTableRemove (ht : HashTable κ ν) (key : κ) : HashTable κ ν :=
  let i := idx0 (hashFunc key)
  { ht with
    entries := Function.update ht.entries i ((ht.entries i).eraseP (fun e => compareFunc e.1 key)) }

end Table

/-- Both functions go by the text of a key: keys without one are equal to none. -/
structure Textual (text : κ → Option τ) (hashFunc : κ → UInt32) (compareFunc : κ → κ → Bool) :
    Prop where
  compare : ∀ a b, compareFunc a b = true ↔ ∃ t, text a = some t ∧ text b = some t
  hash : ∀ a b t, text a = some t → text b = some t → hashFunc a = hashFunc b

/-- The table holds these entries, each in its chain and there once. -/
structure Indexes (hashFunc : κ → UInt32) (ht : HashTable κ ν) (es : List (κ × ν)) : Prop where
  nodup : ∀ i, (ht.entries i).Nodup
  mem : ∀ i e, e ∈ ht.entries i ↔ e ∈ es ∧ idx0 (hashFunc e.1) = i

structure Distinct (text : κ → Option τ) (es : List (κ × ν)) : Prop where
  nodup : es.Nodup
  text : ∀ e ∈ es, ∀ e' ∈ es, ∀ t, text e.1 = some t → text e'.1 = some t → e = e'

section Indexes

variable {text : κ → Option τ} {hashFunc hashFunc' : κ → UInt32} {compareFunc : κ → κ → Bool}
  {ht : HashTable κ ν} {es as bs l : List (κ × ν)} {key : κ} {value v : ν} {t : τ}

theorem indexes_new : Indexes hashFunc (hashTableNew : HashTable κ ν) [] where
  nodup _ := List.nodup_nil
  mem i e := by simp [hashTableNew]

theorem Indexes.congr (h : Indexes hashFunc ht es)
    (hh : ∀ e ∈ es, hashFunc' e.1 = hashFunc e.1) : Indexes hashFunc' ht es where
  nodup := h.nodup
  mem i e := by
    rw [h.mem i e]
    exact and_congr_right fun he => by rw [hh e he]

theorem Textual.compare_text (h : Textual text hashFunc compareFunc) (ht : text key = some t)
    (k : κ) : compareFunc k key = true ↔ text k = some t := by
  rw [h.compare, ht]
  constructor
  · rintro ⟨u, hk, hu⟩
    rw [hk, hu]
  · exact fun hk => ⟨t, hk, rfl⟩

/-- What is looked up is found in the chain that the hash leads to. -/
theorem Indexes.lookup (h : Indexes hashFunc ht es) (hf : Textual text hashFunc compareFunc)
    (hd : Distinct text es) {e : κ × ν} (he : e ∈ es) (hte : text e.1 = some t)
    (hk : text key = some t) : hashTableLookup hashFunc compareFunc ht key = some e.2 := by
  have hc := (hf.compare_text hk e.1).mpr hte
  have hm := (h.mem (idx0 (hashFunc key)) e).mpr ⟨he, congrArg idx0 (hf.hash _ _ t hte hk)⟩
  rw [hashTableLookup]
  cases hg : (ht.entries (idx0 (hashFunc key))).find? (fun e => compareFunc e.1 key) with
  | none =>
    rw [List.find?_eq_none] at hg
    exact absurd hc (hg e hm)
  | some e' =>
    have he' := ((h.mem _ e').mp (List.mem_of_find?_eq_some hg)).1
    have hce : compareFunc e'.1 key = true :=
      List.find?_some (p := fun e : κ × ν => compareFunc e.1 key) hg
    rw [hd.text e' he' e he t ((hf.compare_text hk e'.1).mp hce) hte]
    rfl

theorem Indexes.lookup_none (h : Indexes hashFunc ht es) (hf : Textual text hashFunc compareFunc)
    (hk : text key = some t) (hn : ∀ e ∈ es, text e.1 ≠ some t) :
    hashTableLookup hashFunc compareFunc ht key = none := by
  rw [hashTableLookup, Option.map_eq_none_iff, List.find?_eq_none]
  exact fun (e : κ × ν) he hc => hn e ((h.mem _ e).mp he).1 ((hf.compare_text hk e.1).mp hc)

theorem replaceValue_none (h : ∀ e ∈ l, compareFunc e.1 key = false) :
    replaceValue compareFunc key value l = none := by
  induction l with
  | nil => rfl
  | cons e es ih =>
    rw [replaceValue, h e List.mem_cons_self, if_neg Bool.false_ne_true,
      ih fun e' he' => h e' (List.mem_cons_of_mem e he')]
    rfl

theorem replaceValue_some (h : ∀ e ∈ as, compareFunc e.1 key = false)
    (hk : compareFunc key key = true) :
    replaceValue compareFunc key value (as ++ (key, v) :: bs) =
      some (as ++ (key, value) :: bs) := by
  induction as with
  | nil => exact if_pos hk
  | cons e es ih =>
    rw [List.cons_append, replaceValue, h e List.mem_cons_self, if_neg Bool.false_ne_true,
      ih fun e' he' => h e' (List.mem_cons_of_mem e he')]
    rfl

theorem Indexes.update {ht' : HashTable κ ν} {es' l : List (κ × ν)} {i : Fin 4096}
    (h : Indexes hashFunc ht es) (he : ht'.entries = Function.update ht.entries i l)
    (hn : l.Nodup) (hl : ∀ e, e ∈ l ↔ e ∈ es' ∧ idx0 (hashFunc e.1) = i)
    (ho : ∀ e, idx0 (hashFunc e.1) ≠ i → (e ∈ es' ↔ e ∈ es)) : Indexes hashFunc ht' es' := by
  constructor
  · intro j
    rw [he]
    by_cases hj : j = i
    · rw [hj, Function.update_self]
      exact hn
    · rw [Function.update_of_ne hj]
      exact h.nodup j
  · intro j e
    rw [he]
    by_cases hj : j = i
    · rw [hj, Function.update_self]
      exact hl e
    · rw [Function.update_of_ne hj, h.mem]
      exact and_congr_left fun hh => (ho e (hh ▸ hj)).symm

theorem Indexes.insert (h : Indexes hashFunc ht es) (hf : Textual text hashFunc compareFunc)
    (value : ν) (hk : text key = some t) (hn : ∀ e ∈ es, text e.1 ≠ some t) :
    Indexes hashFunc (hashTableInsert hashFunc compareFunc ht key value) (es ++ [(key, value)]) := by
  have hr : replaceValue compareFunc key value (ht.entries (idx0 (hashFunc key))) = none := by
    refine replaceValue_none fun e he => Bool.eq_false_iff.mpr fun hc => ?_
    exact hn e ((h.mem _ e).mp he).1 ((hf.compare_text hk e.1).mp hc)
  refine h.update (i := idx0 (hashFunc key))
    (l := (key, value) :: ht.entries (idx0 (hashFunc key))) ?_ ?_ (fun e => ?_) (fun e he => ?_)
  · rw [hashTableInsert, hr]
  · exact List.nodup_cons.mpr ⟨fun hm => hn _ ((h.mem _ _).mp hm).1 hk, h.nodup _⟩
  · rw [List.mem_cons, List.mem_append, List.mem_singleton, h.mem]
    constructor
    · rintro (rfl | ⟨he, hh⟩)
      · exact ⟨Or.inr rfl, rfl⟩
      · exact ⟨Or.inl he, hh⟩
    · rintro ⟨he | he, hh⟩
      · exact Or.inr ⟨he, hh⟩
      · exact Or.inl he
  · rw [List.mem_append, List.mem_singleton]
    refine or_iff_left ?_
    rintro rfl
    exact he rfl

theorem Indexes.split (h : Indexes hashFunc ht (as ++ (key, v) :: bs))
    (hf : Textual text hashFunc compareFunc) (hd : Distinct text (as ++ (key, v) :: bs))
    (hk : text key = some t) :
    ∃ cs ds, ht.entries (idx0 (hashFunc key)) = cs ++ (key, v) :: ds ∧
      (∀ e ∈ cs, compareFunc e.1 key = false) ∧ (cs ++ ds).Nodup ∧
      ∀ e, e ∈ cs ++ ds ↔ e ∈ as ++ bs ∧ idx0 (hashFunc e.1) = idx0 (hashFunc key) := by
  have hm : (key, v) ∈ ht.entries (idx0 (hashFunc key)) := (h.mem _ _).mpr ⟨by simp, rfl⟩
  obtain ⟨cs, ds, hcd⟩ := List.append_of_mem hm
  have hn := h.nodup (idx0 (hashFunc key))
  rw [hcd, List.nodup_middle, List.nodup_cons] at hn
  have hes : (key, v) ∉ as ++ bs := (List.nodup_cons.mp (List.nodup_middle.mp hd.nodup)).1
  have hmid : ∀ {l r : List (κ × ν)} (e : κ × ν),
      e ∈ l ++ (key, v) :: r ↔ e = (key, v) ∨ e ∈ l ++ r := by
    intro l r e
    simp only [List.mem_append, List.mem_cons]
    exact or_left_comm
  refine ⟨cs, ds, hcd, fun e he => ?_, hn.2, fun e => ?_⟩
  · refine Bool.eq_false_iff.mpr fun hc => ?_
    have hme : e ∈ ht.entries (idx0 (hashFunc key)) := hcd ▸ List.mem_append_left _ he
    have heq := hd.text e ((h.mem _ e).mp hme).1 (key, v) (by simp) t
      ((hf.compare_text hk e.1).mp hc) hk
    exact hn.1 (heq ▸ List.mem_append_left ds he)
  · by_cases hek : e = (key, v)
    · rw [hek]
      exact ⟨fun hin => absurd hin hn.1, fun hin => absurd hin.1 hes⟩
    · have hi := h.mem (idx0 (hashFunc key)) e
      rw [hcd, hmid, hmid] at hi
      simpa only [hek, false_or] using hi

theorem Indexes.replace (h : Indexes hashFunc ht (as ++ (key, v) :: bs))
    (hf : Textual text hashFunc compareFunc) (hd : Distinct text (as ++ (key, v) :: bs))
    (hk : text key = some t) :
    Indexes hashFunc (hashTableInsert hashFunc compareFunc ht key value)
      (as ++ (key, value) :: bs) := by
  obtain ⟨cs, ds, hcd, hc, hn, hm⟩ := h.split hf hd hk
  have hkk : compareFunc key key = true := (hf.compare_text hk key).mpr hk
  have hr := @replaceValue_some κ ν compareFunc cs ds key value v hc hkk
  have hnew : (key, value) ∉ as ++ bs := by
    intro hin
    have hin' : (key, value) ∈ as ++ (key, v) :: bs := by
      simp only [List.mem_append, List.mem_cons] at hin ⊢
      tauto
    have heq := hd.text _ hin' (key, v) (by simp) t hk hk
    exact (List.nodup_cons.mp (List.nodup_middle.mp hd.nodup)).1 (heq ▸ hin)
  refine h.update (i := idx0 (hashFunc key)) (l := cs ++ (key, value) :: ds) ?_ ?_ (fun e => ?_)
    (fun e he => ?_)
  · rw [hashTableInsert, hcd, hr]
  · exact List.nodup_middle.mpr (List.nodup_cons.mpr ⟨fun hin => hnew ((hm _).mp hin).1, hn⟩)
  · have hme := hm e
    simp only [List.mem_append, List.mem_cons] at hme ⊢
    by_cases hek : e = (key, value)
    · simp [hek]
    · simpa only [hek, false_or] using hme
  · have h₁ : e ≠ (key, value) := fun hek => he (hek ▸ rfl)
    have h₂ : e ≠ (key, v) := fun hek => he (hek ▸ rfl)
    simp only [List.mem_append, List.mem_cons, h₁, h₂]

theorem Indexes.remove (h : Indexes hashFunc ht (as ++ (key, v) :: bs))
    (hf : Textual text hashFunc compareFunc) (hd : Distinct text (as ++ (key, v) :: bs))
    (hk : text key = some t) :
    Indexes hashFunc (hashTableRemove hashFunc compareFunc ht key) (as ++ bs) := by
  obtain ⟨cs, ds, hcd, hc, hn, hm⟩ := h.split hf hd hk
  have hkk : compareFunc key key = true := (hf.compare_text hk key).mpr hk
  refine h.update (i := idx0 (hashFunc key)) (l := cs ++ ds) ?_ hn hm (fun e he => ?_)
  · rw [hashTableRemove, hcd, List.eraseP_append_right _ (fun e he => by simp [hc e he]),
      List.eraseP_cons_of_pos (p := fun e : κ × ν => compareFunc e.1 key) hkk]
  · have h₂ : e ≠ (key, v) := fun hek => he (hek ▸ rfl)
    simp only [List.mem_append, List.mem_cons, h₂, false_or]

end Indexes

end UnBoxer.HashTables
