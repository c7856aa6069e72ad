import UnBoxer.JsonObjects
import UnBoxer.JsonSizes

namespace UnBoxer.JsonArrays

open UnBoxer.JsonStrings UnBoxer.JsonParser UnBoxer.JsonObjects UnBoxer.JsonSizes

def joined (close : Char) (ts : List (List Char)) : List Char := [','].intercalate ts ++ [close]

theorem joined_one (close : Char) (t : List Char) : joined close [t] = t ++ [close] := by
  simp [joined, List.intercalate]

theorem joined_cons (close : Char) (t u : List Char) (ts : List (List Char)) :
    joined close (t :: u :: ts) = t ++ ',' :: joined close (u :: ts) := by
  simp [joined, List.intercalate]

theorem joined_length (close : Char) {ts : List (List Char)} (hne : ts ≠ []) :
    (joined close ts).length = (ts.map fun t => t.length + 1).sum := by
  induction ts with
  | nil => exact absurd rfl hne
  | cons t ts ih =>
    cases ts with
    | nil => simp [joined_one]
    | cons u ts =>
      have ih' := ih (by simp)
      rw [joined_cons, List.length_append, List.length_cons, ih']
      simp only [List.map_cons, List.sum_cons]
      omega

def literalText (enc : Char → List Char) (s : List Char) : List Char :=
  '"' :: (s.flatMap enc ++ ['"'])

def arrayText (enc : Char → List Char) (ss : List (List Char)) : List Char :=
  '[' :: joined ']' (ss.map (literalText enc))

section Reading

variable {enc : Char → List Char}

theorem value_literal {s : List Char} (h : ∀ c ∈ s, Keeps enc c) (n : Nat) (rest : List Char) :
    value (n + 1) (literalText enc s ++ rest) = some (.str s, rest) := by
  have hs := string_keeps h rest
  simpa [literalText] using value_string n hs

theorem skip_joined (close : Char) (s : List Char) (ss : List (List Char)) :
    skip (joined close ((s :: ss).map (literalText enc))) =
      joined close ((s :: ss).map (literalText enc)) := by
  cases ss with
  | nil => exact skip_cons rfl _
  | cons t ss => exact skip_cons rfl _

theorem elements_literals {ss : List (List Char)} (h : ∀ s ∈ ss, ∀ c ∈ s, Keeps enc c)
    (hne : ss ≠ []) (n : Nat) : elements (n + ss.length + 1)
      (joined ']' (ss.map (literalText enc))) = some (ss.map .str, []) := by
  induction ss with
  | nil => exact absurd rfl hne
  | cons s ss ih =>
    have hs : ∀ c ∈ s, Keeps enc c := h s List.mem_cons_self
    cases ss with
    | nil =>
      have hb : skip [']'] = [']'] := skip_cons rfl _
      rw [List.map_singleton, joined_one, elements, List.length_singleton, value_literal hs]
      simp [hb]
    | cons t ss =>
      have ih' := ih (fun s hm => h s (List.mem_cons_of_mem _ hm)) (by simp)
      have hc : ∀ r, skip (',' :: r) = ',' :: r := fun r => skip_cons rfl _
      rw [List.map_cons, List.map_cons, joined_cons, elements, List.length_cons, ← Nat.add_assoc,
        value_literal hs]
      simp only [hc, if_true]
      rw [← List.map_cons, skip_joined, ih']
      rfl

theorem length_joined {close : Char} {ts : List (List Char)} (hne : ts ≠ []) :
    ts.length ≤ (joined close ts).length := by
  rw [joined_length close hne]
  induction ts with
  | nil => exact absurd rfl hne
  | cons t ts ih =>
    simp only [List.map_cons, List.sum_cons, List.length_cons]
    by_cases hts : ts = []
    · simp [hts]
    · have ih' := ih hts
      omega

theorem value_arrayText {s : List Char} {ss : List (List Char)} (n : Nat) :
    value (n + 1) (arrayText enc (s :: ss)) =
      (elements n (joined ']' ((s :: ss).map (literalText enc)))).map
        fun (vs, r) => (.arr vs, r) := by
  have hbody := @skip_joined enc ']' s ss
  obtain ⟨r, hr⟩ : ∃ r, joined ']' ((s :: ss).map (literalText enc)) = '"' :: r := by
    cases ss with
    | nil => exact ⟨_, rfl⟩
    | cons t ss => exact ⟨_, rfl⟩
  unfold arrayText
  rw [hr] at hbody ⊢
  simp [value, hbody]

theorem parse_arrayText {ss : List (List Char)} (h : ∀ s ∈ ss, ∀ c ∈ s, Keeps enc c) :
    parse (arrayText enc ss) = some (.arr (ss.map .str)) := by
  cases ss with
  | nil => rfl
  | cons s ss =>
    have hskip : skip (arrayText enc (s :: ss)) = arrayText enc (s :: ss) := skip_cons rfl _
    have hne : (s :: ss).map (literalText enc) ≠ [] := by simp
    have hlen : (s :: ss).length + 1 ≤ (arrayText enc (s :: ss)).length := by
      have hj := @length_joined ']' _ hne
      rw [List.length_map] at hj
      exact Nat.succ_le_succ hj
    have helements := elements_literals h (by simp)
      ((arrayText enc (s :: ss)).length - ((s :: ss).length + 1))
    rw [Nat.add_assoc, Nat.sub_add_cancel hlen] at helements
    have he : skip [] = [] := rfl
    rw [parse, hskip, value_arrayText, helements]
    simp [he]

/-- When an array of strings is read as what it was written from, then every
character was written with no more characters than it needs. -/
theorem tight_array (henc : ∀ c, (enc c).length ≤ cost c) {ss : List (List Char)}
    (h : parse (arrayText enc ss) = some (.arr (ss.map .str))) :
    ∀ s ∈ ss, ∀ c ∈ s, cost c ≤ (enc c).length := by
  have hlen := array_length h
  by_cases hne : ss = []
  · simp [hne]
  have hj := @joined_length ']' (ss.map (literalText enc)) (by simpa using hne)
  rw [arrayText, List.length_cons, hj, leasts, List.map_map, List.map_map] at hlen
  intro s hs
  apply tight_costs henc
  have hle : ∀ t ∈ ss, (literalText enc t).length + 1 ≤ least (.str t) + 1 := by
    intro t _
    have ht := length_le_costs henc t
    simp only [literalText, least, List.length_cons, List.length_append, List.length_nil]
    omega
  have hs' := tight hle (Nat.le_of_succ_le_succ hlen) s hs
  simp only [literalText, least, List.length_cons, List.length_append, List.length_nil] at hs'
  omega

end Reading

end UnBoxer.JsonArrays
