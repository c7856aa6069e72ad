import UnBoxer.JsonNumbers

namespace UnBoxer.JsonPrinter

open UnBoxer.JsonStrings UnBoxer.JsonParser UnBoxer.JsonNumbers

section Printer

variable (enc : Char → List Char)

def quote (s : List Char) : List Char := '"' :: (s.flatMap enc ++ ['"'])

mutual

/-- A value without any white space, where `enc` writes the characters of strings. -/
def print : Value → List Char
  | .null => "null".toList
  | .bool true => "true".toList
  | .bool false => "false".toList
  | .num t => t
  | .str s => quote enc s
  | .arr [] => "[]".toList
  | .arr (v :: vs) => '[' :: (print v ++ printElements vs)
  | .obj [] => ['{', '}']
  | .obj ((k, v) :: kvs) => '{' :: (quote enc k ++ ':' :: (print v ++ printMembers kvs))

def printElements : List Value → List Char
  | [] => [']']
  | v :: vs => ',' :: (print v ++ printElements vs)

def printMembers : List (List Char × Value) → List Char
  | [] => ['}']
  | (k, v) :: kvs => ',' :: (quote enc k ++ ':' :: (print v ++ printMembers kvs))

end

mutual

def Numerals : Value → Prop
  | .num t => Numeral t
  | .arr vs => NumeralsList vs
  | .obj kvs => NumeralsMembers kvs
  | _ => True

def NumeralsList : List Value → Prop
  | [] => True
  | v :: vs => Numerals v ∧ NumeralsList vs

def NumeralsMembers : List (List Char × Value) → Prop
  | [] => True
  | (_, v) :: kvs => Numerals v ∧ NumeralsMembers kvs

end

def Spells (c : Char) : Prop :=
  ∀ rest, string (enc c ++ rest) = (string rest).map fun (s, r) => (c :: s, r)

variable {enc}

theorem spells_keeps {c : Char} (h : Keeps enc c) : Spells enc c := by
  intro rest
  unfold string
  rw [h]
  cases scan rest with
  | none => rfl
  | some p =>
    simp only [push, Option.map_some, assemble, Option.map_map]
    rfl

theorem assemble_unit {c : Char} (hc : c.toNat < 0xD800) (xs : List Scanned) :
    assemble (.unit c.toNat :: xs) = (assemble xs).map (c :: ·) := by
  rw [assemble.eq_def]
  simp [hc]

theorem spells_unit {c h₃ h₂ h₁ h₀ : Char} {d₃ d₂ d₁ d₀ : Nat}
    (he : enc c = ['\\', 'u', h₃, h₂, h₁, h₀]) (h3 : hexDigit h₃ = some d₃)
    (h2 : hexDigit h₂ = some d₂) (h1 : hexDigit h₁ = some d₁) (h0 : hexDigit h₀ = some d₀)
    (hn : ((d₃ * 16 + d₂) * 16 + d₁) * 16 + d₀ = c.toNat) (hc : c.toNat < 0xD800) :
    Spells enc c := by
  intro rest
  have hs : scan (enc c ++ rest) = push (.unit c.toNat) (scan rest) := by
    rw [he]
    simp only [List.cons_append, List.nil_append]
    rw [scan.eq_def]
    simp [h3, h2, h1, h0, hn]
  unfold string
  rw [hs]
  cases scan rest with
  | none => rfl
  | some p =>
    simp only [push, Option.map_some, assemble_unit hc, Option.map_map]
    rfl

theorem string_spells (h : ∀ c, Spells enc c) (s rest : List Char) :
    string (s.flatMap enc ++ '"' :: rest) = some (s, rest) := by
  induction s with
  | nil => simp [string, scan_quote, assemble]
  | cons c s ih => rw [List.flatMap_cons, List.append_assoc, h, ih, Option.map_some]

def Opens (t : List Char) : Prop := ∃ c s, t = c :: s ∧ isSpace c = false ∧ c ≠ ']'

theorem Opens.append {t : List Char} (h : Opens t) (rest : List Char) : Opens (t ++ rest) := by
  obtain ⟨c, s, rfl, hc⟩ := h
  exact ⟨c, s ++ rest, rfl, hc⟩

theorem Opens.skip {t : List Char} (h : Opens t) : skip t = t := by
  obtain ⟨c, s, rfl, hc, _⟩ := h
  exact skip_cons hc s

theorem numeral_opens {t : List Char} (h : Numeral t) : Opens t := by
  obtain ⟨c, s, rfl, hc⟩ := h.head
  have hne : ∀ e : Char, e ≠ '-' → e.isDigit = false → c ≠ e := fun e => head_ne hc
  exact ⟨c, s, rfl, by simp [isSpace, hne ' ' (by decide) rfl, hne '\t' (by decide) rfl,
    hne '\n' (by decide) rfl, hne '\r' (by decide) rfl], hne ']' (by decide) rfl⟩

theorem print_opens (enc : Char → List Char) {v : Value} (h : Numerals v) : Opens (print enc v) := by
  match v, h with
  | .null, _ => exact ⟨'n', _, rfl, rfl, by decide⟩
  | .bool true, _ => exact ⟨'t', _, rfl, rfl, by decide⟩
  | .bool false, _ => exact ⟨'f', _, rfl, rfl, by decide⟩
  | .num t, h => rw [print]; rw [Numerals] at h; exact numeral_opens h
  | .str s, _ => rw [print]; exact ⟨'"', _, rfl, rfl, by decide⟩
  | .arr [], _ => exact ⟨'[', _, rfl, rfl, by decide⟩
  | .arr (v :: vs), _ => rw [print]; exact ⟨'[', _, rfl, rfl, by decide⟩
  | .obj [], _ => exact ⟨'{', _, rfl, rfl, by decide⟩
  | .obj ((k, v) :: kvs), _ => rw [print]; exact ⟨'{', _, rfl, rfl, by decide⟩

theorem printElements_opens (enc : Char → List Char) (vs : List Value) :
    ∃ c r, printElements enc vs = c :: r ∧ (c = ',' ∨ c = ']' ∨ c = '}') := by
  cases vs with
  | nil => exact ⟨']', [], by rw [printElements], .inr (.inl rfl)⟩
  | cons v vs => exact ⟨',', _, by rw [printElements], .inl rfl⟩

theorem printMembers_opens (enc : Char → List Char) (kvs : List (List Char × Value)) :
    ∃ c r, printMembers enc kvs = c :: r ∧ (c = ',' ∨ c = ']' ∨ c = '}') := by
  cases kvs with
  | nil => exact ⟨'}', [], by rw [printMembers], .inr (.inr rfl)⟩
  | cons kv kvs => exact ⟨',', _, by rw [printMembers], .inl rfl⟩

theorem value_numeral (n : Nat) {t rest : List Char} (ht : Numeral t) (hr : Stops rest) :
    value (n + 1) (t ++ rest) = some (.num t, rest) := by
  have hnum := ht.append hr
  obtain ⟨c, s, rfl, hc⟩ := ht.head
  have hne : ∀ e : Char, e ≠ '-' → e.isDigit = false → c ≠ e := fun e => head_ne hc
  rw [List.cons_append] at hnum ⊢
  simp [value, hnum, hne '"' (by decide) rfl, hne '{' (by decide) rfl, hne '[' (by decide) rfl,
    hne 't' (by decide) rfl, hne 'f' (by decide) rfl, hne 'n' (by decide) rfl]

variable (enc)

/-- With as much fuel as the text is long, the printed value is read again. -/
def Read (v : Value) : Prop :=
  ∀ n rest, (print enc v).length ≤ n → Stops rest → value n (print enc v ++ rest) = some (v, rest)

variable {enc}

theorem elements_one {v : Value} {t rest : List Char} {c : Char} {n : Nat}
    (hv : value n t = some (v, c :: rest)) (hc : c = ',' ∨ c = ']') :
    elements (n + 1) t =
      if c = ',' then (elements n (skip rest)).map fun (vs, s) => (v :: vs, s)
      else some ([v], rest) := by
  have hs : isSpace c = false := by rcases hc with rfl | rfl <;> rfl
  rw [elements, hv]
  simp only [skip_cons hs]
  obtain rfl | rfl := hc <;> rfl

section Reading

variable (h : ∀ c, Spells enc c)
include h

theorem value_quote (n : Nat) (s rest : List Char) :
    value (n + 1) (quote enc s ++ rest) = some (.str s, rest) := by
  simpa [quote] using value_string n (string_spells h s rest)

theorem members_one {k : List Char} {v : Value} {t rest : List Char} {c : Char} {n : Nat}
    (ht : skip t = t) (hv : value n t = some (v, c :: rest)) (hc : c = ',' ∨ c = '}') :
    members (n + 1) (quote enc k ++ ':' :: t) =
      if c = ',' then (members n (skip rest)).map fun (kvs, s) => ((k, v) :: kvs, s)
      else some ([(k, v)], rest) := by
  have hs : isSpace c = false := by rcases hc with rfl | rfl <;> rfl
  have hcolon : skip (':' :: t) = ':' :: t := skip_cons rfl t
  have hk := string_spells h k (':' :: t)
  simp only [quote, List.cons_append, List.append_assoc, List.nil_append]
  rw [members, if_pos rfl, hk]
  simp only [hcolon, if_true, ht, hv, skip_cons hs]
  obtain rfl | rfl := hc <;> rfl

end Reading

mutual

theorem read_print (h : ∀ c, Spells enc c) (v : Value) (hv : Numerals v) : Read enc v := by
  intro n rest hn hr
  match n with
  | 0 =>
    obtain ⟨c, s, hc, _⟩ := print_opens enc hv
    rw [hc] at hn
    cases hn
  | n + 1 =>
    match v, hv with
    | .null, _ => rfl
    | .bool true, _ => rfl
    | .bool false, _ => rfl
    | .num t, hv =>
      rw [Numerals] at hv
      rw [print]
      exact value_numeral n hv hr
    | .str s, _ =>
      rw [print]
      exact value_quote h n s rest
    | .arr [], _ => rfl
    | .obj [], _ => rfl
    | .arr (v :: vs), hv =>
      rw [Numerals, NumeralsList] at hv
      rw [print, List.length_cons, List.length_append] at hn
      have hel := elements_print h v vs hv.1 hv.2 n rest (by omega)
      obtain ⟨c, s, hc, hs, hb⟩ := (print_opens enc hv.1).append (printElements enc vs ++ rest)
      rw [print, List.cons_append, List.append_assoc]
      rw [hc] at hel ⊢
      simp [value, skip_cons hs, hb, hel]
    | .obj ((k, v) :: kvs), hv =>
      rw [Numerals, NumeralsMembers] at hv
      rw [print, List.length_cons, List.length_append, List.length_cons, List.length_append] at hn
      have hmem := members_print h k v kvs hv.1 hv.2 n rest (by omega)
      have hskip : ∀ s, skip ('"' :: s) = '"' :: s := fun s => skip_cons rfl s
      rw [print, List.cons_append, List.append_assoc, List.cons_append, List.append_assoc]
      simp only [quote, List.cons_append, List.append_assoc, List.nil_append] at hmem ⊢
      simp [value, hskip, hmem]

theorem elements_print (h : ∀ c, Spells enc c) (v : Value) (vs : List Value) (hv : Numerals v)
    (hvs : NumeralsList vs) (n : Nat) (rest : List Char)
    (hn : (print enc v).length + (printElements enc vs).length ≤ n) :
    elements n (print enc v ++ (printElements enc vs ++ rest)) = some (v :: vs, rest) := by
  obtain ⟨c, r, hc, hcr⟩ := printElements_opens enc vs
  match n with
  | 0 =>
    rw [hc, List.length_cons] at hn
    omega
  | n + 1 =>
    have hone := read_print h v hv n (printElements enc vs ++ rest)
      (by rw [hc, List.length_cons] at hn; omega) (by rw [hc]; exact stops_cons hcr _)
    match vs, hvs with
    | [], _ =>
      rw [printElements] at hone ⊢
      exact elements_one hone (.inr rfl)
    | w :: vs, hvs =>
      rw [NumeralsList] at hvs
      rw [printElements, List.length_cons, List.length_append] at hn
      have hrest := elements_print h w vs hvs.1 hvs.2 n rest (by omega)
      have hskip := ((print_opens enc hvs.1).append (printElements enc vs ++ rest)).skip
      rw [printElements, List.cons_append, List.append_assoc] at hone ⊢
      rw [elements_one hone (.inl rfl), if_pos rfl, hskip, hrest]
      rfl

theorem members_print (h : ∀ c, Spells enc c) (k : List Char) (v : Value)
    (kvs : List (List Char × Value)) (hv : Numerals v) (hkvs : NumeralsMembers kvs)
    (n : Nat) (rest : List Char) (hn : (print enc v).length + (printMembers enc kvs).length ≤ n) :
    members n (quote enc k ++ ':' :: (print enc v ++ (printMembers enc kvs ++ rest))) =
      some ((k, v) :: kvs, rest) := by
  obtain ⟨c, r, hc, hcr⟩ := printMembers_opens enc kvs
  match n with
  | 0 =>
    rw [hc, List.length_cons] at hn
    omega
  | n + 1 =>
    have hskip := ((print_opens enc hv).append (printMembers enc kvs ++ rest)).skip
    have hone := read_print h v hv n (printMembers enc kvs ++ rest)
      (by rw [hc, List.length_cons] at hn; omega) (by rw [hc]; exact stops_cons hcr _)
    match kvs, hkvs with
    | [], _ =>
      rw [printMembers] at hone hskip ⊢
      exact members_one h hskip hone (.inr rfl)
    | (l, w) :: kvs, hkvs =>
      rw [NumeralsMembers] at hkvs
      simp only [printMembers, List.length_cons, List.length_append] at hn
      have hrest := members_print h l w kvs hkvs.1 hkvs.2 n rest (by omega)
      have hq : ∀ s, skip (quote enc l ++ s) = quote enc l ++ s := fun s => skip_cons rfl _
      simp only [printMembers, List.cons_append, List.append_assoc] at hone hskip ⊢
      rw [members_one h hskip hone (.inl rfl), if_pos rfl, hq, hrest]
      rfl

end

/-- What is printed without white space is parsed again. -/
theorem parse_print (h : ∀ c, Spells enc c) {v : Value} (hv : Numerals v) :
    parse (print enc v) = some v := by
  have hskip := (print_opens enc hv).skip
  have hread := read_print h v hv ((print enc v).length + 1) [] (Nat.le_succ _) stops_nil
  rw [List.append_nil] at hread
  have hnil : skip [] = [] := rfl
  simp [parse, hskip, hread, hnil]

end Printer

section Escapes

/-- The short escapes, and a code unit for the other control characters. -/
def escape (c : Char) : List Char :=
  if c = '"' then ['\\', '"']
  else if c = '\\' then ['\\', '\\']
  else if c = Char.ofNat 8 then ['\\', 'b']
  else if c = '\t' then ['\\', 't']
  else if c = '\n' then ['\\', 'n']
  else if c = Char.ofNat 12 then ['\\', 'f']
  else if c = '\r' then ['\\', 'r']
  else if c.toNat < 32 then
    ['\\', 'u', '0', '0', Nat.digitChar (c.toNat / 16), Nat.digitChar (c.toNat % 16)]
  else [c]

theorem hexDigit_digitChar : ∀ n, n < 16 → hexDigit (Nat.digitChar n) = some n := by decide

theorem spells_control {enc : Char → List Char} {c : Char} (hc : c.toNat < 32)
    (he : enc c =
      ['\\', 'u', '0', '0', Nat.digitChar (c.toNat / 16), Nat.digitChar (c.toNat % 16)]) :
    Spells enc c := by
  have h0 : hexDigit '0' = some 0 := rfl
  exact spells_unit he h0 h0 (hexDigit_digitChar _ (by omega)) (hexDigit_digitChar _ (by omega))
    (by omega) (by omega)

theorem spells_escape (c : Char) : Spells escape c := by
  by_cases hq : c = '"'
  · subst hq; exact spells_keeps (keeps_escape rfl (by decide) rfl)
  by_cases hb : c = '\\'
  · subst hb; exact spells_keeps (keeps_escape rfl (by decide) rfl)
  by_cases h8 : c = Char.ofNat 8
  · subst h8; exact spells_keeps (keeps_escape rfl (by decide) rfl)
  by_cases ht : c = '\t'
  · subst ht; exact spells_keeps (keeps_escape rfl (by decide) rfl)
  by_cases hn : c = '\n'
  · subst hn; exact spells_keeps (keeps_escape rfl (by decide) rfl)
  by_cases hf : c = Char.ofNat 12
  · subst hf; exact spells_keeps (keeps_escape rfl (by decide) rfl)
  by_cases hr : c = '\r'
  · subst hr; exact spells_keeps (keeps_escape rfl (by decide) rfl)
  by_cases h32 : c.toNat < 32
  · exact spells_control h32 (by simp [escape, hq, hb, h8, ht, hn, hf, hr, h32])
  · exact spells_keeps (keeps_plain (by simp [escape, hq, hb, h8, ht, hn, hf, hr, h32])
      ⟨hq, hb, by omega⟩)

end Escapes

section Printed

variable {enc : Char → List Char}

theorem visible_quote (h : ∀ c, Visible (enc c)) (s : List Char) : Visible (quote enc s) := by
  refine visible_cons (by decide) (visible_append (fun c hc => ?_) (by decide))
  obtain ⟨d, _, hd⟩ := List.mem_flatMap.mp hc
  exact h d c hd

mutual

theorem visible_print (h : ∀ c, Visible (enc c)) (v : Value) (hv : Numerals v) :
    Visible (print enc v) := by
  match v, hv with
  | .null, _ => rw [print]; decide
  | .bool true, _ => rw [print]; decide
  | .bool false, _ => rw [print]; decide
  | .num t, hv =>
    rw [Numerals] at hv
    rw [print]
    exact hv.visible
  | .str s, _ =>
    rw [print]
    exact visible_quote h s
  | .arr [], _ => rw [print]; decide
  | .obj [], _ => rw [print]; decide
  | .arr (v :: vs), hv =>
    rw [Numerals, NumeralsList] at hv
    rw [print]
    exact visible_cons (by decide)
      (visible_append (visible_print h v hv.1) (visible_printElements h vs hv.2))
  | .obj ((k, v) :: kvs), hv =>
    rw [Numerals, NumeralsMembers] at hv
    rw [print]
    exact visible_cons (by decide) (visible_append (visible_quote h k) (visible_cons (by decide)
      (visible_append (visible_print h v hv.1) (visible_printMembers h kvs hv.2))))

theorem visible_printElements (h : ∀ c, Visible (enc c)) (vs : List Value)
    (hvs : NumeralsList vs) : Visible (printElements enc vs) := by
  match vs, hvs with
  | [], _ => rw [printElements]; decide
  | v :: vs, hvs =>
    rw [NumeralsList] at hvs
    rw [printElements]
    exact visible_cons (by decide)
      (visible_append (visible_print h v hvs.1) (visible_printElements h vs hvs.2))

theorem visible_printMembers (h : ∀ c, Visible (enc c)) (kvs : List (List Char × Value))
    (hkvs : NumeralsMembers kvs) : Visible (printMembers enc kvs) := by
  match kvs, hkvs with
  | [], _ => rw [printMembers]; decide
  | (k, v) :: kvs, hkvs =>
    rw [NumeralsMembers] at hkvs
    rw [printMembers]
    exact visible_cons (by decide) (visible_append (visible_quote h k) (visible_cons (by decide)
      (visible_append (visible_print h v hkvs.1) (visible_printMembers h kvs hkvs.2))))

end

theorem visible_escape (c : Char) : Visible (escape c) := by
  have hdigit : ∀ n, n < 16 → 32 ≤ (Nat.digitChar n).toNat := by decide
  unfold escape
  split
  · decide
  split
  · decide
  split
  · decide
  split
  · decide
  split
  · decide
  split
  · decide
  split
  · decide
  split
  · rename_i h32
    exact visible_cons (by decide) (visible_cons (by decide) (visible_cons (by decide)
      (visible_cons (by decide) (visible_cons (hdigit _ (by omega))
        (visible_cons (hdigit _ (by omega)) visible_nil)))))
  · rename_i h32
    exact visible_cons (by omega) visible_nil

end Printed

end UnBoxer.JsonPrinter
