import UnBoxer.JsonObjects
import UnBoxer.PathText

namespace UnBoxer.EscapeJson

open UnBoxer.JsonStrings UnBoxer.JsonParser UnBoxer.JsonObjects UnBoxer.PathText

/-- Rust's `str::replace` of a single character. -/
def replace (c : Char) (new s : Text) : Text := s.flatMap fun x => if x = c then new else [x]

def escapeJson (s : Text) : Text :=
  replace '\t' "\\t".toList (replace '\r' "\\r".toList (replace '\n' "\\n".toList
    (replace '"' "\\\"".toList (replace '\\' "\\\\".toList s))))

def escapeChar (c : Char) : Text :=
  if c = '\\' then ['\\', '\\']
  else if c = '"' then ['\\', '"']
  else if c = '\n' then ['\\', 'n']
  else if c = '\r' then ['\\', 'r']
  else if c = '\t' then ['\\', 't']
  else [c]

theorem escapeJson_single (c : Char) : escapeJson [c] = escapeChar c := by
  unfold escapeChar
  split
  · rename_i h; subst h; rfl
  split
  · rename_i h; subst h; rfl
  split
  · rename_i h; subst h; rfl
  split
  · rename_i h; subst h; rfl
  split
  · rename_i h; subst h; rfl
  simp [escapeJson, replace, *]

/-- No replacement touches what an earlier one has put in, so the order of the
five does not show. -/
theorem escapeJson_eq (s : Text) : escapeJson s = s.flatMap escapeChar := by
  induction s with
  | nil => rfl
  | cons c s ih =>
    have hcons : escapeJson (c :: s) = escapeJson [c] ++ escapeJson s := by
      simp [escapeJson, replace]
    rw [hcons, ih, escapeJson_single, List.flatMap_cons]

/-- The characters that get through: all but the control characters that
`escape_json` does not know. -/
def CleanChar (c : Char) : Prop := 32 ≤ c.toNat ∨ c = '\n' ∨ c = '\r' ∨ c = '\t'

instance (c : Char) : Decidable (CleanChar c) := inferInstanceAs (Decidable (_ ∨ _ ∨ _ ∨ _))

def Clean (s : Text) : Prop := ∀ c ∈ s, CleanChar c

instance (s : Text) : Decidable (Clean s) := inferInstanceAs (Decidable (∀ c ∈ s, CleanChar c))

theorem keeps_clean {c : Char} (hc : CleanChar c) : Keeps escapeChar c := by
  by_cases hb : c = '\\'
  · subst hb; exact keeps_escape rfl (by decide) rfl
  by_cases hq : c = '"'
  · subst hq; exact keeps_escape rfl (by decide) rfl
  by_cases hn : c = '\n'
  · subst hn; exact keeps_escape rfl (by decide) rfl
  by_cases hr : c = '\r'
  · subst hr; exact keeps_escape rfl (by decide) rfl
  by_cases ht : c = '\t'
  · subst ht; exact keeps_escape rfl (by decide) rfl
  have hge : 32 ≤ c.toNat := by simpa [CleanChar, hn, hr, ht] using hc
  exact keeps_plain (by simp [escapeChar, hb, hq, hn, hr, ht]) ⟨hq, hb, hge⟩

theorem breaks_not_clean {c : Char} (hc : ¬ CleanChar c) : Breaks escapeChar c := by
  simp only [CleanChar, not_or, Nat.not_le] at hc
  obtain ⟨hlt, hn, hr, ht⟩ := hc
  have hb : c ≠ '\\' := by rintro rfl; revert hlt; decide
  have hq : c ≠ '"' := by rintro rfl; revert hlt; decide
  exact breaks_control (by simp [escapeChar, hb, hq, hn, hr, ht]) hlt

theorem string_clean {s : Text} (hs : Clean s) (rest : Text) :
    string (escapeJson s ++ '"' :: rest) = some (s, rest) := by
  rw [escapeJson_eq]
  exact string_keeps (fun c hc => keeps_clean (hs c hc)) rest

theorem string_not_clean {s : Text} (hs : ¬ Clean s) (rest : Text) :
    string (escapeJson s ++ rest) = none := by
  rw [escapeJson_eq]
  obtain ⟨c, hc, hbad⟩ : ∃ c ∈ s, ¬ CleanChar c := by simpa [Clean] using hs
  refine string_breaks (fun d _ => ?_) hc (breaks_not_clean hbad) rest
  by_cases hd : CleanChar d
  · exact .inl (keeps_clean hd)
  · exact .inr (breaks_not_clean hd)

def quoted (s : Text) : Text := '"' :: (escapeJson s ++ ['"'])

theorem reads_quoted {s : Text} (hs : Clean s) : Reads (quoted s) (.str s) :=
  reads_string (string_clean hs)

theorem fails_quoted {s : Text} (hs : ¬ Clean s) : Fails (quoted s) :=
  fails_string (string_not_clean hs)

/-- The string literal gives the text back exactly when it has no other control
character than newline, return and tab. -/
theorem parse_quoted (s : Text) :
    parse (quoted s) = if Clean s then some (.str s) else none := by
  have hskip : skip (quoted s) = quoted s := skip_cons rfl _
  by_cases hs : Clean s
  · have hv : value ((quoted s).length + 1) (quoted s) = some (.str s, []) :=
      value_string _ (string_clean hs [])
    have he : skip [] = [] := rfl
    simp [parse, hskip, hv, he, hs]
  · have hv : value ((quoted s).length + 1) (quoted s) = none :=
      value_string_none _ (string_not_clean hs _)
    simp [parse, hskip, hv, hs]

def errorResponse (e : Text) : Text :=
  "\x7b\"status\":\"error\",\"error\":\"".toList ++ escapeJson e ++ "\"\x7d".toList

def errorMembers (e : Text) : List (Text × Text) :=
  [("status".toList, "\"error\"".toList), ("error".toList, quoted e)]

theorem errorResponse_eq (e : Text) : errorResponse e = objectText (errorMembers e) := by
  unfold errorResponse errorMembers
  simp only [String.reduceToList]
  simp only [objectText, membersText, quoted, List.append_assoc, List.cons_append, List.nil_append]

theorem errorMembers_plain (e : Text) : ∀ kt ∈ errorMembers e, ∀ c ∈ kt.1, Plain c := by
  simp only [errorMembers, List.forall_mem_cons]
  exact ⟨by decide, by decide, by simp⟩

theorem reads_error : Reads "\"error\"".toList (.str "error".toList) :=
  reads_string (t := "error".toList) (string_plain (by decide))

theorem parse_errorResponse {e : Text} (he : Clean e) : parse (errorResponse e) =
    some (.obj [("status".toList, .str "error".toList), ("error".toList, .str e)]) := by
  rw [errorResponse_eq]
  exact parse_objectText (errorMembers_plain e)
    (.cons ⟨rfl, reads_error⟩ (.cons ⟨rfl, reads_quoted he⟩ .nil)) (by simp [errorMembers])

theorem parse_errorResponse_none {e : Text} (he : ¬ Clean e) : parse (errorResponse e) = none := by
  rw [errorResponse_eq]
  refine parse_objectText_none (errorMembers_plain e) ?_
    ⟨("error".toList, quoted e), by simp [errorMembers], fails_quoted he⟩
  simp only [errorMembers, List.forall_mem_cons]
  exact ⟨.inr ⟨_, reads_error⟩, .inl (fails_quoted he), by simp⟩

/-- The answer of a backup, where `total` is printed as an `i64`. -/
def successResponse (zipPath : Text) (total : Int64) (backupType : Text) : Text :=
  "\x7b\"status\":\"success\",\"zip_path\":\"".toList ++ escapeJson zipPath ++
    "\",\"total_bytes\":".toList ++ decimalInt total.toInt ++ ",\"backup_type\":\"".toList ++
    backupType ++ "\"\x7d".toList

def successMembers (zipPath : Text) (total : Int64) (backupType : Text) : List (Text × Text) :=
  [("status".toList, "\"success\"".toList), ("zip_path".toList, quoted zipPath),
    ("total_bytes".toList, decimalInt total.toInt),
    ("backup_type".toList, '"' :: (backupType ++ ['"']))]

theorem successResponse_eq (zipPath : Text) (total : Int64) (backupType : Text) :
    successResponse zipPath total backupType =
      objectText (successMembers zipPath total backupType) := by
  unfold successResponse successMembers
  simp only [String.reduceToList]
  simp only [objectText, membersText, quoted, List.append_assoc, List.cons_append, List.nil_append]

section Success

variable {zipPath backupType : Text} (total : Int64)

theorem successMembers_plain : ∀ kt ∈ successMembers zipPath total backupType, ∀ c ∈ kt.1,
    Plain c := by
  simp only [successMembers, List.forall_mem_cons]
  exact ⟨by decide, by decide, by decide, by decide, by simp⟩

theorem reads_success : Reads "\"success\"".toList (.str "success".toList) :=
  reads_string (t := "success".toList) (string_plain (by decide))

theorem parse_successResponse (hz : Clean zipPath) (hb : ∀ c ∈ backupType, Plain c) :
    parse (successResponse zipPath total backupType) =
      some (.obj [("status".toList, .str "success".toList), ("zip_path".toList, .str zipPath),
        ("total_bytes".toList, .num (decimalInt total.toInt)),
        ("backup_type".toList, .str backupType)]) := by
  rw [successResponse_eq]
  exact parse_objectText (successMembers_plain total)
    (.cons ⟨rfl, reads_success⟩ (.cons ⟨rfl, reads_quoted hz⟩
      (.cons ⟨rfl, reads_decimalInt _⟩ (.cons ⟨rfl, reads_string (string_plain hb)⟩ .nil))))
    (by simp [successMembers])

theorem parse_successResponse_none (hz : ¬ Clean zipPath) (hb : ∀ c ∈ backupType, Plain c) :
    parse (successResponse zipPath total backupType) = none := by
  rw [successResponse_eq]
  refine parse_objectText_none (successMembers_plain total) ?_
    ⟨("zip_path".toList, quoted zipPath), by simp [successMembers], fails_quoted hz⟩
  simp only [successMembers, List.forall_mem_cons]
  exact ⟨.inr ⟨_, reads_success⟩, .inl (fails_quoted hz), .inr ⟨_, reads_decimalInt _⟩,
    .inr ⟨_, reads_string (string_plain hb)⟩, by simp⟩

end Success

def extractResponse : Text := "\x7b\"status\":\"success\"\x7d".toList

theorem parse_extractResponse :
    parse extractResponse = some (.obj [("status".toList, .str "success".toList)]) := by
  have heq : extractResponse = objectText [("status".toList, "\"success\"".toList)] := by
    unfold extractResponse
    simp only [String.reduceToList]
    rfl
  rw [heq]
  exact parse_objectText (by decide) (.cons ⟨rfl, reads_success⟩ .nil) (by simp)

end UnBoxer.EscapeJson
