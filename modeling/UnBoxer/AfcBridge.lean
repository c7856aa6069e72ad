import UnBoxer.JsonArrays
import UnBoxer.MergedKeys
import UnBoxer.RustIdevice

namespace UnBoxer.AfcBridge

open UnBoxer.JsonStrings UnBoxer.JsonParser UnBoxer.JsonObjects UnBoxer.JsonSizes
open UnBoxer.JsonArrays UnBoxer.PathText UnBoxer.EscapeJson UnBoxer.TryBackup
open UnBoxer.RustIdevice UnBoxer.MergedKeys

def entryText (e : Text) : Text := '"' :: (replace '"' ['\\', '"'] e ++ ['"'])

def directoryJson (entries : List Text) : Text :=
  '[' :: ([','].intercalate (entries.map entryText) ++ [']'])

/-- `rust_bridge_afc_read_directory`, with a null pointer when the call fails. -/
def afcReadDirectory (result : Option (List Text)) : Except Stop (Option Text) :=
  match result with
  | some entries => (toChar (directoryJson entries)).map some
  | none => .ok none

def pairText (kv : Text × Text) : Text := '"' :: (kv.1 ++ '"' :: ':' :: '"' :: (kv.2 ++ ['"']))

/-- The pairs come in the order in which the map is iterated. -/
def fileInfoJson (info : List (Text × Text)) : Text :=
  '{' :: ([','].intercalate (info.map pairText) ++ ['}'])

/-- `rust_bridge_afc_get_file_info` -/
def afcGetFileInfo (result : Option (List (Text × Text))) : Except Stop (Option Text) :=
  match result with
  | some info => (toChar (fileInfoJson info)).map some
  | none => .ok none

def asString : Value → Option Text
  | .str s => some s
  | _ => none

/-- `RustAfc.readDirectory` on the text that the bridge hands over. -/
def readDirectory (json : Option Text) : Option (List Text) :=
  match json.bind parse with
  | some (.arr vs) => vs.mapM asString
  | _ => none

/-- The dictionaries of Foundation and Swift: when two strings are the same key for
`JSONSerialization` and for a Swift dictionary, the dictionary made of the members of an object,
and the cast of one whose values are strings. -/
structure Dictionaries where
  named : Text → Text → Prop
  same : Text → Text → Prop
  object : List (Text × Value) → List (Text × Value)
  cast : List (Text × Text) → List (Text × Text)

/-- Each keeps one pair of those with the same key. Swift compares strings by canonical
equivalence, so that keys can be the same for it that `JSONSerialization` keeps apart. -/
structure Dictionaries.Documented (D : Dictionaries) : Prop where
  named_equivalence : Equivalence D.named
  same_equivalence : Equivalence D.same
  same_of_named : ∀ a b, D.named a b → D.same a b
  object : ∀ kvs, Merges D.named kvs (D.object kvs)
  cast : ∀ kvs, Merges D.same kvs (D.cast kvs)

def member (kv : Text × Value) : Option (Text × Text) := (asString kv.2).map fun s => (kv.1, s)

/-- `RustAfc.getFileInfo`: every value of the dictionary must be a string. -/
def getFileInfo (D : Dictionaries) (json : Option Text) : Option (List (Text × Text)) :=
  match json.bind parse with
  | some (.obj kvs) => ((D.object kvs).mapM member).map D.cast
  | _ => none

theorem asString_iff (v : Value) (s : Text) : asString v = some s ↔ v = .str s := by
  cases v with
  | str t => simp [asString]
  | _ => simp [asString]

theorem mapM_asString {vs : List Value} {ss : List Text} :
    vs.mapM asString = some ss ↔ vs = ss.map .str :=
  mapM_eq_some_iff asString_iff

theorem nul_joined {close : Char} (hclose : nul ≠ close) {ts : List Text}
    (h : ∀ t ∈ ts, nul ∉ t) : nul ∉ joined close ts := by
  induction ts with
  | nil => simpa [joined] using hclose
  | cons t ts ih =>
    have ht := h t List.mem_cons_self
    have hts := ih fun t hm => h t (List.mem_cons_of_mem _ hm)
    have hcomma : nul ≠ ',' := by decide
    cases ts with
    | nil =>
      rw [joined_one, List.mem_append, List.mem_singleton, not_or]
      exact ⟨ht, hclose⟩
    | cons u ts =>
      rw [joined_cons, List.mem_append, List.mem_cons, not_or, not_or]
      exact ⟨ht, hcomma, hts⟩

section Directory

def quoteChar (c : Char) : Text := if c = '"' then ['\\', '"'] else [c]

/-- What crosses in a listing: all but backslashes and control characters. -/
def Crosses (c : Char) : Prop := c ≠ '\\' ∧ 32 ≤ c.toNat

instance (c : Char) : Decidable (Crosses c) := inferInstanceAs (Decidable (_ ∧ _))

theorem directoryJson_eq (entries : List Text) :
    directoryJson entries = arrayText quoteChar entries := rfl

theorem keeps_quoteChar {c : Char} (h : Crosses c) : Keeps quoteChar c := by
  by_cases hq : c = '"'
  · subst hq
    exact keeps_escape rfl (by decide) rfl
  · exact keeps_plain (if_neg hq) ⟨hq, h⟩

theorem length_quoteChar (c : Char) : (quoteChar c).length ≤ cost c ∧
    (cost c ≤ (quoteChar c).length → Crosses c) := by
  by_cases hq : c = '"'
  · subst hq
    exact ⟨Nat.le_refl 2, fun _ => by decide⟩
  · have hlen : (quoteChar c).length = 1 := by simp [quoteChar, hq]
    rw [hlen]
    unfold cost
    by_cases hp : Plain c
    · rw [if_pos hp]
      exact ⟨Nat.le_refl 1, fun _ => hp.2⟩
    · rw [if_neg hp]
      exact ⟨Nat.le_succ 1, fun h => by omega⟩

theorem nul_directoryJson {entries : List Text} (h : ∀ e ∈ entries, nul ∉ e) :
    nul ∉ directoryJson entries := by
  have hopen : nul ≠ '[' := by decide
  have hclose : nul ≠ ']' := by decide
  have hquote : nul ≠ '"' := by decide
  have hentries : ∀ t ∈ entries.map entryText, nul ∉ t := by
    intro t ht
    obtain ⟨e, he, rfl⟩ := List.mem_map.mp ht
    have hback : nul ∉ ['\\', '"'] := by decide
    have hreplace : nul ∉ replace '"' ['\\', '"'] e := by
      unfold replace
      intro hm
      obtain ⟨c, hc, hn⟩ := List.mem_flatMap.mp hm
      split at hn
      · exact hback hn
      · obtain rfl := List.mem_singleton.mp hn
        exact h e he hc
    rw [entryText, List.mem_cons, List.mem_append, List.mem_singleton, not_or, not_or]
    exact ⟨hquote, hreplace, hquote⟩
  rw [directoryJson, List.mem_cons, not_or]
  exact ⟨hopen, nul_joined hclose hentries⟩

/-- A listing arrives as it was exactly when no name has a backslash or a control
character in it. -/
theorem directory_crosses_iff (names : List Text) (h : ∀ n ∈ names, nul ∉ n) :
    (afcReadDirectory (some names)).map readDirectory = .ok (some names) ↔
      ∀ n ∈ names, ∀ c ∈ n, Crosses c := by
  have hsend : (afcReadDirectory (some names)).map readDirectory =
      .ok (readDirectory (some (directoryJson names))) := by
    simp only [afcReadDirectory, toChar_ok (nul_directoryJson h)]
    rfl
  have hread : readDirectory (some (directoryJson names)) = some names ↔
      parse (directoryJson names) = some (.arr (names.map .str)) := by
    unfold readDirectory
    rw [Option.bind_some]
    constructor
    · intro hr
      split at hr
      · rename_i vs hp
        rw [hp, mapM_asString.mp hr]
      · cases hr
    · intro hp
      rw [hp]
      exact mapM_asString.mpr rfl
  rw [hsend, Except.ok.injEq, hread, directoryJson_eq]
  constructor
  · intro hp n hn c hc
    exact (length_quoteChar c).2 (tight_array (fun c => (length_quoteChar c).1) hp n hn c hc)
  · intro hs
    exact parse_arrayText fun n hn c hc => keeps_quoteChar (hs n hn c hc)

theorem directory_crosses_quoted :
    (afcReadDirectory (some [['a', '"'], []])).map readDirectory = .ok (some [['a', '"'], []]) :=
  (directory_crosses_iff [['a', '"'], []] (by decide)).mpr (by decide)

/-- A name that ends in a backslash takes the rest of the listing with it. -/
theorem backslash_garbles : ∃ names : List Text, (∀ n ∈ names, nul ∉ n) ∧
    (afcReadDirectory (some names)).map readDirectory = .ok none := by
  refine ⟨[['a', '\\'], ['b']], by decide, rfl⟩

end Directory

section Info

def infoMembers (info : List (Text × Text)) : List (Text × Text) :=
  info.map fun kv => (kv.1, '"' :: (kv.2 ++ ['"']))

def infoValues (info : List (Text × Text)) : List (Text × Value) :=
  info.map fun kv => (kv.1, .str kv.2)

theorem fileInfoJson_eq (info : List (Text × Text)) :
    fileInfoJson info = objectText (infoMembers info) := by
  have hmembers : ∀ kvs, joined '}' (kvs.map pairText) = membersText (infoMembers kvs) := by
    intro kvs
    induction kvs with
    | nil => rfl
    | cons kv kvs ih =>
      cases kvs with
      | nil => simp [joined_one, pairText, infoMembers, membersText]
      | cons kv' kvs =>
        rw [List.map_cons, List.map_cons, joined_cons, ← List.map_cons, ih]
        simp [pairText, infoMembers, membersText]
  exact congrArg ('{' :: ·) (hmembers info)

theorem nul_fileInfoJson {info : List (Text × Text)} (h : ∀ kv ∈ info, nul ∉ kv.1 ∧ nul ∉ kv.2) :
    nul ∉ fileInfoJson info := by
  have hopen : nul ≠ '{' := by decide
  have hclose : nul ≠ '}' := by decide
  have hquote : nul ≠ '"' := by decide
  have hcolon : nul ≠ ':' := by decide
  have hpairs : ∀ t ∈ info.map pairText, nul ∉ t := by
    intro t ht
    obtain ⟨kv, hkv, rfl⟩ := List.mem_map.mp ht
    obtain ⟨hk, hv⟩ := h kv hkv
    simp only [pairText, List.mem_cons, List.mem_append, not_or]
    exact ⟨hquote, hk, hquote, hcolon, hquote, hv, hquote, List.not_mem_nil⟩
  rw [fileInfoJson, List.mem_cons, not_or]
  exact ⟨hopen, nul_joined hclose hpairs⟩

theorem parse_fileInfo {info : List (Text × Text)}
    (h : ∀ kv ∈ info, (∀ c ∈ kv.1, Plain c) ∧ ∀ c ∈ kv.2, Plain c) :
    parse (fileInfoJson info) = some (.obj (infoValues info)) := by
  rw [fileInfoJson_eq]
  by_cases hne : info = []
  · subst hne
    rfl
  apply parse_objectText
  · intro kt hkt
    obtain ⟨kv, hkv, rfl⟩ := List.mem_map.mp hkt
    exact (h kv hkv).1
  · refine List.forall₂_map_left_iff.mpr (List.forall₂_map_right_iff.mpr ?_)
    refine List.forall₂_same.mpr fun kv hkv => ⟨rfl, ?_⟩
    exact reads_string (string_plain (h kv hkv).2)
  · simpa [infoMembers] using hne

theorem pairText_length (kv : Text × Text) :
    (pairText kv).length = kv.1.length + kv.2.length + 5 := by
  simp only [pairText, List.length_cons, List.length_append, List.length_nil]
  omega

theorem fileInfoJson_length {info : List (Text × Text)} (hne : info ≠ []) :
    (fileInfoJson info).length = (info.map fun kv => (pairText kv).length + 1).sum + 1 := by
  have hj := @joined_length '}' (info.map pairText) (by simpa using hne)
  rw [List.map_map] at hj
  exact congrArg (· + 1) hj

theorem member_iff (kv : Text × Value) (kt : Text × Text) :
    member kv = some kt ↔ kv = (kt.1, .str kt.2) := by
  rw [member, Option.map_eq_some_iff]
  constructor
  · rintro ⟨s, hs, rfl⟩
    rw [← (asString_iff _ _).mp hs]
  · rintro rfl
    exact ⟨kt.2, rfl, rfl⟩

theorem mapM_member {kvs : List (Text × Value)} {info : List (Text × Text)} :
    kvs.mapM member = some info ↔ kvs = infoValues info :=
  mapM_eq_some_iff member_iff

theorem leastMembers_perm {kvs l : List (Text × Value)} (h : kvs.Perm l) :
    leastMembers kvs = leastMembers l := (h.map _).sum_eq

theorem leastMembers_cons (k : Text) (v : Value) (kvs : List (Text × Value)) :
    leastMembers ((k, v) :: kvs) = costs k + 3 + least v + 1 + leastMembers kvs := rfl

theorem le_leastMembers {kvs : List (Text × Value)} {k k' : Text} {v v' : Value}
    (hk : (k, v) ∈ kvs) (hv : (k', v') ∈ kvs) : costs k + 3 + least v' + 1 ≤ leastMembers kvs := by
  obtain ⟨l, r, rfl⟩ := List.append_of_mem hv
  have hperm : leastMembers (l ++ (k', v') :: r) = leastMembers ((k', v') :: (l ++ r)) :=
    leastMembers_perm List.perm_middle
  rw [hperm, leastMembers_cons]
  obtain he | hm := List.mem_cons.mp (List.perm_middle.mem_iff.mp hk)
  · cases he
    omega
  · obtain ⟨l', r', hlr⟩ := List.append_of_mem hm
    have hperm' : leastMembers (l' ++ (k, v) :: r') = leastMembers ((k, v) :: (l' ++ r')) :=
      leastMembers_perm List.perm_middle
    rw [hlr, hperm', leastMembers_cons]
    omega

theorem sum_le_leastMembers {same : Text → Text → Prop} (hs : Equivalence same)
    {info : List (Text × Text)} (hkeys : info.Pairwise fun a b => ¬ same a.1 b.1)
    {kvs : List (Text × Value)} (hsub : ∀ kv ∈ info, (∃ v, (kv.1, v) ∈ kvs) ∧
      ∃ k, same k kv.1 ∧ (k, .str kv.2) ∈ kvs) :
    (info.map fun kv => costs kv.1 + 3 + least (.str kv.2) + 1).sum ≤ leastMembers kvs := by
  classical
  induction info generalizing kvs with
  | nil => exact Nat.zero_le _
  | cons kv info ih =>
    rw [List.pairwise_cons] at hkeys
    let mine := kvs.filter fun e => decide (same e.1 kv.1)
    let others := kvs.filter fun e => !decide (same e.1 kv.1)
    have hsplit : leastMembers kvs = leastMembers mine + leastMembers others := by
      rw [← leastMembers_perm (List.filter_append_perm (fun e => decide (same e.1 kv.1)) kvs)]
      simp only [leastMembers, List.map_append, List.sum_append, mine, others]
    have hmine : costs kv.1 + 3 + least (.str kv.2) + 1 ≤ leastMembers mine := by
      obtain ⟨⟨v, hv⟩, k, hk, hm⟩ := hsub kv List.mem_cons_self
      exact le_leastMembers (List.mem_filter.mpr ⟨hv, by simpa using hs.refl kv.1⟩)
        (List.mem_filter.mpr ⟨hm, by simpa using hk⟩)
    have hothers := @ih hkeys.2 others fun kv' hkv' => by
      obtain ⟨⟨v, hv⟩, k, hk, hm⟩ := hsub kv' (List.mem_cons_of_mem _ hkv')
      have hne : ¬ same kv'.1 kv.1 := fun h => hkeys.1 kv' hkv' (hs.symm h)
      have hne' : ¬ same k kv.1 := fun h => hne (hs.trans (hs.symm hk) h)
      exact ⟨⟨v, List.mem_filter.mpr ⟨hv, by simpa using hne⟩⟩, k, hk,
        List.mem_filter.mpr ⟨hm, by simpa using hne'⟩⟩
    rw [List.map_cons, List.sum_cons, hsplit]
    omega

theorem plain_of_members {same : Text → Text → Prop} (hs : Equivalence same)
    {info : List (Text × Text)} (hkeys : info.Pairwise fun a b => ¬ same a.1 b.1)
    {kvs : List (Text × Value)} (hp : parse (fileInfoJson info) = some (.obj kvs))
    (hsub : ∀ kv ∈ info, (∃ v, (kv.1, v) ∈ kvs) ∧ ∃ k, same k kv.1 ∧ (k, .str kv.2) ∈ kvs) :
    ∀ kv ∈ info, (∀ c ∈ kv.1, Plain c) ∧ ∀ c ∈ kv.2, Plain c := by
  by_cases hne : info = []
  · simp [hne]
  have hlen := object_length hp
  have hsum := sum_le_leastMembers hs hkeys hsub
  rw [fileInfoJson_length hne] at hlen
  have hle : ∀ kv ∈ info, (pairText kv).length + 1 ≤ costs kv.1 + 3 + least (.str kv.2) + 1 := by
    intro kv _
    have hk := length_le kv.1
    have hv := length_le kv.2
    rw [pairText_length, least]
    omega
  intro kv hkv
  have htight := tight hle (by omega) kv hkv
  have hk := length_le kv.1
  have hv := length_le kv.2
  rw [pairText_length, least] at htight
  exact ⟨plain_of_costs (by omega), plain_of_costs (by omega)⟩

variable {D : Dictionaries} (hD : D.Documented)

include hD

/-- What is handed over comes from the members of the object, one pair a key. -/
theorem getFileInfo_merges {json : Text} {m : List (Text × Text)}
    (h : getFileInfo D (some json) = some m) :
    ∃ kvs, parse json = some (.obj kvs) ∧ Merges D.same kvs (infoValues m) := by
  unfold getFileInfo at h
  rw [Option.bind_some] at h
  split at h
  · rename_i kvs hp
    obtain ⟨info, hinfo, rfl⟩ := Option.map_eq_some_iff.mp h
    have hobj := hD.object kvs
    rw [mapM_member.mp hinfo] at hobj
    exact ⟨kvs, hp, hobj.trans ((hD.cast info).map Value.str) hD.same_of_named hD.same_equivalence⟩
  · cases h

theorem getFileInfo_perm {json : Text} {info : List (Text × Text)}
    (hkeys : info.Pairwise fun a b => ¬ D.same a.1 b.1)
    (hp : parse json = some (.obj (infoValues info))) :
    ∃ m, getFileInfo D (some json) = some m ∧ m.Perm info := by
  have hobj := (hD.object (infoValues info)).perm hD.named_equivalence hD.same_of_named
    hD.same_equivalence (List.pairwise_map.mpr hkeys)
  obtain ⟨info', hinfo', hperm⟩ : ∃ info', D.object (infoValues info) = infoValues info' ∧
      info'.Perm info :=
    (iff_of_eq (congrFun (congrFun (List.eq_map_comp_perm _) _) _)).mpr hobj
  have hkeys' := (hperm.pairwise_iff fun hn hm => hn (hD.same_equivalence.symm hm)).mpr hkeys
  refine ⟨D.cast info', ?_, ((hD.cast info').perm hD.same_equivalence (fun _ _ h => h)
    hD.same_equivalence hkeys').trans hperm⟩
  unfold getFileInfo
  rw [Option.bind_some, hp]
  dsimp only
  rw [mapM_member.mpr hinfo']
  rfl

/-- The attributes of a file arrive as they were exactly when Swift tells their keys apart, and
no key and no value has a quote, a backslash or a control character in it. -/
theorem info_crosses_iff (info : List (Text × Text)) (h : ∀ kv ∈ info, nul ∉ kv.1 ∧ nul ∉ kv.2) :
    (∃ m, (afcGetFileInfo (some info)).map (getFileInfo D) = .ok (some m) ∧ m.Perm info) ↔
      (info.Pairwise fun a b => ¬ D.same a.1 b.1) ∧
        ∀ kv ∈ info, (∀ c ∈ kv.1, Plain c) ∧ ∀ c ∈ kv.2, Plain c := by
  have hsend : (afcGetFileInfo (some info)).map (getFileInfo D) =
      .ok (getFileInfo D (some (fileInfoJson info))) := by
    simp only [afcGetFileInfo, toChar_ok (nul_fileInfoJson h)]
    rfl
  rw [hsend]
  simp only [Except.ok.injEq]
  constructor
  · rintro ⟨m, hm, hperm⟩
    obtain ⟨kvs, hp, hmerges⟩ := getFileInfo_merges hD hm
    have hdistinct : m.Pairwise fun a b => ¬ D.same a.1 b.1 := List.pairwise_map.mp hmerges.distinct
    have hpair := (hperm.pairwise_iff fun hn hs => hn (hD.same_equivalence.symm hs)).mp hdistinct
    refine ⟨hpair, plain_of_members hD.same_equivalence hpair hp fun kv hkv => ?_⟩
    have hmem : (kv.1, Value.str kv.2) ∈ infoValues m :=
      List.mem_map.mpr ⟨kv, hperm.mem_iff.mpr hkv, rfl⟩
    exact ⟨hmerges.key _ hmem, hmerges.value _ hmem⟩
  · rintro ⟨hpair, hplain⟩
    exact getFileInfo_perm hD hpair (parse_fileInfo hplain)

end Info

section Example

/-- Canonical equivalence, as far as it makes one letter with its accent the same as two. -/
def decomposed (s : Text) : Text := s.flatMap fun c => if c = 'é' then ['e', '\u0301'] else [c]

def sameKey (a b : Text) : Bool := decide (decomposed a = decomposed b)

def sameName (a b : Text) : Bool := decide (a = b)

def firstMember : Dictionaries where
  named a b := sameName a b = true
  same a b := sameKey a b = true
  object := firsts sameName
  cast := firsts sameKey

theorem firstMember_documented : firstMember.Documented := by
  have hname : Equivalence fun a b => sameName a b = true := by
    constructor <;> simp [sameName]
  have hkey : Equivalence fun a b => sameKey a b = true := by
    constructor
    · simp [sameKey]
    · simp [sameKey, eq_comm]
    · intro a b c hab hbc
      simp only [sameKey, decide_eq_true_eq] at hab hbc ⊢
      exact hab.trans hbc
  refine ⟨hname, hkey, fun a b h => ?_, firsts_merges hname, firsts_merges hkey⟩
  obtain rfl : a = b := by simpa [firstMember, sameName] using h
  exact hkey.refl a

def plainInfo : List (Text × Text) :=
  [("st_ifmt".toList, "S_IFLNK".toList), ("LinkTarget".toList, ['é'])]

theorem info_crosses_plain :
    ∃ m, (afcGetFileInfo (some plainInfo)).map (getFileInfo firstMember) = .ok (some m) ∧
      m.Perm plainInfo :=
  (info_crosses_iff firstMember_documented plainInfo (by decide)).mpr
    ⟨by simp [plainInfo, firstMember, sameKey, decomposed], by decide⟩

def forging : List (Text × Text) := [(['a'], ['b', '"', ',', '"', 'c', '"', ':', '"', 'd'])]

def forged : List (Text × Value) := [(['a'], .str ['b']), (['c'], .str ['d'])]

theorem parse_forging : parse (fileInfoJson forging) = some (.obj forged) :=
  @parse_objectText [(['a'], ['"', 'b', '"']), (['c'], ['"', 'd', '"'])] _ (by decide)
    (.cons ⟨rfl, @reads_string ['b'] _ (string_plain (by decide))⟩
      (.cons ⟨rfl, @reads_string ['d'] _ (string_plain (by decide))⟩ .nil)) (by decide)

/-- A link target with quotes in it adds a pair of its own. -/
theorem quotes_forge : ∃ info : List (Text × Text), (info.map Prod.fst).Nodup ∧
    (∀ kv ∈ info, nul ∉ kv.1 ∧ nul ∉ kv.2) ∧
    (info.Pairwise fun a b => ¬ firstMember.same a.1 b.1) ∧
    ∃ m, (afcGetFileInfo (some info)).map (getFileInfo firstMember) = .ok (some m) ∧
      ¬ m.Perm info := by
  have hnul : ∀ kv ∈ forging, nul ∉ kv.1 ∧ nul ∉ kv.2 := by decide
  refine ⟨forging, by decide, hnul, List.pairwise_singleton _ _,
    [(['a'], ['b']), (['c'], ['d'])], ?_, fun hp => absurd hp.length_eq (by decide)⟩
  simp only [afcGetFileInfo, toChar_ok (nul_fileInfoJson hnul), Except.map, getFileInfo,
    Option.bind_some, parse_forging]
  rfl

end Example

end UnBoxer.AfcBridge
