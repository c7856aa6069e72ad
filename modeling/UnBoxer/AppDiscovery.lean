import UnBoxer.JsonPrinter
import UnBoxer.RustIdevice
import UnBoxer.ViewModel
import UnBoxer.EngineRuns

namespace UnBoxer.AppDiscovery

open UnBoxer.JsonStrings UnBoxer.JsonParser UnBoxer.JsonNumbers UnBoxer.JsonPrinter UnBoxer.PathText
open UnBoxer.TryBackup UnBoxer.RustIdevice UnBoxer.ViewModel UnBoxer.EngineRuns

/-- A value of a property list. Of a real number there is what it is printed as, if
it is finite. -/
inductive PlistValue where
  | string (s : Text)
  | boolean (b : Bool)
  | integer (z : Int)
  | real (t : Option {t : Text // Numeral t})
  | date (t : Text)
  | data (bytes : List UInt8)
  | uid (n : Nat)
  | array (vs : List PlistValue)
  | dictionary (kvs : List (Text × PlistValue))

/-- `serde_json::to_string` for property lists, and what a value that is no string is
read as where it is written as one. -/
structure Serializer where
  toString : List PlistValue → Option Text
  other : PlistValue → Option Text

namespace Serializer

variable (S : Serializer)

def read : PlistValue → Option Text
  | .string s => some s
  | v => S.other v

def textAt (kvs : List (Text × PlistValue)) (key : Text) : Option Text :=
  (kvs.lookup key).bind S.read

/-- Dictionaries, and nothing else, are written as objects, with the same texts at the same keys. -/
def Writes : PlistValue → Value → Prop
  | .dictionary kvs, w => ∃ ms, w = .obj ms ∧ ∀ key, stringAt ms key = S.textAt kvs key
  | _, w => ∀ ms, w ≠ .obj ms

/-- Where values are written at all, their text is a JSON array of them; control characters are
escaped in JSON. -/
structure Documented : Prop where
  parses : ∀ apps json, S.toString apps = some json →
    ∃ vs, parse json = some (.arr vs) ∧ List.Forall₂ S.Writes apps vs
  escapes : ∀ apps json, S.toString apps = some json → nul ∉ json

end Serializer

section Bridge

variable (S : Serializer)

/-- `fetch_all_apps_rppairing` behind its connection, and the wrapper that hands its
text over; `none` stands for an error of the device. -/
def fetchAllAppsRppairing (apps : Option (List PlistValue)) : Except Stop (Option Text) :=
  match apps with
  | some apps => (toChar ((S.toString apps).getD "[]".toList)).map some
  | none => .ok none

end Bridge

def nilMessage : Text :=
  "Rust Core returned nil for app discovery. Ensure device is connected over Wi-Fi.".toList

def invalidMessage : Text := "Invalid JSON format from Rust Core.".toList

def emptyMessage : Text :=
  "instproxy returned empty list. No user apps found on device.".toList

def asObject : Value → Option (List (Text × Value))
  | .obj kvs => some kvs
  | _ => none

/-- `JSONSerialization.jsonObject(with:) as? [[String: Any]]` -/
def jsonObjects (parseError : Text → Text) (json : Text) :
    Except Text (Option (List (List (Text × Value)))) :=
  match parse json with
  | some (.arr vs) => .ok (vs.mapM asObject)
  | some (.obj _) => .ok none
  | _ => .error (parseError json)

def appInfo (id : Text) (dict : List (Text × Value)) : Option AppInfo :=
  (stringAt dict "CFBundleIdentifier".toList).map fun bundleID =>
    { id, bundleID
      name := ((stringAt dict "CFBundleDisplayName".toList).or
        (stringAt dict "CFBundleName".toList)).getD bundleID
      version := (stringAt dict "CFBundleShortVersionString".toList).getD "1.0".toList
      path := (stringAt dict "BundlePath".toList).getD [] }

section Engine

variable {κ : Type} [LinearOrder κ]

/-- `fetchAllApps` of the engine. `uuid` draws the identifiers, and `lowercased` gives
of a name what its lowercased form is compared by. -/
def fetchAllApps (parseError : Text → Text) (uuid : Nat → Text) (lowercased : Text → κ)
    (jsonString : Option Text) : Except Text (List AppInfo) :=
  match jsonString with
  | none => .error nilMessage
  | some json =>
    match jsonObjects parseError json with
    | .error e => .error e
    | .ok none => .error invalidMessage
    | .ok (some array) =>
      if array.isEmpty then .error emptyMessage
      else
        let apps := (array.zipIdx.filterMap fun (dict, i) => appInfo (uuid i) dict).filter
          fun a => !a.bundleID.isEmpty
        .ok (sorted (fun a b => decide (lowercased a.name < lowercased b.name)) apps)

end Engine

section Shown

theorem forall₂_mem {α β : Type} {R : α → β → Prop} {xs : List α} {ys : List β}
    (h : List.Forall₂ R xs ys) {x : α} (hx : x ∈ xs) : ∃ y ∈ ys, R x y := by
  induction h with
  | nil => cases hx
  | cons hr _ ih =>
    obtain rfl | hx := List.mem_cons.mp hx
    · exact ⟨_, List.mem_cons_self, hr⟩
    · obtain ⟨y, hy, hr⟩ := ih hx
      exact ⟨y, List.mem_cons_of_mem _ hy, hr⟩

variable (S : Serializer)

def row (id : Text) : PlistValue → Option AppInfo
  | .dictionary kvs =>
    match S.textAt kvs "CFBundleIdentifier".toList with
    | none | some [] => none
    | some bundleID =>
      some { id, bundleID
             name := ((S.textAt kvs "CFBundleDisplayName".toList).or
               (S.textAt kvs "CFBundleName".toList)).getD bundleID
             version := (S.textAt kvs "CFBundleShortVersionString".toList).getD "1.0".toList
             path := (S.textAt kvs "BundlePath".toList).getD [] }
  | _ => none

def rows (uuid : Nat → Text) (apps : List PlistValue) : List AppInfo :=
  apps.zipIdx.filterMap fun (v, i) => row S (uuid i) v

def IsDictionary (v : PlistValue) : Prop := ∃ kvs, v = .dictionary kvs

variable {S}

theorem writes_obj {v : PlistValue} {w : Value} (h : S.Writes v w) :
    (∃ ms, w = .obj ms) ↔ IsDictionary v := by
  unfold Serializer.Writes at h
  split at h
  · obtain ⟨ms, hms, _⟩ := h
    exact iff_of_true ⟨ms, hms⟩ ⟨_, rfl⟩
  · rename_i hno
    refine iff_of_false (fun ⟨ms, hms⟩ => h ms hms) ?_
    rintro ⟨kvs, rfl⟩
    exact hno kvs rfl

theorem mapM_asObject (vs : List Value) :
    match vs.mapM asObject with
    | some dicts => vs = dicts.map .obj
    | none => ∃ v ∈ vs, asObject v = none := by
  induction vs with
  | nil => rfl
  | cons v vs ih =>
    rw [List.mapM_cons]
    cases v with
    | obj kvs =>
      cases hm : vs.mapM asObject with
      | none =>
        rw [hm] at ih
        obtain ⟨w, hw, hn⟩ := ih
        exact ⟨w, List.mem_cons_of_mem _ hw, hn⟩
      | some dicts =>
        rw [hm] at ih
        exact congrArg _ ih
    | _ => exact ⟨_, List.mem_cons_self, rfl⟩

theorem row_appInfo (id : Text) {kvs : List (Text × PlistValue)} {ms : List (Text × Value)}
    (h : ∀ key, stringAt ms key = S.textAt kvs key) :
    (appInfo id ms).filter (fun a => !a.bundleID.isEmpty) = row S id (.dictionary kvs) := by
  simp only [appInfo, h, row]
  match S.textAt kvs "CFBundleIdentifier".toList with
  | none => rfl
  | some [] => rfl
  | some (c :: s) => rfl

theorem rows_eq (uuid : Nat → Text) {apps : List PlistValue} {vs : List Value}
    {dicts : List (List (Text × Value))} (hw : List.Forall₂ S.Writes apps vs)
    (h : vs = dicts.map .obj) (n : Nat) :
    ((dicts.zipIdx n).filterMap fun (dict, i) => appInfo (uuid i) dict).filter
        (fun a => !a.bundleID.isEmpty) =
      (apps.zipIdx n).filterMap fun (v, i) => row S (uuid i) v := by
  rw [List.filter_filterMap]
  induction hw generalizing dicts n with
  | nil =>
    obtain rfl : dicts = [] := by simpa using h.symm
    rfl
  | @cons v w apps vs hv _ ih =>
    cases dicts with
    | nil => cases h
    | cons d dicts =>
      rw [List.map_cons, List.cons.injEq] at h
      obtain ⟨rfl, hvs⟩ := h
      obtain ⟨kvs, rfl⟩ := (writes_obj hv).mp ⟨d, rfl⟩
      obtain ⟨ms, hms, htext⟩ := hv
      cases hms
      have hrow := row_appInfo (uuid n) htext
      have ih' := ih hvs (n + 1)
      simp only [List.zipIdx_cons, List.filterMap_cons, hrow, ih']

end Shown

section Order

variable {α κ : Type} [LinearOrder κ]

theorem filter_orderedInsert (key : α → κ) (k : κ) (x : α) (xs : List α) :
    (xs.orderedInsert (fun a b => decide (key b < key a) = false) x).filter (fun a => key a = k) =
      (x :: xs).filter fun a => key a = k := by
  induction xs with
  | nil => rfl
  | cons y xs ih =>
    rw [List.orderedInsert_cons]
    split
    · rfl
    · rename_i hlt
      have hyx : key y < key x := by simpa using hlt
      rw [List.filter_cons, ih]
      by_cases hx : key x = k
      · have hy : key y ≠ k := fun hy => absurd hyx (by rw [hx, hy]; exact lt_irrefl k)
        simp [hx, hy]
      · simp [hx, List.filter_cons]

theorem filter_sorted (key : α → κ) (k : κ) (xs : List α) :
    (sorted (fun a b => decide (key a < key b)) xs).filter (fun a => key a = k) =
      xs.filter fun a => key a = k := by
  induction xs with
  | nil => rfl
  | cons x xs ih =>
    unfold sorted at ih ⊢
    rw [List.insertionSort_cons, filter_orderedInsert, List.filter_cons, ih, List.filter_cons]

theorem pairwise_sorted (key : α → κ) (xs : List α) :
    (sorted (fun a b => decide (key a < key b)) xs).Pairwise fun a b => key a ≤ key b := by
  have htotal : Std.Total fun a b : α => decide (key b < key a) = false :=
    ⟨fun a b => by simpa using le_total (key a) (key b)⟩
  have htrans : IsTrans α fun a b => decide (key b < key a) = false :=
    ⟨fun a b c hab hbc => by simp only [decide_eq_false_iff_not, not_lt] at *; exact hab.trans hbc⟩
  refine (List.pairwise_insertionSort _ xs).imp fun {a b} h => ?_
  simpa using h

end Order

section Discovered

variable {κ : Type} [LinearOrder κ] {S : Serializer}

/-- `shown` lists the rows by their keys; where these are equal, as the device lists them. -/
structure Lists (key : Text → κ) (rows shown : List AppInfo) : Prop where
  perm : shown.Perm rows
  ordered : shown.Pairwise fun a b => key a.name ≤ key b.name
  stable : ∀ k, shown.filter (fun a => key a.name = k) = rows.filter fun a => key a.name = k

theorem fetchAllApps_array (parseError : Text → Text) (uuid : Nat → Text) (lowercased : Text → κ)
    {apps : List PlistValue} {vs : List Value} {json : Text} (hparse : parse json = some (.arr vs))
    (hw : List.Forall₂ S.Writes apps vs) :
    match fetchAllApps parseError uuid lowercased (some json) with
    | .ok shown =>
      apps ≠ [] ∧ (∀ v ∈ apps, IsDictionary v) ∧ Lists lowercased (rows S uuid apps) shown
    | .error e =>
      (apps = [] ∧ e = emptyMessage) ∨ ((∃ v ∈ apps, ¬ IsDictionary v) ∧ e = invalidMessage) := by
  have hobjects := mapM_asObject vs
  cases hm : vs.mapM asObject with
  | none =>
    rw [hm] at hobjects
    obtain ⟨w, hwm, hn⟩ := hobjects
    obtain ⟨v, hv, hvw⟩ := forall₂_mem hw.flip hwm
    have hfetch : fetchAllApps parseError uuid lowercased (some json) = .error invalidMessage := by
      simp only [fetchAllApps, jsonObjects, hparse, hm]
    rw [hfetch]
    refine .inr ⟨⟨v, hv, fun hdict => ?_⟩, rfl⟩
    obtain ⟨ms, rfl⟩ := (writes_obj hvw).mpr hdict
    cases hn
  | some dicts =>
    rw [hm] at hobjects
    cases dicts with
    | nil =>
      have hfetch : fetchAllApps parseError uuid lowercased (some json) = .error emptyMessage := by
        simp only [fetchAllApps, jsonObjects, hparse, hm, List.isEmpty_nil, if_true]
      rw [hfetch]
      subst hobjects
      cases hw
      exact .inl ⟨rfl, rfl⟩
    | cons d dicts =>
      have hrows := rows_eq uuid hw hobjects 0
      have hfetch : fetchAllApps parseError uuid lowercased (some json) =
          .ok (sorted (fun a b => decide (lowercased a.name < lowercased b.name))
            (rows S uuid apps)) := by
        simp only [fetchAllApps, jsonObjects, hparse, hm, List.isEmpty_cons, Bool.false_eq_true,
          if_false, hrows]
        rfl
      rw [hfetch]
      refine ⟨?_, fun v hv => ?_, sorted_perm _ _, pairwise_sorted _ _, fun k => filter_sorted _ k _⟩
      · rintro rfl
        cases hw
        cases hobjects
      · obtain ⟨w, hwm, hvw⟩ := forall₂_mem hw hv
        rw [hobjects] at hwm
        obtain ⟨ms, _, hms⟩ := List.mem_map.mp hwm
        exact (writes_obj hvw).mp ⟨ms, hms.symm⟩

theorem fetchAllApps_fallback (parseError : Text → Text) (uuid : Nat → Text)
    (lowercased : Text → κ) {apps : List PlistValue} (h : S.toString apps = none) :
    fetchAllAppsRppairing S (some apps) = .ok (some "[]".toList) ∧
      fetchAllApps parseError uuid lowercased (some "[]".toList) = .error emptyMessage := by
  have hparse : parse "[]".toList = some (.arr []) :=
    parse_print spells_escape (v := .arr []) trivial
  constructor
  · rw [fetchAllAppsRppairing, h, Option.getD_none, toChar_ok (by decide)]
    rfl
  · simp only [fetchAllApps, jsonObjects, hparse, List.mapM_nil]
    rfl

theorem rppairing_some (hS : S.Documented) {apps : List PlistValue} {json : Text}
    (h : S.toString apps = some json) :
    fetchAllAppsRppairing S (some apps) = .ok (some json) := by
  rw [fetchAllAppsRppairing, h, Option.getD_some, toChar_ok (hS.escapes apps json h)]
  rfl

/-- What comes of an answer of the device on its way through JSON: all entries with
an identifier, in order, or one of three errors. An answer that cannot be written as JSON
passes for an empty one. -/
theorem fetchAllApps_shows (hS : S.Documented) (parseError : Text → Text) (uuid : Nat → Text)
    (lowercased : Text → κ) (result : Option (List PlistValue)) :
    ∃ jsonString, fetchAllAppsRppairing S result = .ok jsonString ∧
      match result, fetchAllApps parseError uuid lowercased jsonString with
      | none, r => r = .error nilMessage
      | some apps, .ok shown =>
        apps ≠ [] ∧ (∀ v ∈ apps, IsDictionary v) ∧ S.toString apps ≠ none ∧
          Lists lowercased (rows S uuid apps) shown
      | some apps, .error e =>
        ((apps = [] ∨ S.toString apps = none) ∧ e = emptyMessage) ∨
          ((∃ v ∈ apps, ¬ IsDictionary v) ∧ S.toString apps ≠ none ∧ e = invalidMessage) := by
  cases result with
  | none => exact ⟨none, rfl, rfl⟩
  | some apps =>
    cases hjson : S.toString apps with
    | none =>
      obtain ⟨hbridge, hfetch⟩ := fetchAllApps_fallback parseError uuid lowercased hjson
      refine ⟨_, hbridge, ?_⟩
      rw [hfetch]
      exact .inl ⟨.inr hjson, rfl⟩
    | some json =>
      have hne : S.toString apps ≠ none := by simp [hjson]
      obtain ⟨vs, hparse, hw⟩ := hS.parses apps json hjson
      have hshown := fetchAllApps_array parseError uuid lowercased hparse hw
      refine ⟨some json, rppairing_some hS hjson, ?_⟩
      cases hr : fetchAllApps parseError uuid lowercased (some json) with
      | ok shown =>
        rw [hr] at hshown
        exact ⟨hshown.1, hshown.2.1, hne, hshown.2.2⟩
      | error e =>
        rw [hr] at hshown
        obtain ⟨hnil, he⟩ | ⟨hdict, he⟩ := hshown
        · exact .inl ⟨.inl hnil, he⟩
        · exact .inr ⟨hdict, hne, he⟩

end Discovered

section Printer

mutual

def serialize : PlistValue → Value
  | .string s => .str s
  | .boolean b => .bool b
  | .integer z => .num (decimalInt z)
  | .real (some t) => .num t.1
  | .real none => .null
  | .date t => .str t
  | .data bytes => .arr (bytes.map fun b => .num (decimalInt b.toNat))
  | .uid n => .num (decimalInt n)
  | .array vs => .arr (serializeList vs)
  | .dictionary kvs => .obj (serializeMembers kvs)

def serializeList : List PlistValue → List Value
  | [] => []
  | v :: vs => serialize v :: serializeList vs

def serializeMembers : List (Text × PlistValue) → List (Text × Value)
  | [] => []
  | (k, v) :: kvs => (k, serialize v) :: serializeMembers kvs

end

theorem numeral_decimalInt (z : Int) : Numeral (decimalInt z) := by
  have hi := integer_decimal z.natAbs (show (','.isDigit) = false from rfl) []
  have hnum : number (decimalInt z ++ [',']) = some (decimalInt z, [',']) := by
    simp only [number, sign_decimalInt, hi]
    simp [fraction, exponent, decimalInt]
  rw [number_stops (stops_cons (.inl rfl) [])] at hnum
  obtain ⟨⟨m, r⟩, hm, he⟩ := Option.map_eq_some_iff.mp hnum
  simp only [extend, Prod.mk.injEq, List.append_left_eq_self] at he
  unfold Numeral
  rw [hm, he.1, he.2]

theorem numerals_bytes (bytes : List UInt8) :
    NumeralsList (bytes.map fun b => .num (decimalInt b.toNat)) := by
  induction bytes with
  | nil => trivial
  | cons b bytes ih =>
    rw [List.map_cons, NumeralsList, Numerals]
    exact ⟨numeral_decimalInt b.toNat, ih⟩

mutual

theorem numerals_serialize (v : PlistValue) : Numerals (serialize v) := by
  match v with
  | .string s => trivial
  | .boolean b => trivial
  | .integer z => exact numeral_decimalInt z
  | .real (some t) => exact t.2
  | .real none => trivial
  | .date t => trivial
  | .data bytes => exact numerals_bytes bytes
  | .uid n => exact numeral_decimalInt n
  | .array vs => exact numerals_serializeList vs
  | .dictionary kvs => exact numerals_serializeMembers kvs

theorem numerals_serializeList (vs : List PlistValue) : NumeralsList (serializeList vs) := by
  match vs with
  | [] => trivial
  | v :: vs => exact ⟨numerals_serialize v, numerals_serializeList vs⟩

theorem numerals_serializeMembers (kvs : List (Text × PlistValue)) :
    NumeralsMembers (serializeMembers kvs) := by
  match kvs with
  | [] => trivial
  | (k, v) :: kvs => exact ⟨numerals_serialize v, numerals_serializeMembers kvs⟩

end

def printer : Serializer where
  toString apps := some (print escape (.arr (serializeList apps)))
  other
    | .date t => some t
    | _ => none

theorem lookup_serialize (kvs : List (Text × PlistValue)) (key : Text) :
    (serializeMembers kvs).lookup key = (kvs.lookup key).map serialize := by
  induction kvs with
  | nil => rfl
  | cons kv kvs ih =>
    obtain ⟨k, v⟩ := kv
    rw [serializeMembers]
    by_cases hk : (key == k) = true
    · simp [List.lookup_cons, hk]
    · simp [List.lookup_cons, hk, ih]

theorem writes_serialize (v : PlistValue) : printer.Writes v (serialize v) := by
  match v with
  | .dictionary kvs =>
    refine ⟨_, rfl, fun key => ?_⟩
    unfold stringAt Serializer.textAt
    rw [lookup_serialize]
    cases kvs.lookup key with
    | none => rfl
    | some v =>
      match v with
      | .string s | .boolean b | .integer z | .real (some t) | .real none | .date t | .data b
      | .uid n | .array vs | .dictionary kvs => rfl
  | .string s | .boolean b | .integer z | .real (some t) | .real none | .date t | .data b
  | .uid n | .array vs =>
    intro ms h
    cases h

theorem writes_serializeList (apps : List PlistValue) :
    List.Forall₂ printer.Writes apps (serializeList apps) := by
  induction apps with
  | nil => exact .nil
  | cons v apps ih => exact .cons (writes_serialize v) ih

theorem printer_documented : printer.Documented where
  parses apps json h := by
    cases h
    have hnum : Numerals (.arr (serializeList apps)) := numerals_serializeList apps
    exact ⟨_, parse_print spells_escape hnum, writes_serializeList apps⟩
  escapes apps json h := by
    cases h
    intro hm
    have hnum : Numerals (.arr (serializeList apps)) := numerals_serializeList apps
    have h32 := visible_print visible_escape _ hnum nul hm
    revert h32
    decide

def sampleApps : List PlistValue := [
  .dictionary [("CFBundleName".toList, .string "Notes".toList),
    ("CFBundleIdentifier".toList, .string ['n'])],
  .dictionary [("CFBundleIdentifier".toList, .integer 7)],
  .dictionary [("CFBundleIdentifier".toList, .string ['m'])]]

/-- Two of three entries have an identifier. -/
theorem fetchAllApps_shows_sample : ∃ jsonString shown,
    fetchAllAppsRppairing printer (some sampleApps) = .ok jsonString ∧
    fetchAllApps id (fun _ => []) List.length jsonString = .ok shown ∧
    Lists List.length (rows printer (fun _ => []) sampleApps) shown ∧
    (rows printer (fun _ => []) sampleApps).map AppInfo.bundleID = [['n'], ['m']] := by
  obtain ⟨jsonString, hjson, hshows⟩ :=
    fetchAllApps_shows printer_documented id (fun _ => []) List.length (some sampleApps)
  cases hr : fetchAllApps id (fun _ => []) List.length jsonString with
  | ok shown =>
    rw [hr] at hshows
    exact ⟨jsonString, shown, hjson, hr, hshows.2.2.2, rfl⟩
  | error e =>
    rw [hr] at hshows
    obtain ⟨hempty, _⟩ | ⟨⟨v, hv, hdict⟩, _⟩ := hshows
    · obtain h | h := hempty <;> cases h
    · simp only [sampleApps, List.mem_cons, List.not_mem_nil, or_false] at hv
      obtain rfl | rfl | rfl := hv <;> exact absurd ⟨_, rfl⟩ hdict

end Printer

end UnBoxer.AppDiscovery
