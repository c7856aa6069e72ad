import UnBoxer.TryBackup
import UnBoxer.TryExtract
import Mathlib.Data.List.TakeWhile

namespace UnBoxer.RustIdevice

open UnBoxer.Programs UnBoxer.JsonStrings UnBoxer.JsonParser UnBoxer.PathText UnBoxer.Archives
open UnBoxer.EscapeJson UnBoxer.TryBackup UnBoxer.TryExtract

/-- What `CStr::from_ptr` sees of a Swift string. -/
def fromPtr (s : Text) : Text := s.takeWhile (· ≠ nul)

/-- `CString::new` does not take a string with a NUL in it, and its result is
unwrapped. -/
def toChar (s : Text) : Except Stop Text := if nul ∈ s then .error .panicked else .ok s

def stringAt (kvs : List (Text × Value)) (key : Text) : Option Text :=
  match kvs.lookup key with
  | some (.str s) => some s
  | _ => none

def jsonObject (parseError : Text → Text) (json : Text) :
    Except Text (Option (List (Text × Value))) :=
  match parse json with
  | some (.obj kvs) => .ok (some kvs)
  | some (.arr _) => .ok none
  | _ => .error (parseError json)

/-- The checks that both wrappers make on the answer of the library. -/
def checkResponse (parseError : Text → Text) (what json : Text) : Except Text Text :=
  let failed := "Failed to parse ".toList ++ what ++ " response: ".toList ++ json
  match jsonObject parseError json with
  | .error e => .error e
  | .ok none => .error failed
  | .ok (some kvs) =>
    match stringAt kvs "status".toList with
    | none => .error failed
    | some status =>
      if status = "error".toList then
        .error ((stringAt kvs "error".toList).getD "Unknown error".toList)
      else .ok json

def receive (parseError : Text → Text) (what json : Text) : Except Stop Text :=
  match toChar json with
  | .error stop => .error stop
  | .ok json => (checkResponse parseError what json).mapError .error

/-- A call of the library, whose errors come as JSON too. -/
def callBridge (parseError : Text → Text) (what : Text) (p : Prog Text UInt8 Stop Text) :
    Prog Text UInt8 Stop Text :=
  p.handle fun
    | .ok json => .done (receive parseError what json)
    | .error (.error e) => .done (receive parseError what (errorResponse e))
    | .error stop => .done (.error stop)

def backupApp (parseError : Text → Text) (c : Crates) (fuel : Nat) (house : HouseArrest)
    (bundleId outputDir : Text) : Prog Text UInt8 Stop Text :=
  callBridge parseError "backup".toList
    (tryBackup c fuel house (fromPtr bundleId) (fromPtr outputDir))

def extractZip (parseError : Text → Text) (c : Crates) (zipPath outputDir : Text) :
    Prog Text UInt8 Stop Unit :=
  (callBridge parseError "extract".toList
    ((tryExtract c (fromPtr zipPath) (fromPtr outputDir)).mapErr .error)).bind fun _ => .done (.ok ())

theorem fromPtr_self {s : Text} (h : nul ∉ s) : fromPtr s = s := by
  refine List.takeWhile_eq_self_iff.mpr fun c hc => ?_
  have hne : c ≠ nul := by
    rintro rfl
    exact h hc
  simpa using hne

theorem toChar_ok {s : Text} (h : nul ∉ s) : toChar s = .ok s := if_neg h

section Check

variable {parseError : Text → Text} {what json : Text} {kvs : List (Text × Value)}

theorem jsonObject_obj (h : parse json = some (.obj kvs)) :
    jsonObject parseError json = .ok (some kvs) := by
  unfold jsonObject
  rw [h]

theorem jsonObject_none (h : parse json = none) :
    jsonObject parseError json = .error (parseError json) := by
  unfold jsonObject
  rw [h]

theorem checkResponse_none (h : parse json = none) :
    checkResponse parseError what json = .error (parseError json) := by
  simp only [checkResponse, jsonObject_none h]

theorem checkResponse_obj (h : parse json = some (.obj kvs)) {status : Text}
    (hs : stringAt kvs "status".toList = some status) : checkResponse parseError what json =
      if status = "error".toList then
        .error ((stringAt kvs "error".toList).getD "Unknown error".toList)
      else .ok json := by
  simp only [checkResponse, jsonObject_obj h, hs]

theorem receive_eq (h : nul ∉ json) :
    receive parseError what json = (checkResponse parseError what json).mapError .error := by
  simp only [receive, toChar_ok h]

end Check

/-- What a call of the library returns, by how the program behind it ended. -/
def received (parseError : Text → Text) (what : Text) : Except Stop Text → Except Stop Text
  | .ok json => receive parseError what json
  | .error (.error e) => receive parseError what (errorResponse e)
  | .error stop => .error stop

theorem run_callBridge (parseError : Text → Text) (what : Text) (p : Prog Text UInt8 Stop Text)
    (d : Disk Text UInt8) : (callBridge parseError what p).run d =
      (received parseError what (p.run d).1, (p.run d).2) := by
  unfold callBridge
  rw [run_handle]
  cases (p.run d).1 with
  | ok json => rfl
  | error stop => cases stop <;> rfl

theorem run_extractZip (parseError : Text → Text) (c : Crates) (zip out : Text)
    (d : Disk Text UInt8) : (extractZip parseError c zip out).run d =
      ((received parseError "extract".toList
        (((tryExtract c (fromPtr zip) (fromPtr out)).run d).1.mapError .error)).map fun _ => (),
        ((tryExtract c (fromPtr zip) (fromPtr out)).run d).2) := by
  rw [extractZip, run_map, run_callBridge, run_mapErr]

theorem nul_escapeJson {s : Text} (h : nul ∉ s) : nul ∉ escapeJson s := by
  rw [escapeJson_eq]
  intro hm
  obtain ⟨c, hc, hn⟩ := List.mem_flatMap.mp hm
  have hne : c ≠ nul := by
    rintro rfl
    exact h hc
  unfold escapeChar at hn
  split at hn
  · revert hn
    decide
  split at hn
  · revert hn
    decide
  split at hn
  · revert hn
    decide
  split at hn
  · revert hn
    decide
  split at hn
  · revert hn
    decide
  · exact hne (List.mem_singleton.mp hn).symm

theorem nul_errorResponse {e : Text} (h : nul ∉ e) : nul ∉ errorResponse e := by
  have h₁ : nul ∉ "\x7b\"status\":\"error\",\"error\":\"".toList := by decide
  have h₂ : nul ∉ "\"\x7d".toList := by decide
  unfold errorResponse
  rw [List.mem_append, List.mem_append, not_or, not_or]
  exact ⟨⟨h₁, nul_escapeJson h⟩, h₂⟩

end UnBoxer.RustIdevice
