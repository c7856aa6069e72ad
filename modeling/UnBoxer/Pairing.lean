import UnBoxer.RustIdevice
import UnBoxer.Rsd

namespace UnBoxer.Pairing

open UnBoxer.PathText UnBoxer.Archives UnBoxer.RustIdevice UnBoxer.Rsd UnBoxer.Runs

variable {P : Type}

section Manager

/-- A file that the user has picked: whether it may be accessed, its size attribute
(twice `none`: it cannot be asked for, and it is no number), and its content. -/
structure Picked where
  accessible : Bool
  size : Option (Option Int)
  data : Option Bytes

/-- `PairingManager.importFile`, where the old file may refuse to go. -/
def importFile (u : Picked) (removes : Bool) (file : Option Bytes) : Option Bytes :=
  if u.accessible then
    match u.size with
    | none => file
    | some size =>
      if size.any (fun n => decide (n > 1048576)) then file
      else if file.isSome && !removes then file
      else u.data
  else file

def deleteFile (removes : Bool) (file : Option Bytes) : Option Bytes :=
  if file.isSome && !removes then file else none

end Manager

/-- What is read of a pairing file by others: its text, the keys of its property
list, and the pairing file that Rust makes of the text. -/
structure Parsers (P : Type) where
  utf8 : Bytes → Option Text
  keys : Bytes → Option (List Text)
  fromBytes : Text → Except Text P

inductive LockdownEngineError where
  | pairingFileNotFound
  | engineFailure (reason : Text)

def errorDescription : LockdownEngineError → Text
  | .pairingFileNotFound =>
    "Pairing file not found. Please import a valid pairing file first.".toList
  | .engineFailure reason => "Engine Execution Failed: ".toList ++ reason

section Engine

variable (R : Parsers P)

/-- `set_rppairing_file`, which gets the text as a C string. -/
def setRpPairingFile (s : Text) (g : Globals P) : Except Text P × Globals P :=
  match R.fromBytes (fromPtr s) with
  | .error e => (.error e, g)
  | .ok p => (.ok p, setOnce g p)

/-- What an execution has done before it tests the connection: its log, and the
pairing file that it has handed over. -/
structure Prepared (P : Type) where
  log : Text
  pairing : Option P

def rpPairingLog : Text :=
  "$ [ENGINE] Detected RPPairing configuration.\n".toList ++
    "$ [ENGINE] C-Library successfully configured with RPPairing.\n".toList

def configure (text : Text) (g : Globals P) : Except LockdownEngineError (Prepared P) × Globals P :=
  match setRpPairingFile R text g with
  | (.error e, g) =>
    (.error (.engineFailure ("Failed to set RPPairing in C-Library: ".toList ++ e)), g)
  | (.ok p, g) => (.ok ⟨rpPairingLog, some p⟩, g)

def prepare (file : Option Bytes) (readable : Bool) (g : Globals P) :
    Except LockdownEngineError (Prepared P) × Globals P :=
  match file with
  | none => (.error .pairingFileNotFound, g)
  | some data =>
    match readable, R.utf8 data, R.keys data with
    | true, some text, some keys =>
      if "private_key".toList ∈ keys then configure R text g
      else if "UDID".toList ∈ keys then
        (.ok ⟨"$ [ENGINE] Detected Standard Lockdown configuration.\n".toList, none⟩, g)
      else (.error (.engineFailure "Missing UDID or Keys in Pairing File".toList), g)
    | _, _, _ => (.error (.engineFailure
        "Invalid Pairing File Format or unable to read file contents".toList), g)

/-- The rest of the log, after the connection has been tested and the UDID asked for. -/
def connectionLog (isConnected : Bool) (udid : Option Text) : Text :=
  "$ [ENGINE] Attempting native C-level device connection...\n".toList ++
    if isConnected then
      "$ [ENGINE] SUCCESS: Device connection verified via libimobiledevice!\n".toList ++
        match udid with
        | some udid => "$ [ENGINE] Natively extracted UDID: ".toList ++ udid ++ ['\n']
        | none => "$ [ENGINE] WARNING: Connected, but failed to extract UDID.\n".toList
    else
      "$ [ENGINE] ERROR: Connection failed.\n".toList ++
        ("          (This is expected on sandboxed iOS if the Minimuxer loopback TCP Proxy is not " ++
          "running. libimobiledevice cannot reach the UNIX socket).\n").toList

end Engine

/-- The app as far as the pairing goes: the stored file, the executions of the engine
under way (with the file's content and the log so far), and the calls of the library. -/
structure App (P : Type) where
  file : Option Bytes
  engines : List (Bytes × Text)
  rsd : State P

inductive Happening (P : Type) where
  | stored
  | thrown (e : LockdownEngineError)
  | prepared (data : Bytes) (p : Option P)
  | returned (data : Bytes) (log : Text)
  | call (e : Event P)

/-- One step of the app. The UDID is asked for by one of the calls. -/
inductive Step (R : Parsers P) (proc : Nat → Procedure) : App P → Happening P → App P → Prop
  | importFile {s : App P} {u : Picked} {removes : Bool} :
      Step R proc s .stored { s with file := importFile u removes s.file }
  | deleteFile {s : App P} {removes : Bool} :
      Step R proc s .stored { s with file := deleteFile removes s.file }
  | throw {s : App P} {readable : Bool} {e : LockdownEngineError} {g : Globals P} :
      prepare R s.file readable s.rsd.shared = (.error e, g) →
      Step R proc s (.thrown e) { s with rsd := ⟨g, s.rsd.place⟩ }
  | prepare {s : App P} {readable : Bool} {data : Bytes} {x : Prepared P} {g : Globals P} :
      s.file = some data → prepare R s.file readable s.rsd.shared = (.ok x, g) →
      Step R proc s (.prepared data x.pairing)
        { s with engines := (data, x.log) :: s.engines, rsd := ⟨g, s.rsd.place⟩ }
  | return {s : App P} {data : Bytes} {log : Text} {isConnected : Bool} {udid : Option Text} :
      (data, log) ∈ s.engines → Step R proc s (.returned data (log ++ connectionLog isConnected udid))
        { s with engines := s.engines.erase (data, log) }
  | call {s : App P} {e : Event P} {t : State P} : Rsd.Step proc s.rsd e t →
      (∀ p, e ≠ .configured p) → Step R proc s (.call e) { s with rsd := t }

end UnBoxer.Pairing
