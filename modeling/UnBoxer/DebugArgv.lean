import UnBoxer.DebugSessions
import UnBoxer.JsonPrinter
import UnBoxer.AfcBridge

namespace UnBoxer.DebugArgv

open Debugserver DebugPackets DebugStub DebugSessions
open PathText RustIdevice

section Reading

end Reading

section Bridge

open JsonParser JsonNumbers JsonPrinter

/-- `serde_json::from_str`, where a list of strings is asked for. -/
abbrev FromStr := Text → Option (List Text)

/-- It reads a JSON array of strings. -/
def FromStr.Documented (fromStr : FromStr) : Prop :=
  ∀ json argv, parse json = some (.arr (argv.map .str)) → fromStr json = some argv

def utf8 (s : Text) : CString := s.flatMap String.utf8EncodeChar

variable {ρ : Type}

/-- `DebugServer::set_argv` of the crate between the bridge and the C function. -/
abbrev Crate (ρ : Type) := (List CString → ρ) → List Text → ρ

/-- The crate makes a C string of every argument, which has no NUL in it. -/
def Crate.Documented (crate : Crate ρ) : Prop :=
  ∀ call argv, (∀ a ∈ argv, nul ∉ a) → crate call argv = call (argv.map utf8)

variable {τ : Type} {stub : Stub τ} {client : Client} {t : τ} {cs : List Call}

end Bridge

end UnBoxer.DebugArgv
