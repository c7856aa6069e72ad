import UnBoxer.Archives
import UnBoxer.EscapeJson

namespace UnBoxer.TryExtract

open UnBoxer.Trees UnBoxer.Programs UnBoxer.DirAll UnBoxer.PathText UnBoxer.Archives
open UnBoxer.EscapeJson

variable (c : Crates)

/-- Where the entry goes: its name as stored is joined to the output directory. -/
def target (outputDir name : Text) : List (Piece Text) := pieces (join outputDir name)

/-- Rust refuses a path with a NUL in it before any call. The output directory,
which comes as a C string, has none, so only the part `ps` from the archive counts. -/
def refusing {α : Type} (ps : List (Piece Text)) (p : Prog Text UInt8 Errno α) :
    Prog Text UInt8 Errno α :=
  if ps.any hasNul then .done (.error .failed) else p

def createParent (outputDir name : Text) : Action Unit :=
  if components (target outputDir name) = [] then .done (.ok ())
  else (refusing (parent (pieces name)) (createDirAll (parent (target outputDir name)))).mapErr
    fun e => "create parent dir: ".toList ++ c.osError e

/-- The bytes are written before the end of the entry is read, where its
checksum is compared. -/
def copyEntry (p : List Text) (r : Record) : Action Unit :=
  Prog.mapErr (fun e => "extract ".toList ++ c.debug r.name ++ ": ".toList ++ c.osError e)
    ((write p r.data).bind fun _ => next)

def extractFile (outputDir : Text) (r : Record) : Action Unit :=
  (createParent c outputDir r.name).bind fun _ =>
    (Prog.mapErr (fun e => "create file ".toList ++ c.debug r.name ++ ": ".toList ++ c.osError e)
      (refusing (pieces r.name) (create (target outputDir r.name)))).bind fun p => copyEntry c p r

def extractEntry (outputDir : Text) (entry : Record × Nat) : Action Unit :=
  (next.mapErr fun e =>
    "zip entry ".toList ++ JsonParser.decimal entry.2 ++ ": ".toList ++ c.zipError e).bind fun _ =>
    if c.isDir entry.1.name then
      (refusing (pieces entry.1.name) (createDirAll (target outputDir entry.1.name))).ignore
    else extractFile c outputDir entry.1

def openArchive (zipPath : Text) : Action (List Record) :=
  ((load (pieces zipPath)).mapErr fun e => "open zip: ".toList ++ c.osError e).bind fun data =>
    (next.mapErr fun e => "read zip: ".toList ++ c.zipError e).bind fun _ =>
      match c.parse data with
      | .ok rs => .done (.ok rs)
      | .error e => .done (.error ("read zip: ".toList ++ e))

/-- What is done once the output directory is there. -/
def extractArchive (zipPath outputDir : Text) : Action Text :=
  (openArchive c zipPath).bind fun rs =>
    (Prog.forEach (extractEntry c outputDir) rs.zipIdx).bind fun _ => .done (.ok extractResponse)

def tryExtract (zipPath outputDir : Text) : Action Text :=
  ((createDirAll (pieces outputDir)).mapErr fun e =>
    "create extract dir: ".toList ++ c.osError e).bind fun _ => extractArchive c zipPath outputDir

theorem refusing_plain {α : Type} {ps : List (Piece Text)} (h : ps.any hasNul = false)
    (p : Prog Text UInt8 Errno α) : refusing ps p = p := by
  unfold refusing
  rw [h, if_neg Bool.false_ne_true]

theorem plain_parent {ps : List (Piece Text)} (h : ps.any hasNul = false) :
    (parent ps).any hasNul = false := by
  rw [List.any_eq_false] at h ⊢
  intro c hc
  exact h c (List.mem_filter.mp (List.mem_of_mem_dropLast hc)).1

end UnBoxer.TryExtract
