import UnBoxer.PathText
import UnBoxer.DirAll

namespace UnBoxer.Archives

open UnBoxer.Trees UnBoxer.Programs UnBoxer.PathText

abbrev Bytes := List UInt8

abbrev Action := Prog Text UInt8 Text

/-- An entry of a zip archive: its name as stored, and its bytes. -/
structure Record where
  name : Text
  data : Bytes
  deriving DecidableEq

inductive ZipCall where
  | addDirectory (name : Text)
  | startFile (name : Text)
  | writeAll (bytes : Bytes)
  | finish

/-- The parts of the zip crate and of Rust's standard library that are not in
the repository. `reject` is the error with which the writer itself answers a
call, `progress` what it has put on disk so far, `finished` what a finished
archive holds and `dropped` one whose writer went away before. -/
structure Crates where
  dirName : Text → Text
  isDir : Text → Bool
  reject : List Record → ZipCall → Option Text
  progress : List Record → Bytes
  finished : List Record → Bytes
  dropped : List Record → Bytes
  parse : Bytes → Except Text (List Record)
  debug : Text → Text
  osError : Errno → Text
  zipError : Errno → Text

/-- The name ends in one of the two characters that mark a directory. -/
def DirMark (n : Text) : Prop := n.getLast? = some '/' ∨ n.getLast? = some '\\'

instance (n : Text) : Decidable (DirMark n) := inferInstanceAs (Decidable (_ ∨ _))

/-- What the zip crate documents: which names stand for directories, how
`add_directory` marks them, and that a finished archive is read back as it was
written when its names are distinct. -/
structure Crates.Documented (c : Crates) : Prop where
  dirName_eq : ∀ n, c.dirName n = if DirMark n then n else n ++ ['/']
  isDir_iff : ∀ n, c.isDir n = true ↔ DirMark n
  parse_finished : ∀ rs, (rs.map Record.name).Nodup → c.parse (c.finished rs) = .ok rs

def Crates.record (c : Crates) (rs : List Record) : ZipCall → List Record
  | .addDirectory n => rs ++ [⟨c.dirName n, []⟩]
  | .startFile n => rs ++ [⟨n, []⟩]
  | .writeAll b => rs.modifyLast fun r => { r with data := r.data ++ b }
  | .finish => rs

def Crates.stored (c : Crates) (rs : List Record) : ZipCall → Bytes
  | .finish => c.finished rs
  | _ => c.progress rs

end UnBoxer.Archives
