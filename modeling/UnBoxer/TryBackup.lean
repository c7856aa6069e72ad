import UnBoxer.Archives
import UnBoxer.EscapeJson

namespace UnBoxer.TryBackup

open UnBoxer.Trees UnBoxer.Programs UnBoxer.DirAll UnBoxer.PathText UnBoxer.Archives
open UnBoxer.EscapeJson

inductive Request where
  | listDir (path : Text)
  | getFileInfo (path : Text)
  | openFile (path : Text)
  deriving DecidableEq

/-- A device's file service. Its answers may depend on all requests before; the
answer to `open` is what the reads of the file will give in turn. -/
structure Afc where
  listDir : List Request → Text → Except Text (List Text)
  getFileInfo : List Request → Text → Except Text Text
  openFile : List Request → Text → Except Text (List (Except Text Bytes))

/-- The two connections that a backup may ask for, and what they vend. -/
structure HouseArrest where
  connect : Except Text Unit
  vendContainer : Except Text Afc
  reconnect : Except Text Unit
  vendDocuments : Except Text Afc

/-- How a call ends without a result: it is still at work when the rounds given
to its loop are used up, it panics, or it fails. -/
inductive Stop where
  | running
  | panicked
  | error (e : Text)
  deriving DecidableEq

/-- The variables of the loop: the stack, the writer, `total_bytes`, and the
requests made. -/
structure Walk where
  stack : List Text
  entries : List Record
  total : Int64
  requests : List Request

structure Halt where
  stop : Stop
  walk : Walk

abbrev Loop := Prog Text UInt8 Halt Walk

def isPermissionDenied (e : Text) : Bool :=
  decide ("Permission denied".toList <:+: e) || decide ("permission_denied".toList <:+: e)

def halt (w : Walk) (e : Text) : Loop := .done (.error ⟨.error e, w⟩)

def vend (house : HouseArrest) (bundleId : Text) : Except Text (Afc × Text) :=
  match house.connect with
  | .error e => .error ("house_arrest connect: ".toList ++ e)
  | .ok () =>
    match house.vendContainer with
    | .ok afc => .ok (afc, "full".toList)
    | .error e₁ =>
      let failed := "backup failed for '".toList ++ bundleId ++ "': vend_container: ".toList ++ e₁
      match house.reconnect with
      | .error e₂ => .error (failed ++ "; then reconnect for fallback failed: ".toList ++ e₂)
      | .ok () =>
        match house.vendDocuments with
        | .ok afc => .ok (afc, "documents".toList)
        | .error e₂ => .error (failed ++ "; vend_documents: ".toList ++ e₂)

section Loops

variable (c : Crates) (h : List Text)

/-- One call of the zip writer, whose error is put behind `what`. -/
def zipCall (w : Walk) (z : ZipCall) (what : Text) (error : Errno → Text) : Loop :=
  match c.reject w.entries z with
  | some e => halt w (what ++ e)
  | none =>
    let w' := { w with entries := c.record w.entries z }
    (Prog.handle (write h (c.stored w'.entries z))) fun
      | .ok () => .done (.ok w')
      | .error e => halt w' (what ++ error e)

/-- The loop that copies an open file into the archive. -/
def copyFile (full : Text) : Walk → List (Except Text Bytes) → Loop
  | w, [] => .done (.ok w)
  | w, .error e :: _ => halt w ("read ".toList ++ c.debug full ++ ": ".toList ++ e)
  | w, .ok buf :: reads =>
    if buf = [] then .done (.ok w)
    else
      let w := { w with total := w.total + Int64.ofNat buf.length }
      (zipCall c h w (.writeAll buf) ("zip write ".toList ++ c.debug full ++ ": ".toList)
        c.osError).bind fun w => copyFile full w reads

def backupDirectory (full : Text) (w : Walk) : Loop :=
  (zipCall c h w (.addDirectory full) ("zip dir ".toList ++ c.debug full ++ ": ".toList)
    c.zipError).bind fun w => .done (.ok { w with stack := full :: w.stack })

def backupFile (afc : Afc) (full : Text) (w : Walk) : Loop :=
  let w' := { w with requests := w.requests ++ [.openFile full] }
  match afc.openFile w.requests full with
  | .error e =>
    if isPermissionDenied e then .done (.ok w')
    else halt w' ("open ".toList ++ c.debug full ++ ": ".toList ++ e)
  | .ok reads =>
    (zipCall c h w' (.startFile full) ("zip file ".toList ++ c.debug full ++ ": ".toList)
      c.zipError).bind fun w => copyFile c h full w reads

def fullPath (dir entry : Text) : Text := if dir = [] then entry else dir ++ '/' :: entry

def backupKind (afc : Afc) (full : Text) (w : Walk) (fmt : Text) : Loop :=
  if fmt = "S_IFDIR".toList then backupDirectory c h full w
  else if fmt = "S_IFREG".toList then backupFile c h afc full w
  else .done (.ok w)

def backupNode (afc : Afc) (full : Text) (w : Walk) : Loop :=
  let w' := { w with requests := w.requests ++ [.getFileInfo full] }
  match afc.getFileInfo w.requests full with
  | .error e =>
    if isPermissionDenied e then .done (.ok w')
    else halt w' ("get_file_info ".toList ++ c.debug full ++ ": ".toList ++ e)
  | .ok fmt => backupKind c h afc full w' fmt

def backupEntry (afc : Afc) (dir : Text) (w : Walk) (entry : Text) : Loop :=
  if entry = ['.'] ∨ entry = ['.', '.'] then .done (.ok w)
  else backupNode c h afc (fullPath dir entry) w

def backupListing (afc : Afc) (dir : Text) (w : Walk) : Loop :=
  let w' := { w with requests := w.requests ++ [.listDir dir] }
  match afc.listDir w.requests dir with
  | .error e =>
    if isPermissionDenied e then .done (.ok w')
    else halt w' ("list_dir ".toList ++ c.debug dir ++ ": ".toList ++ e)
  | .ok entries => Prog.fold (backupEntry c h afc dir) w' entries

/-- The loop over the stack, whose head is its top, for at most `fuel` rounds. -/
def backupLoop (afc : Afc) : Nat → Walk → Loop
  | 0, w => .done (.error ⟨.running, w⟩)
  | fuel + 1, w =>
    match w.stack with
    | [] => .done (.ok w)
    | dir :: stack =>
      (backupListing c h afc dir { w with stack := stack }).bind (backupLoop afc fuel)

/-- The root stands on the stack as the empty path. -/
def start : Walk := ⟨[[]], [], 0, []⟩

def backupArchive (afc : Afc) (fuel : Nat) : Loop :=
  (backupLoop c h afc fuel start).bind fun w =>
    zipCall c h w .finish "zip finish: ".toList c.zipError

end Loops

def zipPath (bundleId outputDir : Text) : Text := join outputDir (bundleId ++ ".zip".toList)

/-- A writer that has not been finished is closed when it goes out of scope. -/
def backupInto (c : Crates) (fuel : Nat) (afc : Afc) (backupType zip : Text) (h : List Text) :
    Prog Text UInt8 Stop Text :=
  (backupArchive c h afc fuel).handle fun
    | .ok w => .done (.ok (successResponse zip w.total backupType))
    | .error ⟨.error e, w⟩ =>
      (write h (c.dropped w.entries)).ignore.bind fun _ => .done (.error (.error e))
    | .error ⟨stop, _⟩ => .done (.error stop)

def tryBackup (c : Crates) (fuel : Nat) (house : HouseArrest) (bundleId outputDir : Text) :
    Prog Text UInt8 Stop Text :=
  match vend house bundleId with
  | .error e => .done (.error (.error e))
  | .ok (afc, backupType) =>
    ((createDirAll (pieces outputDir)).mapErr fun e =>
      Stop.error ("create output dir: ".toList ++ c.osError e)).bind fun _ =>
      (Prog.mapErr (fun e => Stop.error ("create zip: ".toList ++ c.osError e))
        (create (pieces (zipPath bundleId outputDir)))).bind fun h =>
        backupInto c fuel afc backupType (zipPath bundleId outputDir) h

end UnBoxer.TryBackup
