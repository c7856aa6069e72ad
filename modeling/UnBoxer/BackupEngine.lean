import UnBoxer.RustIdevice

namespace UnBoxer.BackupEngine

open UnBoxer.Trees UnBoxer.Programs UnBoxer.DirAll UnBoxer.JsonParser UnBoxer.PathText
open UnBoxer.Archives UnBoxer.EscapeJson UnBoxer.TryBackup UnBoxer.RustIdevice

structure BackupEntry where
  id : Nat
  appName : Text
  bundleID : Text
  version : Text
  date : Int
  totalSize : Int64
  relativePath : Text
  isDocumentsOnly : Bool
  deriving DecidableEq

/-- What the app takes from Foundation: its documents directory as a list of
names, the texts of errors, the time stamp of a date, and the JSON of an entry. -/
structure Foundation where
  documents : List Text
  legal : ∀ n ∈ documents, FileName n
  parseError : Text → Text
  fileError : Errno → Text
  iso8601 : Int → Text
  encode : BackupEntry → Except Text Bytes
  decode : Bytes → Option BackupEntry

/-- What is documented of Foundation: its error texts hold no control characters,
a time stamp no slash and no NUL, the coding of an entry round-trips and is not
empty, and a torn JSON text is no JSON. -/
structure Foundation.Documented (F : Foundation) : Prop where
  parseError_clean : ∀ s, Clean (F.parseError s)
  iso8601_plain : ∀ t, '/' ∉ F.iso8601 t ∧ nul ∉ F.iso8601 t
  encode_ne_nil : ∀ e, F.encode e ≠ .ok []
  decode_encode : ∀ e data, F.encode e = .ok data → F.decode data = some e
  decode_prefix : ∀ e data s, F.encode e = .ok data → s <+: data → s ≠ data → F.decode s = none

def absolute (ns : List Text) : Text := '/' :: path ns

section Files

variable (F : Foundation)

/-- Foundation refuses a path with a NUL in it before any call. -/
def onPath {α : Type} (ns : List Text) (p : Prog Text UInt8 Errno α) : Prog Text UInt8 Stop α :=
  if nul ∈ absolute ns then .done (.error (.error (F.fileError .failed)))
  else p.mapErr fun e => .error (F.fileError e)

/-- `createDirectory(at:withIntermediateDirectories: true)` -/
def createDirectory (ns : List Text) : Prog Text UInt8 Stop Unit :=
  onPath F ns (createDirAll (pieces (absolute ns)))

/-- `Data.write(to:)` without options writes the file in place. -/
def writeData (ns : List Text) (data : Bytes) : Prog Text UInt8 Stop Unit :=
  onPath F ns (Prog.bind (create (pieces (absolute ns))) fun p => write p data)

def itemSize (path : Text) : Prog Text UInt8 Stop Int64 :=
  Prog.handle (load (pieces path)) fun
    | .ok data => .done (.ok (Int64.ofNat data.length))
    | .error _ => .done (.ok 0)

def backupsDirectory : List Text := F.documents ++ ["Backups".toList]

/-- The getter makes the directory when it is missing, and does not mind when
that fails. -/
def backupsDirectoryURL : Prog Text UInt8 Stop (List Text) :=
  .call (.fileExists (pieces (absolute (backupsDirectory F)))) fun (b : Bool) =>
    if b then .done (.ok (backupsDirectory F))
    else (createDirectory F (backupsDirectory F)).ignore.bind fun _ =>
      .done (.ok (backupsDirectory F))

end Files

/-- What a backup is started with: besides the arguments the two readings of
the clock and the identifier of the entry. -/
structure Order where
  bundleID : Text
  appName : Text
  version : Text
  started : Int
  finished : Int
  id : Nat

def relPath (F : Foundation) (o : Order) : Text :=
  o.bundleID ++ '_' :: replace ':' ['-'] (F.iso8601 o.started)

def backupDir (F : Foundation) (o : Order) : List Text := backupsDirectory F ++ [relPath F o]

def metadataFile (F : Foundation) (o : Order) : List Text :=
  backupDir F o ++ ["metadata.json".toList]

def readResponse (F : Foundation) (json : Text) : Except Text (Text × Bool) :=
  match jsonObject F.parseError json with
  | .error e => .error e
  | .ok none => .error "Missing zip_path in response".toList
  | .ok (some kvs) =>
    match stringAt kvs "zip_path".toList with
    | none => .error "Missing zip_path in response".toList
    | some zip => .ok (zip, decide (stringAt kvs "backup_type".toList = some "documents".toList))

def newEntry (F : Foundation) (o : Order) (size : Int64) (docs : Bool) : BackupEntry where
  id := o.id
  appName := o.appName
  bundleID := o.bundleID
  version := o.version
  date := o.finished
  totalSize := size
  relativePath := relPath F o
  isDocumentsOnly := docs

def writeEntry (F : Foundation) (o : Order) (docs : Bool) (size : Int64) :
    Prog Text UInt8 Stop Unit :=
  match F.encode (newEntry F o size docs) with
  | .error e => .done (.error (.error e))
  | .ok data => writeData F (metadataFile F o) data

def recordBackup (F : Foundation) (o : Order) (json : Text) : Prog Text UInt8 Stop Text :=
  match readResponse F json with
  | .error e => .done (.error (.error e))
  | .ok (zip, docs) =>
    (itemSize zip).bind fun size => (writeEntry F o docs size).bind fun _ => .done (.ok zip)

def backupApp (F : Foundation) (c : Crates) (fuel : Nat) (house : HouseArrest) (o : Order) :
    Prog Text UInt8 Stop Text :=
  (backupsDirectoryURL F).bind fun dir =>
    (createDirectory F (dir ++ [relPath F o])).bind fun _ =>
      (RustIdevice.backupApp F.parseError c fuel house o.bundleID
        (absolute (dir ++ [relPath F o]))).bind fun json => recordBackup F o json

def extractedDirectory (F : Foundation) (entry : BackupEntry) : List Text :=
  backupsDirectory F ++ [entry.relativePath, "extracted".toList]

def archiveFile (F : Foundation) (entry : BackupEntry) : List Text :=
  backupsDirectory F ++ [entry.relativePath, entry.bundleID ++ ".zip".toList]

def ensureExtracted (F : Foundation) (c : Crates) (entry : BackupEntry) :
    Prog Text UInt8 Stop (List Text) :=
  (backupsDirectoryURL F).bind fun _ =>
    .call (.fileExists (pieces (absolute (extractedDirectory F entry)))) fun (b : Bool) =>
      if b then .done (.ok (extractedDirectory F entry))
      else (extractZip F.parseError c (absolute (archiveFile F entry))
        (absolute (extractedDirectory F entry))).bind fun _ =>
          .done (.ok (extractedDirectory F entry))

end UnBoxer.BackupEngine
