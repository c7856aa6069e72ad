import UnBoxer.BackupEngine
import Mathlib.Data.List.Sort

namespace UnBoxer.ViewModel

open UnBoxer.Trees UnBoxer.PathText UnBoxer.Archives UnBoxer.RustIdevice UnBoxer.TryBackup
open UnBoxer.BackupEngine

structure FileItem where
  url : List Text
  name : Text
  isDirectory : Bool
  size : Int64
  modificationDate : Int
  deriving DecidableEq

structure ResourceValues where
  isDirectory : Option Bool
  fileSize : Option Int64
  contentModificationDate : Option Int

/-- What the view model asks the file manager and Foundation for: the names in a
directory, the bytes of a file and the values of an item (`none` when it throws),
whether a name stands before another one, and the time. -/
structure FileManager where
  contentsOfDirectory : List Text → Option (List Text)
  contents : List Text → Option Bytes
  resourceValues : List Text → Option ResourceValues
  ascending : Text → Text → Bool
  date : Int

structure BackupViewModel where
  backups : List BackupEntry
  selectedBackup : Option BackupEntry
  currentDirectory : Option (List Text)
  directoryContents : List FileItem
  isExtracting : Bool
  extractError : Option Stop

/-- `sorted`, which keeps the order of elements of which none is before the other. -/
def sorted {α : Type} (before : α → α → Bool) (xs : List α) : List α :=
  xs.insertionSort fun a b => before b a = false

section Contents

variable (fm : FileManager)

def fileItem (url : List Text) : Option FileItem :=
  (fm.resourceValues url).map fun r =>
    ⟨url, url.getLast?.getD [], r.isDirectory.getD false, r.fileSize.getD 0,
      r.contentModificationDate.getD fm.date⟩

def itemBefore (a b : FileItem) : Bool :=
  if a.isDirectory ≠ b.isDirectory then a.isDirectory else fm.ascending a.name b.name

/-- What `loadContents` shows of a directory. -/
def listing (url : List Text) : List FileItem :=
  match fm.contentsOfDirectory url with
  | none => []
  | some names => sorted (itemBefore fm) (names.filterMap fun n => fileItem fm (url ++ [n]))

def loadContents (url : List Text) (m : BackupViewModel) : BackupViewModel :=
  { m with directoryContents := listing fm url }

/-- What `selectBackup` does once the extraction has ended. -/
def selectBackup (e : BackupEntry) (extracted : Except Stop (List Text)) (m : BackupViewModel) :
    BackupViewModel :=
  let m := { m with selectedBackup := some e, isExtracting := true, extractError := none }
  match extracted with
  | .ok dir =>
    { loadContents fm dir { m with currentDirectory := some dir } with isExtracting := false }
  | .error stop => { m with extractError := some stop, isExtracting := false }

def clearExtraction (m : BackupViewModel) : BackupViewModel :=
  { m with selectedBackup := none, currentDirectory := none, directoryContents := [],
           extractError := none, isExtracting := false }

def enterDirectory (url : List Text) (m : BackupViewModel) : BackupViewModel :=
  loadContents fm url { m with currentDirectory := some url }

/-- Appending the empty path component leaves a URL as it is. -/
def expectedExtracted (F : Foundation) (m : BackupViewModel) : List Text :=
  backupsDirectory F ++ (m.selectedBackup.map fun e => e.relativePath).toList ++
    ["extracted".toList]

def goBack (F : Foundation) (m : BackupViewModel) : BackupViewModel :=
  match m.currentDirectory with
  | none => m
  | some current =>
    if current.dropLast = expectedExtracted F m ∨ current.dropLast = backupsDirectory F then
      clearExtraction m
    else loadContents fm current.dropLast { m with currentDirectory := some current.dropLast }

end Contents

section Backups

variable (F : Foundation) (fm : FileManager)

def entryIn (n : Text) : Option BackupEntry :=
  (fm.contents (backupsDirectory F ++ [n] ++ ["metadata.json".toList])).bind F.decode

def loadBackups (m : BackupViewModel) : BackupViewModel :=
  match fm.contentsOfDirectory (backupsDirectory F) with
  | none => m
  | some names =>
    { m with backups := sorted (fun a b => decide (b.date < a.date)) (names.filterMap (entryIn F fm)) }

def removeItem (ns : List Text) (t : Tree Text Bytes) : Except Errno (Tree Text Bytes) :=
  if nul ∈ absolute ns then .error .failed else t.removeAll (pieces (absolute ns))

def deletedDirectory (e : BackupEntry) : List Text := backupsDirectory F ++ [e.relativePath]

/-- What `deleteBackup` does once it has tried to remove the directory. -/
def deleteBackup (e : BackupEntry) (m : BackupViewModel) : BackupViewModel :=
  loadBackups F fm (if m.selectedBackup.map BackupEntry.id = some e.id then clearExtraction m else m)

theorem sorted_perm {α : Type} (before : α → α → Bool) (xs : List α) :
    (sorted before xs).Perm xs := List.perm_insertionSort _ xs

theorem sorted_date (es : List BackupEntry) :
    (sorted (fun a b => decide (b.date < a.date)) es).Pairwise fun a b => b.date ≤ a.date := by
  let before (a b : BackupEntry) : Prop := decide (a.date < b.date) = false
  have hbefore : ∀ a b, before a b ↔ b.date ≤ a.date := by simp [before]
  have : Std.Total before := ⟨fun a b => by
    rw [hbefore, hbefore]
    omega⟩
  have : IsTrans BackupEntry before := ⟨fun a b c hab hbc => by
    rw [hbefore] at hab hbc ⊢
    omega⟩
  exact (List.pairwise_insertionSort before es).imp fun {a b} h => (hbefore a b).mp h

end Backups

section Contents

variable (fm : FileManager)

theorem listing_url {url : List Text} {item : FileItem} (h : item ∈ listing fm url) :
    ∃ n, item.url = url ++ [n] := by
  unfold listing at h
  split at h
  · cases h
  · have hm := (List.mem_insertionSort _).mp h
    obtain ⟨n, _, hi⟩ := List.mem_filterMap.mp hm
    obtain ⟨r, _, rfl⟩ := Option.map_eq_some_iff.mp hi
    exact ⟨n, rfl⟩

end Contents

end UnBoxer.ViewModel
