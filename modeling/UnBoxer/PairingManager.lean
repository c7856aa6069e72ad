import UnBoxer.Archives
import UnBoxer.Runs

namespace UnBoxer.PairingManager

open UnBoxer.PathText UnBoxer.Archives

/-- A value of a property list, as far as the pairing manager tells them apart. -/
inductive PlistValue where
  | string (s : Text)
  | other

inductive Plist where
  | dictionary (lookup : Text → Option PlistValue)
  | other

def asString : PlistValue → Option Text
  | .string s => some s
  | .other => none

def stringUnder (key : Text) (lookup : Text → Option PlistValue) : Option Text :=
  (lookup key).bind asString

structure Published where
  isPaired : Bool
  hostID : Option Text
  systemBUID : Option Text
  hasMissingKeys : Bool
  errorMessage : Option Text
  deriving DecidableEq

inductive Block where
  | parsed (hostID systemBUID : Option Text)
  | unparsed
  | stored
  | notStored
  | message (text : Text)

def Block.run (p : Published) : Block → Published
  | .parsed hostID systemBUID =>
    { p with hostID, systemBUID, hasMissingKeys := hostID.isNone || systemBUID.isNone }
  | .unparsed => { p with hasMissingKeys := true }
  | .stored => { p with isPaired := true, errorMessage := none }
  | .notStored =>
    { p with isPaired := false, hostID := none, systemBUID := none, hasMissingKeys := false }
  | .message text => { p with errorMessage := some text }

/-- The pairing manager with the file it stores and the blocks that still wait. -/
structure Manager where
  file : Option Bytes
  published : Published
  queue : List Block

def post (b : Block) (m : Manager) : Manager := { m with queue := m.queue ++ [b] }

/-- What will be published when the main queue has drained. -/
def drained (m : Manager) : Published := m.queue.foldl Block.run m.published

/-- The chosen URL: the one of the stored file itself, or of another file. -/
inductive Chosen where
  | stored
  | other (data : Bytes)

/-- How the file operations of one call come out. The attributes are `none` when
they cannot be read, and their size is when it is no number; a copy that fails
may leave something behind. -/
structure Outcome where
  accesses : Bool
  attributes : Option (Option Int)
  removes : Bool
  copies : Except (Option Bytes) Unit
  reads : Bool

def Chosen.content (file : Option Bytes) : Chosen → Option Bytes
  | .stored => file
  | .other data => some data

section Calls

variable (propertyList : Bytes → Option Plist)

/-- `parseFile`, where the bytes or the property list may turn out unreadable. -/
def parseFile (data : Bytes) (reads : Bool) (m : Manager) : Manager :=
  match if reads then propertyList data else none with
  | some (.dictionary lookup) =>
    post (.parsed (stringUnder "HostID".toList lookup) (stringUnder "SystemBUID".toList lookup)) m
  | some .other => m
  | none => post .unparsed m

def checkAndLoadFile (reads : Bool) (m : Manager) : Manager :=
  match m.file with
  | some data => post .stored (parseFile propertyList data reads m)
  | none => post .notStored m

def sizeMessage : Text := "Error: File size exceeds the 1 MB limit.".toList

def readMessage : Text := "Error: Failed to read the selected file.".toList

def attributesOfItem (u : Chosen) (o : Outcome) (file : Option Bytes) : Option (Option Int) :=
  if (u.content file).isSome then o.attributes else none

def removesStored (o : Outcome) (file : Option Bytes) : Bool := !file.isSome || o.removes

/-- The copy to the place of the stored file, where nothing is left: what it
stores, or what it leaves there when it fails. -/
def copyItem (u : Chosen) (o : Outcome) : Except (Option Bytes) Bytes :=
  match u.content none, o.copies with
  | none, _ => .error none
  | some data, .ok () => .ok data
  | some _, .error left => .error left

/-- What `importFile` does once the attributes have been read and the size is right. -/
def replaceFile (u : Chosen) (o : Outcome) (m : Manager) : Manager :=
  if removesStored o m.file then
    match copyItem u o with
    | .ok data => checkAndLoadFile propertyList o.reads { m with file := some data }
    | .error left => post (.message readMessage) { m with file := left }
  else post (.message readMessage) m

def importFile (u : Chosen) (o : Outcome) (m : Manager) : Manager :=
  if o.accesses then
    match attributesOfItem u o m.file with
    | none => post (.message readMessage) m
    | some size =>
      if size.any (fun n => decide (n > 1048576)) then post (.message sizeMessage) m
      else replaceFile propertyList u o m
  else m

def deleteFile (o : Outcome) (m : Manager) : Manager :=
  if removesStored o m.file then checkAndLoadFile propertyList o.reads { m with file := none }
  else m

end Calls

theorem drained_post (b : Block) (m : Manager) : drained (post b m) = b.run (drained m) := by
  simp [drained, post]

@[simp] theorem file_post (b : Block) (m : Manager) : (post b m).file = m.file := rfl

/-- The import gets as far as the copy. -/
def Replaces (u : Chosen) (o : Outcome) (file : Option Bytes) : Prop :=
  o.accesses = true ∧ (∃ size, attributesOfItem u o file = some size ∧ ∀ n ∈ size, n ≤ 1048576) ∧
    removesStored o file = true

section Calls

variable {propertyList : Bytes → Option Plist} {u : Chosen} {o : Outcome} {m : Manager}

theorem importFile_early (h : ¬ Replaces u o m.file) :
    importFile propertyList u o m = m ∨
      ∃ text, importFile propertyList u o m = post (.message text) m := by
  unfold importFile
  by_cases ha : o.accesses = true
  · rw [if_pos ha]
    cases hs : attributesOfItem u o m.file with
    | none => exact .inr ⟨_, rfl⟩
    | some size =>
      dsimp only
      by_cases hn : size.any (fun n => decide (n > 1048576)) = true
      · rw [if_pos hn]
        exact .inr ⟨_, rfl⟩
      · rw [if_neg hn]
        have hsize : ∀ n ∈ size, n ≤ 1048576 := by
          intro n hm
          obtain rfl := Option.mem_def.mp hm
          simpa using hn
        unfold replaceFile
        rw [if_neg fun hr => h ⟨ha, ⟨size, hs, hsize⟩, hr⟩]
        exact .inr ⟨_, rfl⟩
  · rw [if_neg ha]
    exact .inl rfl

theorem importFile_replaces (h : Replaces u o m.file) : importFile propertyList u o m =
    match copyItem u o with
    | .ok data => checkAndLoadFile propertyList o.reads { m with file := some data }
    | .error left => post (.message readMessage) { m with file := left } := by
  obtain ⟨ha, ⟨size, hs, hsize⟩, hr⟩ := h
  have hn : ¬ size.any (fun n => decide (n > 1048576)) = true := by
    cases size with
    | none => simp
    | some n =>
      have hle := hsize n rfl
      simpa using hle
  unfold importFile replaceFile
  rw [if_pos ha, hs]
  dsimp only
  rw [if_neg hn, if_pos hr]

theorem checkAndLoadFile_file (reads : Bool) :
    (checkAndLoadFile propertyList reads m).file = m.file := by
  unfold checkAndLoadFile parseFile
  split
  · rw [file_post]
    split <;> rfl
  · rfl

end Calls

end UnBoxer.PairingManager
