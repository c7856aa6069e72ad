import UnBoxer.Instances
import UnBoxer.Restoring
import UnBoxer.Runs

namespace UnBoxer.Deletion

open UnBoxer.Trees UnBoxer.Programs UnBoxer.DirAll UnBoxer.PathText UnBoxer.Archives
open UnBoxer.TryBackup UnBoxer.BackupEngine UnBoxer.BackupPaths UnBoxer.ViewModel UnBoxer.Runs
open UnBoxer.Effects UnBoxer.ExtractionSteps UnBoxer.LatePoints UnBoxer.Restoring
open UnBoxer.Instances hiding backupEntry

/-- An extraction and a deletion of the same entry: what is left of the one, what
the other still does before it removes the directory, and the file system. -/
structure Race where
  extraction : Prog Text UInt8 Stop (List Text)
  deletion : Option (Prog Text UInt8 Stop (List Text))
  tree : Tree Text Bytes

inductive Turn where
  | extracts (fault : Option Nat)
  | prepares (fault : Option Nat)
  | removes

section Law

variable (F : Foundation) (c : Crates) (e : BackupEntry)

inductive Step : Race → Turn → Race → Prop
  | extracts {call : Call Text UInt8} {k : call.Reply → Prog Text UInt8 Stop (List Text)}
      {deletion : Option (Prog Text UInt8 Stop (List Text))} {t : Tree Text Bytes}
      (fault : Option Nat) :
      Step ⟨.call call k, deletion, t⟩ (.extracts fault)
        ⟨k (call.apply t fault).1, deletion, (call.apply t fault).2.1⟩
  | prepares {extraction : Prog Text UInt8 Stop (List Text)} {call : Call Text UInt8}
      {k : call.Reply → Prog Text UInt8 Stop (List Text)} {t : Tree Text Bytes}
      (fault : Option Nat) :
      Step ⟨extraction, some (.call call k), t⟩ (.prepares fault)
        ⟨extraction, some (k (call.apply t fault).1), (call.apply t fault).2.1⟩
  | removes {extraction : Prog Text UInt8 Stop (List Text)} {dir : List Text}
      {t t' : Tree Text Bytes} : removeItem (dir ++ [e.relativePath]) t = .ok t' →
      Step ⟨extraction, some (.done (.ok dir)), t⟩ .removes ⟨extraction, none, t'⟩

def start (t : Tree Text Bytes) : Race :=
  ⟨ensureExtracted F c e, some (backupsDirectoryURL F), t⟩

def removed : List Text := resolve [] (pieces (absolute (deletedDirectory F e)))

/-- The extraction is at a point after which it does not make the directory again. -/
def Late (s : Race) : Prop :=
  ∃ x, Position.prog F c e x = s.extraction ∧ Position.Late F c e (removed F e) x

def finished (s : Race) : Bool :=
  match s.extraction with
  | .done _ => s.deletion.isNone
  | .call _ _ => false

variable {F c e}

variable (F) in
/-- The deletion goes for the directory in `Backups`. -/
def Sound (s : Race) : Prop :=
  ∀ p, s.deletion = some p → ∀ r, Returns p r → r = .ok (backupsDirectory F)

theorem step_sound {s s' : Race} {m : Turn} (h : Sound F s) (hs : Step e s m s') :
    Sound F s' := by
  cases hs with
  | extracts fault => exact h
  | prepares fault =>
    intro p hp r hr
    obtain rfl := Option.some.inj hp
    exact h _ rfl r (.call _ hr)
  | removes _ => exact fun p hp => by cases hp

end Law

section Early

variable {F : Foundation} {c : Crates} {e : BackupEntry}

/-- The directory is back, or the extraction has not yet come to the point. -/
def Early (F : Foundation) (c : Crates) (e : BackupEntry) (s : Race) : Prop :=
  ∃ x, Position.prog F c e x = s.extraction ∧ Position.NamedAhead F c e s.tree x ∧
    (s.tree.node (home F e) ≠ none ∨
      Missing (backupsDirectory F) e.relativePath s.tree ∧ ¬ Position.Late F c e (home F e) x)

theorem Early.back {s : Race} (h : Early F c e s) (hdone : finished s = true) :
    s.tree.node (home F e) ≠ none := by
  obtain ⟨x, hx, _, hback | ⟨_, hearly⟩⟩ := h
  · exact hback
  · obtain ⟨r, rfl⟩ | ⟨call, k, hprog, _⟩ := follows F c e x
    · exact absurd trivial hearly
    · rw [finished, ← hx, hprog] at hdone
      cases hdone

end Early

section Example

theorem firstEntry_located : Located firstEntry := by
  constructor <;> decide +kernel

end Example

end UnBoxer.Deletion
