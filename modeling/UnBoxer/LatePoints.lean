import UnBoxer.Effects
import UnBoxer.ExtractionSteps

namespace UnBoxer.LatePoints

open UnBoxer.Trees UnBoxer.Programs UnBoxer.DirAll UnBoxer.DirAllSteps UnBoxer.PathText
open UnBoxer.Archives UnBoxer.TryExtract UnBoxer.BackupEngine UnBoxer.Effects
open UnBoxer.ExtractionSteps

section Calls

variable {Name γ : Type} [DecidableEq Name] {t : Tree Name (List γ)} {ps : List (Piece Name)}

end Calls

section Points

variable (F : Foundation) (c : Crates) (e : BackupEntry) (dir : List Text)

def Through (ps : List (Piece Text)) : Prop := ∃ qs, qs <+: ps ∧ resolve [] qs = dir

def Crosses (ps : List (Piece Text)) : Prop := ∃ k, resolve [] (level ps k) = dir

/-- Extracting the entry would make the directory, or a file in its place. -/
def Touches (r : Record) : Prop :=
  if c.isDir r.name then Crosses dir (target (outputDir F e) r.name)
  else Crosses dir (DirAll.parent (target (outputDir F e) r.name)) ∨
    resolve [] (target (outputDir F e) r.name) = dir

def Spares (rest : List (Record × Nat)) : Prop := ∀ x ∈ rest, ¬ Touches F c e dir x.1

def Job.FailsLate : Job → Prop
  | .backups => False
  | .output => True
  | .directory _ rest => Spares F c e dir rest
  | .parent _ _ => True

def Job.SucceedsLate : Job → Prop
  | .backups => False
  | .output => False
  | .directory r rest => ¬ Crosses dir (target (outputDir F e) r.name) ∧ Spares F c e dir rest
  | .parent r rest => ¬ Crosses dir (DirAll.parent (target (outputDir F e) r.name)) ∧
      resolve [] (target (outputDir F e) r.name) ≠ dir ∧ Spares F c e dir rest

/-- The points of the extraction after which it does not make the directory any more once that is
removed: what is to come passes it by, or the call that comes next needs it and fails, and so does
the extraction, or at least the entry. -/
def Point.Late : Point → Prop
  | .looking => False
  | .asking => False
  | .opening => Through dir (archivePath F e).dropLast
  | .reading data => ∀ rs, c.parse data = .ok rs → Spares F c e dir rs.zipIdx
  | .entry r i rest => Spares F c e dir ((r, i) :: rest)
  | .creating r rest => Through dir (target (outputDir F e) r.name).dropLast ∨
      resolve [] (target (outputDir F e) r.name) ≠ dir ∧ Spares F c e dir rest
  | .writing _ _ rest => Spares F c e dir rest
  | .closing _ rest => Spares F c e dir rest
  | .ended _ => True

/-- In `create_dir_all` it is late when the directory is not on the path, or when a directory in it
is up next: on the way down, or when it is asked whether it is there. -/
def Position.Late : Position → Prop
  | .at p => Point.Late F c e dir p
  | .making j (.climb _) => Job.SucceedsLate F c e dir j
  | .making j (.check k _) => Job.SucceedsLate F c e dir j ∨
      Through dir (level (j.path F e) k) ∧ Job.FailsLate F c e dir j
  | .making j (.descend k) => Job.SucceedsLate F c e dir j ∨
      Through dir (level (j.path F e) k).dropLast ∧ Job.FailsLate F c e dir j

variable {F c e dir}

theorem Through.closed {t : Tree Text Bytes} {ps : List (Piece Text)} (h : Through dir ps)
    (hgone : t.node dir = none) : ¬ t.Open [] ps := by
  obtain ⟨qs, hqs, rfl⟩ := h
  intro ho
  rw [ho qs hqs] at hgone
  cases hgone

end Points

end UnBoxer.LatePoints
