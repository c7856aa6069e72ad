import UnBoxer.BackupWalk
import UnBoxer.Effects

namespace UnBoxer.BackupWrites

open UnBoxer.Trees UnBoxer.Programs UnBoxer.Effects UnBoxer.PathText UnBoxer.Archives
open UnBoxer.TryBackup UnBoxer.BackupWalk

def Writes (h : List Text) (a : Call Text UInt8) : Prop := ∃ data, a = .write h data

section Writer

variable (c : Crates) (h : List Text)

theorem write_only (data : Bytes) : Only (Writes h) (write h data) :=
  .call ⟨data, rfl⟩ fun _ => .done _

theorem zipCall_only (w : Walk) (z : ZipCall) (what : Text) (error : Errno → Text) :
    Only (Writes h) (zipCall c h w z what error) := by
  unfold zipCall
  split
  · exact .done _
  · apply (write_only h _).handle
    rintro (e | u) <;> exact .done _

theorem copyFile_only (full : Text) (w : Walk) (reads : List (Except Text Bytes)) :
    Only (Writes h) (copyFile c h full w reads) := by
  induction reads generalizing w with
  | nil => exact .done _
  | cons r reads ih =>
    cases r with
    | error e => exact .done _
    | ok buf =>
      unfold copyFile
      split
      · exact .done _
      · exact (zipCall_only c h _ _ _ _).bind fun w => ih w

theorem backupFile_only (afc : Afc) (full : Text) (w : Walk) :
    Only (Writes h) (backupFile c h afc full w) := by
  unfold backupFile
  cases afc.openFile w.requests full with
  | error e =>
    dsimp only
    split <;> exact .done _
  | ok reads => exact (zipCall_only c h _ _ _ _).bind fun w => copyFile_only c h full w reads

theorem backupKind_only (afc : Afc) (full : Text) (w : Walk) (fmt : Text) :
    Only (Writes h) (backupKind c h afc full w fmt) := by
  unfold backupKind
  split
  · exact (zipCall_only c h _ _ _ _).bind fun _ => .done _
  split
  · exact backupFile_only c h afc full w
  · exact .done _

theorem backupEntry_only (afc : Afc) (dir : Text) (w : Walk) (entry : Text) :
    Only (Writes h) (backupEntry c h afc dir w entry) := by
  unfold backupEntry
  split
  · exact .done _
  unfold backupNode
  cases afc.getFileInfo w.requests (fullPath dir entry) with
  | error e =>
    dsimp only
    split <;> exact .done _
  | ok fmt => exact backupKind_only c h afc _ _ fmt

theorem backupListing_only (afc : Afc) (dir : Text) (w : Walk) :
    Only (Writes h) (backupListing c h afc dir w) := by
  unfold backupListing
  cases afc.listDir w.requests dir with
  | error e =>
    dsimp only
    split <;> exact .done _
  | ok entries => exact .fold (backupEntry_only c h afc dir) _ entries

theorem backupLoop_only (afc : Afc) (fuel : Nat) (w : Walk) :
    Only (Writes h) (backupLoop c h afc fuel w) := by
  induction fuel generalizing w with
  | zero => exact .done _
  | succ fuel ih =>
    unfold backupLoop
    split
    · exact .done _
    · exact (backupListing_only c h afc _ _).bind ih

theorem backupInto_only (fuel : Nat) (afc : Afc) (backupType zip : Text) :
    Only (Writes h) (backupInto c fuel afc backupType zip h) := by
  have harch : Only (Writes h) (backupArchive c h afc fuel) :=
    (backupLoop_only c h afc fuel start).bind fun _ => zipCall_only c h _ _ _ _
  refine harch.handle fun r => ?_
  cases r with
  | ok w => exact .done _
  | error halt =>
    obtain ⟨stop, w⟩ := halt
    cases stop with
    | error e => exact (write_only h _).ignore.bind fun _ => .done _
    | _ => exact .done _

end Writer

theorem writes_same {c : Call Text UInt8} {h : List Text} (hc : Writes h c) (q : List Text)
    (hq : place c = some q) : q = h := by
  obtain ⟨data, rfl⟩ := hc
  exact (Option.some.inj hq).symm

theorem exec_write_file {ps : List (Piece Text)} {c : Call Text UInt8}
    (hc : Writes (resolve [] ps) c) (d : Disk Text UInt8) (hd : HasFile ps d) :
    HasFile ps (c.exec d).2 := by
  obtain ⟨data, rfl⟩ := hc
  obtain ⟨b, hb⟩ := hd
  unfold Call.exec
  cases d.faults.head?.join <;> exact ⟨_, Tree.read_modify hb _⟩

/-- The archive is there at the end of every attempt to fill it, and nothing else
has changed. -/
theorem backupInto_frame (c : Crates) (fuel : Nat) (afc : Afc) (backupType zip : Text)
    (ps : List (Piece Text)) (d : Disk Text UInt8) :
    Triple (fun d' => HasFile ps d' ∧ Same (· = resolve [] ps) d d')
      (backupInto c fuel afc backupType zip (resolve [] ps))
      (fun _ d' => HasFile ps d' ∧ Same (· = resolve [] ps) d d')
      (fun _ d' => HasFile ps d' ∧ Same (· = resolve [] ps) d d') := by
  refine (backupInto_only c (resolve [] ps) fuel afc backupType zip).triple fun a ha d' hd => ?_
  refine ⟨exec_write_file ha d' hd.1, fun q hq => ?_⟩
  exact (exec_elsewhere a d' fun h => hq (writes_same ha q h)).trans (hd.2 q hq)

end UnBoxer.BackupWrites
