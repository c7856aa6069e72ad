import UnBoxer.BackupEngine

namespace UnBoxer.BackupPaths

open UnBoxer.Trees UnBoxer.Programs UnBoxer.DirAll UnBoxer.PathText UnBoxer.Archives
open UnBoxer.TryBackup UnBoxer.RustIdevice UnBoxer.BackupEngine

theorem pieces_absolute {ns : List Text} (h : ∀ n ∈ ns, FileName n) :
    pieces (absolute ns) = ns.map .down := by
  have hs : absolute ns = [] ++ '/' :: path ns := rfl
  rw [hs, pieces_append, pieces_nil, List.nil_append, pieces_path fun n hn => (h n hn).1]

theorem nul_path {ns : List Text} (h : ∀ n ∈ ns, nul ∉ n) : nul ∉ path ns := by
  induction ns using List.reverseRecOn with
  | nil => simp [path, List.intercalate]
  | append_singleton ns n ih =>
    have hn := h n (by simp)
    have hns := ih fun m hm => h m (by simp [hm])
    by_cases he : ns = []
    · subst he
      simpa [path, List.intercalate] using hn
    · have hs : nul ≠ '/' := by decide
      rw [path_concat he]
      simp [hns, hn, hs]

theorem nul_absolute {ns : List Text} (h : ∀ n ∈ ns, FileName n) : nul ∉ absolute ns := by
  have hs : nul ≠ '/' := by decide
  have hp := nul_path fun n hn => (h n hn).2
  simp [absolute, hs, hp]

theorem fromPtr_absolute {ns : List Text} (h : ∀ n ∈ ns, FileName n) :
    fromPtr (absolute ns) = absolute ns := fromPtr_self (nul_absolute h)

theorem fileName_backups (F : Foundation) : ∀ n ∈ backupsDirectory F, FileName n := by
  intro n hn
  obtain h | h := List.mem_append.mp hn
  · exact F.legal n h
  · obtain rfl := List.mem_singleton.mp h
    decide

/-- An entry whose backup has a directory and an archive in the Backups directory. -/
structure Located (e : BackupEntry) : Prop where
  directory : FileName e.relativePath
  archive : FileName (e.bundleID ++ ".zip".toList)

theorem fileName_below (F : Foundation) {e : BackupEntry} (h : Located e) {n : Text}
    (hn : FileName n) : ∀ m ∈ backupsDirectory F ++ [e.relativePath, n], FileName m := by
  intro m hm
  obtain hm | hm := List.mem_append.mp hm
  · exact fileName_backups F m hm
  · obtain rfl | rfl := List.mem_pair.mp hm
    · exact h.directory
    · exact hn

theorem fileName_extracted (F : Foundation) {e : BackupEntry} (h : Located e) :
    ∀ m ∈ extractedDirectory F e, FileName m := fileName_below F h (by decide)

theorem fileName_archive (F : Foundation) {e : BackupEntry} (h : Located e) :
    ∀ m ∈ archiveFile F e, FileName m := fileName_below F h h.archive

theorem parent_downs (ns : List Text) : parent (ns.map Piece.down) = ns.dropLast.map .down := by
  have hall : components (ns.map Piece.down) = ns.map .down := List.filter_eq_self.mpr (by simp)
  rw [parent, hall, List.map_dropLast]

theorem resolve_names {ns : List Text} {qs : List (Piece Text)} (h : qs <+: ns.map .down) :
    resolve [] qs <+: ns := by
  obtain ⟨ms, hms, rfl⟩ := List.prefix_map_iff.mp h
  rwa [resolve_down]

theorem attempt_downs {ns : List Text} {qs : List (Piece Text)}
    (h : Attempt (ns.map Piece.down) qs) : resolve [] qs <+: ns := by
  apply resolve_names
  obtain rfl | h := h
  · exact List.prefix_refl _
  · rw [parent_downs, List.map_dropLast] at h
    exact h.trans (List.dropLast_prefix _)

def Led (ns : List Text) : Disk Text UInt8 → Disk Text UInt8 → Prop :=
  Grown fun qs => resolve [] qs <+: ns

theorem exec_fileExists (ps : List (Piece Text)) (d : Disk Text UInt8) :
    Call.exec (.fileExists ps) d = (d.tree.present ps, { d with faults := d.faults.tail }) := by
  simp only [Call.exec, Call.apply, List.append_nil]

theorem createDirectory_spec (F : Foundation) {ns : List Text} (h : ∀ n ∈ ns, FileName n)
    (d : Disk Text UInt8) :
    Triple (Led ns d) (createDirectory F ns)
      (fun _ d' => Led ns d d' ∧ d'.tree.node ns = some .dir) (fun _ => Led ns d) := by
  unfold createDirectory onPath
  rw [if_neg (nul_absolute h), pieces_absolute h]
  refine Triple.mapErr ((createDirAll_spec fun qs hqs => attempt_downs hqs).weaken
    (fun _ h => h) (fun _ d' h => ⟨h.1, ?_⟩) (fun _ _ h => h))
  have hd := h.2.dir
  rwa [resolve_down] at hd

theorem backupsDirectoryURL_spec (F : Foundation) (d : Disk Text UInt8) :
    Triple (· = d) (backupsDirectoryURL F)
      (fun dir d' => dir = backupsDirectory F ∧ Led (backupsDirectory F) d d' ∧
        (d.tree.node (backupsDirectory F) ≠ none → d'.tree = d.tree))
      (fun _ _ => False) := by
  have hB := fileName_backups F
  rintro d rfl
  unfold backupsDirectoryURL
  rw [run_call, exec_fileExists, pieces_absolute hB]
  have hp := d.tree.present_downs (backupsDirectory F)
  cases hb : d.tree.present ((backupsDirectory F).map .down) with
  | true => exact ⟨rfl, .of_same rfl rfl, fun _ => rfl⟩
  | false =>
    have hn : d.tree.node (backupsDirectory F) = none := by simpa [hb] using hp
    have hmake : Triple (Led (backupsDirectory F) d)
        (createDirectory F (backupsDirectory F)).ignore (fun _ => Led (backupsDirectory F) d)
        (fun (_ : Stop) _ => False) :=
      Triple.ignore ((createDirectory_spec F hB d).weaken (fun _ h => h) (fun _ _ h => h.1)
        (fun _ _ h => h))
    refine (hmake.bind fun _ => Triple.ok fun d' h => ?_) _ (.of_same rfl rfl)
    exact ⟨rfl, h, fun hne => absurd hn hne⟩

end UnBoxer.BackupPaths
