import UnBoxer.BackupFrame

namespace UnBoxer.FailedBackup

open UnBoxer.Trees UnBoxer.Programs UnBoxer.DirAll UnBoxer.Effects UnBoxer.PathText
open UnBoxer.Archives UnBoxer.TryBackup UnBoxer.RustIdevice UnBoxer.BackupEngine
open UnBoxer.BackupPaths UnBoxer.BackupFrame UnBoxer.Instances

def Around (F : Foundation) (o : Order) (d d' : Disk Text UInt8) : Prop :=
  ∀ q, q ≠ zipFile F o → q ≠ metadataFile F o → d'.tree.node q = d.tree.node q ∨
    (q <+: backupDir F o ∧ d.tree.node q = none ∧ d'.tree.node q = some .dir)

/-- What a backup that succeeds leaves on the disk. -/
structure Finished (F : Foundation) (house : HouseArrest) (o : Order) (d d' : Disk Text UInt8) :
    Prop where
  named : nul ∉ o.bundleID
  vended : (vend house o.bundleID).isOk
  around : Around F o d d'
  archive : ∃ data, d'.tree.node (zipFile F o) = some (.file data)
  recorded : Recorded F o d'

/-- What a backup that fails leaves on the disk. -/
structure Abandoned (F : Foundation) (house : HouseArrest) (o : Order) (d d' : Disk Text UInt8) :
    Prop where
  around : Around F o d d'
  archive : d'.tree.node (zipFile F o) = d.tree.node (zipFile F o) ∨
    ∃ data, d'.tree.node (zipFile F o) = some (.file data)
  metadata : d'.tree.node (metadataFile F o) = d.tree.node (metadataFile F o) ∨ Torn F o d'
  refused : (vend house o.bundleID).isOk = false →
    d'.tree.node (zipFile F o) = d.tree.node (zipFile F o) ∧
    d'.tree.node (metadataFile F o) = d.tree.node (metadataFile F o)

section Outcome

variable {F : Foundation} {o : Order} {c : Crates} {fuel : Nat} {house : HouseArrest}
  {d d' d'' : Disk Text UInt8}

theorem led_node {ns q : List Text} (h : Led ns d d') : d'.tree.node q = d.tree.node q ∨
    (q <+: ns ∧ d.tree.node q = none ∧ d'.tree.node q = some .dir) := by
  obtain ⟨new, _, hnode, hnew⟩ := h
  by_cases hq : q ∈ new
  · obtain ⟨hn, qs, n, hA, rfl, _⟩ := hnew q hq
    exact .inr ⟨hA, hn, by rw [hnode, if_pos hq]⟩
  · exact .inl (by rw [hnode, if_neg hq])

theorem led_below (h : Led (backupDir F o) d d') (n : Text) :
    d'.tree.node (backupDir F o ++ [n]) = d.tree.node (backupDir F o ++ [n]) := by
  obtain h | ⟨hq, _⟩ := led_node (q := backupDir F o ++ [n]) h
  · exact h
  · have hlen := hq.length_le
    rw [List.length_append, List.length_singleton] at hlen
    omega

theorem abandoned_led (h : Led (backupDir F o) d d') : Abandoned F house o d d' where
  around _ _ _ := led_node h
  archive := .inl (led_below h _)
  metadata := .inl (led_below h _)
  refused _ := ⟨led_below h _, led_below h _⟩

theorem around_zipped (h : Zipped F o d d') : Around F o d d' ∧
    d'.tree.node (metadataFile F o) = d.tree.node (metadataFile F o) := by
  obtain ⟨d₁, hled, hsame, _⟩ := h
  constructor
  · intro q hz _
    rw [hsame q hz]
    exact led_node hled
  · rw [hsame _ zipFile_ne.symm]
    exact led_below hled _

theorem abandoned_tried (h : Tried F house o d d') : Abandoned F house o d d' := by
  obtain h | ⟨hv, h⟩ := h
  · exact abandoned_led h
  · obtain ⟨haround, hmeta⟩ := around_zipped h
    obtain ⟨_, _, _, hfile⟩ := h
    exact ⟨haround, .inr hfile, .inl hmeta, fun hr => by rw [hv] at hr; cases hr⟩

theorem around_recorded (h : Zipped F o d d') (hsame : Same (· = metadataFile F o) d' d'') :
    Around F o d d'' ∧ ∃ data, d''.tree.node (zipFile F o) = some (.file data) := by
  obtain ⟨haround, _⟩ := around_zipped h
  obtain ⟨_, _, _, data, hfile⟩ := h
  constructor
  · intro q hz hm
    rw [hsame q hm]
    exact haround q hz hm
  · exact ⟨data, (hsame _ zipFile_ne).trans hfile⟩

theorem abandoned_recorded (hv : (vend house o.bundleID).isOk)
    (h : Zipped F o d d') (hsame : Same (· = metadataFile F o) d' d'')
    (hm : d''.tree.node (metadataFile F o) = d'.tree.node (metadataFile F o) ∨ Torn F o d'') :
    Abandoned F house o d d'' := by
  obtain ⟨haround, hfile⟩ := around_recorded h hsame
  obtain ⟨_, hmeta⟩ := around_zipped h
  exact ⟨haround, .inr hfile, hm.imp_left fun hm => hm.trans hmeta,
    fun hr => by rw [hv] at hr; cases hr⟩

theorem mem_path {ns : List Text} {n : Text} {x : Char} (hne : ns ≠ []) (hx : x ∈ n) :
    x ∈ absolute (ns ++ [n]) := by
  unfold absolute
  rw [path_concat hne]
  simp [hx]

theorem backupsDirectory_ne : backupsDirectory F ≠ [] := by simp [backupsDirectory]

theorem createDirectory_nul (hn : nul ∈ o.bundleID) :
    createDirectory F (backupDir F o) = .done (.error (.error (F.fileError .failed))) := by
  have hrel : nul ∈ relPath F o := List.mem_append_left _ hn
  unfold createDirectory onPath backupDir
  rw [if_pos (mem_path backupsDirectory_ne hrel)]

/-- What a backup does to the disk, whatever its bundle identifier is and
wherever it fails. -/
theorem backupApp_spec (hF : F.Documented) (hs : '/' ∉ o.bundleID) (d : Disk Text UInt8) :
    Triple (· = d) (BackupEngine.backupApp F c fuel house o)
      (fun zip d' => pieces zip = (zipFile F o).map .down ∧ Finished F house o d d')
      (fun _ => Abandoned F house o d) := by
  have hstart : Triple (· = d) (backupsDirectoryURL F)
      (fun dir d' => dir = backupsDirectory F ∧ Led (backupDir F o) d d')
      (fun _ => Abandoned F house o d) :=
    (backupsDirectoryURL_spec F d).weaken (fun _ h => h)
      (fun _ _ h => ⟨h.1, h.2.1.mono fun _ hqs => hqs.trans (List.prefix_append _ _)⟩)
      (fun _ _ h => h.elim)
  suffices hrest : Triple (Led (backupDir F o) d)
      ((createDirectory F (backupDir F o)).bind fun _ =>
        (RustIdevice.backupApp F.parseError c fuel house o.bundleID (absolute (backupDir F o))).bind
          fun json => recordBackup F o json)
      (fun zip d' => pieces zip = (zipFile F o).map .down ∧ Finished F house o d d')
      (fun _ => Abandoned F house o d) by
    refine hstart.bind fun dir => ?_
    rintro d₁ ⟨rfl, hled⟩
    exact hrest d₁ hled
  by_cases hn : nul ∈ o.bundleID
  · rw [createDirectory_nul hn]
    exact Triple.error fun _ h => abandoned_led h
  have hmake : Triple (Led (backupDir F o) d) (createDirectory F (backupDir F o))
      (fun _ => Led (backupDir F o) d) (fun _ => Abandoned F house o d) :=
    (createDirectory_spec F (fileName_backupDir hF hs hn) d).weaken (fun _ h => h)
      (fun _ _ h => h.1) (fun _ _ h => abandoned_led h)
  have hcall := (@bridge_frame F o c fuel house hF hs hn d).weaken
    (fun _ h => h) (fun _ _ h => h) (fun _ _ h => abandoned_tried h)
  refine hmake.bind fun _ => hcall.bind fun json => Triple.each ?_
  rintro d₂ ⟨hv, hzip, docs, hread⟩
  refine (recordBackup_frame hF hs hn hread d₂).weaken (fun _ h => by rw [h]) ?_ ?_
  · rintro zip d' ⟨rfl, hsame, hrec⟩
    obtain ⟨haround, hfile⟩ := around_recorded hzip hsame
    exact ⟨pieces_zipPath hF hs hn, hn, hv, haround, hfile, hrec⟩
  · rintro stop d' ⟨hsame, hm⟩
    exact abandoned_recorded hv hzip hsame hm

/-- A backup that throws removes nothing, and what it leaves behind is in a directory
of its own, where no entry has appeared. -/
theorem backupApp_throws (hF : F.Documented) (hs : '/' ∉ o.bundleID) {stop : Stop}
    (h : ((BackupEngine.backupApp F c fuel house o).run d).1 = .error stop) :
    Abandoned F house o d ((BackupEngine.backupApp F c fuel house o).run d).2 :=
  (backupApp_spec hF hs d).of_error rfl h

end Outcome

section Example

theorem backupApp_throws_unreachable :
    Abandoned foundation (unreachable ['x']) secondOrder firstBackup
      ((BackupEngine.backupApp foundation crates 1 (unreachable ['x']) secondOrder).run
        firstBackup).2 := by
  have h : ((BackupEngine.backupApp foundation crates 1 (unreachable ['x']) secondOrder).run
      firstBackup).1 = .error (.error "house_arrest connect: x".toList) := by decide +kernel
  exact backupApp_throws foundation_documented (by decide) h

/-- A backup of an app whose device is not reached leaves an empty directory. -/
theorem failed_backup_leaves_directory :
    ((BackupEngine.backupApp foundation crates 1 (unreachable ['x']) secondOrder).run firstBackup).1 =
      .error (.error "house_arrest connect: x".toList) ∧
    ¬ ∀ q, backupsDirectory foundation <+: q →
      ((BackupEngine.backupApp foundation crates 1 (unreachable ['x']) secondOrder).run
        firstBackup).2.tree.node q = firstBackup.tree.node q := by
  have hafter : ((BackupEngine.backupApp foundation crates 1 (unreachable ['x']) secondOrder).run
      firstBackup).2.tree.node (backupDir foundation secondOrder) = some .dir := by decide +kernel
  have hbefore : firstBackup.tree.node (backupDir foundation secondOrder) = none := by
    decide +kernel
  refine ⟨by decide +kernel, fun h => ?_⟩
  have hsame := h (backupDir foundation secondOrder) (List.prefix_append _ _)
  rw [hbefore, hafter] at hsame
  cases hsame

end Example

end UnBoxer.FailedBackup
