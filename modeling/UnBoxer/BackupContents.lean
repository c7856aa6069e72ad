import UnBoxer.BackupLoop
import UnBoxer.Effects
import UnBoxer.DeviceTables
import UnBoxer.Instances

namespace UnBoxer.BackupContents

open UnBoxer.Trees UnBoxer.Programs UnBoxer.DirAll UnBoxer.PathText UnBoxer.Archives
open UnBoxer.EscapeJson UnBoxer.TryBackup UnBoxer.DeviceTrees UnBoxer.BackupWalk
open UnBoxer.BackupLoop UnBoxer.Effects UnBoxer.Instances UnBoxer.DeviceTables

section Names

variable {D : Device} {refused : Access → List Text → Prop} {c : Crates}

theorem archived_exists {p : List Text} (h : Archived D refused p) : D.tree.node p ≠ none := by
  obtain h | ⟨⟨_, h⟩, _⟩ := h.2.1.2 <;> simp [h]

theorem pieces_dirName (hc : c.Documented) (n : Text) : pieces (c.dirName n) = pieces n := by
  rw [hc.dirName_eq]
  split
  · rfl
  · exact pieces_slash n

theorem pieces_recordOf (hc : c.Documented) {p : List Text} (h : D.tree.node p ≠ none) :
    pieces (recordOf D c p).name = p.map .down := by
  have hp := pieces_path fun m hm => D.names h m hm
  unfold recordOf
  split
  · exact hp
  · exact (pieces_dirName hc _).trans hp

theorem names_nodup (hc : c.Documented) {ps : List (List Text)} (hn : ps.Nodup)
    (hp : ∀ p ∈ ps, D.tree.node p ≠ none) : ((ps.map (recordOf D c)).map Record.name).Nodup := by
  rw [List.map_map]
  refine hn.map_on fun p hpm q hqm he => ?_
  have h := congrArg pieces he
  rw [Function.comp_apply, Function.comp_apply, pieces_recordOf hc (hp p hpm),
    pieces_recordOf hc (hp q hqm)] at h
  exact List.map_injective_iff.mpr (fun _ _ he => by simpa using he) h

end Names

section Backup

variable {D : Device} {refused : Access → List Text → Prop} {c : Crates} {afc : Afc}

/-- A successful backup has archived the nodes `ps`, and answers with their size. -/
structure Written (D : Device) (refused : Access → List Text → Prop) (c : Crates)
    (zip backupType json : Text) (d : Disk Text UInt8) (ps : List (List Text)) : Prop where
  nodup : ps.Nodup
  archived : ∀ p, p ∈ ps ↔ Archived D refused p
  parent_before : ∀ l q n r, ps = l ++ (q ++ [n]) :: r → q ≠ [] → q ∈ l
  archive : ∃ data, d.tree.read (pieces zip) = .ok data ∧
    c.parse data = .ok (ps.map (recordOf D c))
  answer : ∃ total, json = successResponse zip total backupType ∧
    total = Int64.ofNat (ps.map (sizeOf D)).sum ∧
    ((ps.map (sizeOf D)).sum < 2 ^ 63 → total.toInt = (ps.map (sizeOf D)).sum)

theorem backupInto_spec (hc : c.Documented) (hs : Serves D refused afc) : ∃ rounds, ∀ fuel,
    ∀ backupType zip, Triple (HasFile (pieces zip))
      (backupInto c fuel afc backupType zip (resolve [] (pieces zip)))
      (fun json d => ∃ ps, Written D refused c zip backupType json d ps)
      (fun stop _ => stop = .running → fuel ≤ rounds) := by
  obtain ⟨rounds, hloop⟩ := loop_spec (c := c) hs
  refine ⟨rounds, fun fuel backupType zip => ?_⟩
  have harch : Triple (HasFile (pieces zip))
      (backupArchive c (resolve [] (pieces zip)) afc fuel)
      (fun w d => (∃ ps, Complete D refused c w ps) ∧
        d.tree.read (pieces zip) = .ok (c.finished w.entries))
      (fun halt _ => halt.stop = .running → fuel ≤ rounds) := by
    refine ((hloop _ fuel).weaken (fun _ hd => hd) (fun _ _ hd => hd) (fun _ _ hf => hf.1)).bind
      fun w => ?_
    rintro d ⟨hfile, hps⟩
    refine (zipCall_spec w .finish _ _).weaken (fun _ hd => hd) (fun w' d' hd' => ?_)
      (fun halt _ hf hr => absurd hr hf.1) d hfile
    obtain ⟨rfl, hnode⟩ := hd'
    exact ⟨hps, hnode⟩
  refine harch.handle (fun w => Triple.ok ?_) fun halt => ?_
  · rintro d ⟨⟨ps, hps⟩, hnode⟩
    refine ⟨ps, hps.nodup, hps.archived, hps.parent_before, ⟨_, hnode, ?_⟩, ?_⟩
    · rw [hps.entries]
      exact hc.parse_finished _ (names_nodup hc hps.nodup
        fun p hp => archived_exists ((hps.archived p).mp hp))
    · exact ⟨w.total, rfl, hps.total, fun hlt => hps.total ▸ Int64.toInt_ofNat_of_lt hlt⟩
  · obtain ⟨stop, w⟩ := halt
    cases stop with
    | error e => exact Triple.bind (Triple.ignore Triple.any) fun _ => Triple.error fun _ _ h => by cases h
    | running => exact Triple.error fun _ h => h
    | panicked => exact Triple.error fun _ _ h => by cases h

theorem tryBackup_spec (hc : c.Documented) (hs : Serves D refused afc) : ∃ rounds, ∀ fuel,
    ∀ house bundleId backupType, vend house bundleId = .ok (afc, backupType) → ∀ outputDir,
      Triple (fun _ => True) (tryBackup c fuel house bundleId outputDir)
        (fun json d =>
          ∃ ps, Written D refused c (zipPath bundleId outputDir) backupType json d ps)
        (fun stop _ => stop = .running → fuel ≤ rounds) := by
  obtain ⟨rounds, hinto⟩ := backupInto_spec hc hs
  refine ⟨rounds, fun fuel house bundleId backupType hv outputDir => ?_⟩
  unfold tryBackup
  rw [hv]
  refine Triple.bind (Triple.mapErr (Triple.any.weaken (fun _ h => h) (fun _ _ h => h)
    (fun _ _ _ h => by cases h))) fun _ => ?_
  have hcreate : ∀ ps, Triple (fun _ => True) (create ps)
      (fun h d => h = resolve [] ps ∧ HasFile ps d) (fun (_ : Errno) _ => True) :=
    fun ps => Triple.each fun d _ => (create_spec ps d).weaken (fun _ h => h)
      (fun _ _ h => ⟨h.1, h.2.1⟩) (fun _ _ _ => trivial)
  refine Triple.bind (Triple.mapErr ((hcreate _).weaken (fun _ h => h) (fun _ _ h => h)
    (fun _ _ _ h => by cases h))) fun h => ?_
  rintro d ⟨rfl, hfile⟩
  exact hinto fuel backupType (zipPath bundleId outputDir) d hfile

/-- For every device and every pattern of refused accesses: the loop ends after
finitely many rounds and lists no directory twice, all that can be reached when
it returns, and a backup that succeeds has archived what it should. -/
theorem tryBackup_archives_tree (hc : c.Documented) (hs : Serves D refused afc) :
    ∃ rounds, ∀ fuel,
      (∀ ps d, HasFile ps d → match ((backupLoop c (resolve [] ps) afc fuel start).run d).1 with
        | .ok w => ∃ l : List (List Text), l.Nodup ∧ (∀ p, p ∈ l ↔ Reached D refused p) ∧
          listed w.requests = l.map path
        | .error halt => (rounds < fuel → halt.stop ≠ .running) ∧
          ListedOnce D refused halt.walk.requests) ∧
      ∀ house bundleId backupType, vend house bundleId = .ok (afc, backupType) →
        ∀ outputDir d,
          (rounds < fuel →
            ((tryBackup c fuel house bundleId outputDir).run d).1 ≠ .error .running) ∧
          ∀ json, ((tryBackup c fuel house bundleId outputDir).run d).1 = .ok json →
            ∃ ps, Written D refused c (zipPath bundleId outputDir) backupType json
              ((tryBackup c fuel house bundleId outputDir).run d).2 ps := by
  obtain ⟨n, hloop⟩ := loop_spec (c := c) hs
  obtain ⟨m, hback⟩ := tryBackup_spec hc hs
  refine ⟨max n m, fun fuel => ⟨fun ps d hd => ?_, fun house bundleId backupType hv outputDir d =>
    ⟨fun hlt hr => ?_, fun json hr => ?_⟩⟩⟩
  · have hl := hloop ps fuel d hd
    cases hr : (backupLoop c (resolve [] ps) afc fuel start).run d with
    | mk r d' =>
      rw [hr] at hl
      cases r with
      | ok w =>
        obtain ⟨_, _, hcomplete⟩ := hl
        exact hcomplete.listed
      | error halt =>
        refine ⟨fun hlt hrun => ?_, hl.2⟩
        have := hl.1 hrun
        omega
  · have := (hback fuel house bundleId backupType hv outputDir).of_error trivial hr rfl
    omega
  · exact (hback fuel house bundleId backupType hv outputDir).of_ok trivial hr

end Backup

theorem tryBackup_archives_guarded :
    ∃ ps, Written (device guarded guarded_sound) (fun a p => (a, p) ∈ guards) crates
      (zipPath ['b'] ['o']) "full".toList (successResponse (zipPath ['b'] ['o']) 3 "full".toList)
      ((tryBackup crates 6 (vending (service guarded guards)) ['b'] ['o']).run emptyDisk).2 ps := by
  obtain ⟨_, h⟩ := tryBackup_archives_tree crates_documented (service_serves guarded_sound guards)
  have hok : ((tryBackup crates 6 (vending (service guarded guards)) ['b'] ['o']).run emptyDisk).1 =
      .ok (successResponse (zipPath ['b'] ['o']) 3 "full".toList) := by decide +kernel
  exact ((h 6).2 (vending (service guarded guards)) ['b'] "full".toList rfl ['o'] emptyDisk).2 _ hok

end UnBoxer.BackupContents
