import UnBoxer.ExtractedTree

namespace UnBoxer.RoundTrip

open UnBoxer.Trees UnBoxer.Programs UnBoxer.DirAll UnBoxer.QuietRuns UnBoxer.PathText
open UnBoxer.Archives UnBoxer.EscapeJson UnBoxer.TryBackup UnBoxer.TryExtract
open UnBoxer.DeviceTrees UnBoxer.BackupWalk UnBoxer.BackupContents UnBoxer.ExtractedTree
open UnBoxer.Instances UnBoxer.DeviceTables

section Extract

variable {D : Device} {c : Crates} {ext zip : Text} {ps : List (List Text)}

/-- An order of nodes in which each directory comes before what is in it. -/
structure Ordered (D : Device) (ps : List (List Text)) : Prop where
  nodup : ps.Nodup
  exist : ∀ p ∈ ps, p ≠ [] ∧ D.tree.node p ≠ none
  parent_before : ∀ l q n r, ps = l ++ (q ++ [n]) :: r → q ≠ [] → q ∈ l

theorem Ordered.next (h : Ordered D ps) {l r : List (List Text)} {p : List Text}
    (hps : ps = l ++ p :: r) : ∃ q n, p = q ++ [n] ∧ D.tree.node p ≠ none ∧
      contents D l q = some .dir ∧ contents D l p = none := by
  obtain ⟨hne, hp⟩ := h.exist p (by simp [hps])
  obtain ⟨q, n, rfl⟩ : ∃ q n, p = q ++ [n] :=
    ⟨p.dropLast, p.getLast hne, (List.dropLast_append_getLast hne).symm⟩
  refine ⟨q, n, rfl, hp, ?_, ?_⟩
  · by_cases hq : q = []
    · simp [contents, hq]
    · have himage : image D q = .dir := by
        unfold image
        rw [D.tree.parent q n hp]
      simp [contents, hq, h.parent_before l q n r hps hq, himage]
  · have hnot : q ++ [n] ∉ l := by
      have hn := h.nodup
      rw [hps, List.nodup_append] at hn
      exact fun hm => hn.2.2 _ hm _ List.mem_cons_self rfl
    simp [contents, hnot]

theorem extractAll_spec (hc : c.Documented) (hD : NulFree D) (h : Ordered D ps) :
    Triple (Extracted D ext [])
      (Prog.forEach (extractEntry c ext) (ps.map (recordOf D c)).zipIdx)
      (fun _ => Extracted D ext ps) (fun _ _ => False) := by
  have hbody : ∀ ys x zs, (ps.map (recordOf D c)).zipIdx = ys ++ x :: zs →
      Triple (Extracted D ext (ps.take ys.length)) (extractEntry c ext x)
        (fun _ => Extracted D ext (ps.take (ys ++ [x]).length)) (fun (_ : Text) _ => False) := by
    intro ys x zs hx
    have hk : (ps.map (recordOf D c)).zipIdx[ys.length]? = some x := by simp [hx]
    rw [List.getElem?_zipIdx, List.getElem?_map] at hk
    obtain ⟨r, hr, rfl⟩ := Option.map_eq_some_iff.mp hk
    obtain ⟨p, hp, rfl⟩ := Option.map_eq_some_iff.mp hr
    have hps : ps = ps.take ys.length ++ p :: ps.drop (ys.length + 1) := by
      obtain ⟨hlt, hget⟩ := List.getElem?_eq_some_iff.mp hp
      rw [← hget, List.getElem_cons_drop, List.take_append_drop]
    obtain ⟨q, n, rfl, hnode, hparent, hnew⟩ := h.next hps
    have htake : ps.take (ys ++ [(recordOf D c (q ++ [n]), 0 + ys.length)]).length =
        ps.take ys.length ++ [q ++ [n]] := by
      rw [List.length_append, List.length_singleton, List.take_add_one, hp]
      rfl
    rw [htake]
    exact extractEntry_spec hc hD _ hnode hparent hnew
  simpa using Triple.forEach _ (fun ys => Extracted D ext (ps.take ys.length)) hbody

/-- Extracting an archive of the device into a new directory. -/
theorem tryExtract_spec (hc : c.Documented) (hD : NulFree D) (h : Ordered D ps)
    {t : Tree Text Bytes} {data : Bytes} (hread : t.read (pieces zip) = .ok data)
    (hparse : c.parse data = .ok (ps.map (recordOf D c))) (hf : Fresh t (pieces ext)) :
    Triple (At t) (tryExtract c zip ext)
      (fun json d => json = extractResponse ∧ Extracted D ext ps d) (fun _ _ => False) := by
  refine Triple.bind (Triple.mapErr (quiet_dirAll_fresh hf)) fun _ => ?_
  rintro d ⟨hq, hempty, hkeep⟩
  have hstart : Extracted D ext [] d := by
    refine ⟨hq, hempty.1, fun q => ?_⟩
    by_cases hqn : q = []
    · simpa [contents, hqn] using hempty.1.dir
    · simpa [contents, hqn] using hempty.below hqn
  have hload : Triple (At d.tree) (openArchive c zip)
      (fun rs d' => rs = ps.map (recordOf D c) ∧ At d.tree d') (fun _ _ => False) := by
    refine Triple.bind (Triple.mapErr (quiet_call ?_)) (Q := fun b d' => b = data ∧ At d.tree d')
      fun b => ?_
    · simp only [Call.apply, hkeep _ _ hread]
      exact Triple.ok fun d' hd' => ⟨rfl, hd'⟩
    · rintro d' ⟨rfl, hd'⟩
      refine Triple.bind (Triple.mapErr quiet_next) (fun _ => ?_) d' hd'
      rw [hparse]
      exact Triple.ok fun d'' hd'' => ⟨rfl, hd''⟩
  refine hload.bind (fun rs => ?_) d ⟨hq, rfl⟩
  rintro d' ⟨rfl, hq', ht⟩
  have hstart' : Extracted D ext [] d' := ⟨hq', ht ▸ hstart.outputOpen, fun q => ht ▸ hstart.contents_eq q⟩
  exact (extractAll_spec hc hD h).bind (fun _ => Triple.ok fun _ h => ⟨rfl, h⟩) d' hstart'

end Extract

/-- The tree of a device as it should be found on the disk. -/
def asFile : Node Leaf → Node Bytes
  | .dir => .dir
  | .file (.regular data) => .file data
  | .file (.special _) => .file []

section Names

variable {D : Device}

theorem dirMark_path {p : List Text} {n : Text} (hn : Legal n) :
    DirMark (path (p ++ [n])) ↔ n.getLast? = some '\\' := by
  have hs : n.getLast? ≠ some '/' := fun h => hn.2.1 (List.mem_of_getLast? h)
  rw [DirMark, path_getLast hn.1]
  simp [hs]

/-- The images are right as long as no file has a name that looks like a directory's. -/
theorem image_iff (hreg : ∀ p f, D.tree.node p ≠ some (.file (.special f))) :
    (∀ p v, p ≠ [] → D.tree.node p = some v → image D p = asFile v) ↔
      ∀ p n data, D.tree.node (p ++ [n]) = some (.file (.regular data)) →
        n.getLast? ≠ some '\\' := by
  constructor
  · intro h p n data hp hn
    have himage := h (p ++ [n]) _ (by simp) hp
    have hmark : DirMark (path (p ++ [n])) :=
      (dirMark_path (D.legal p n (by simp [hp]))).mpr hn
    simp [image, hp, hmark, asFile] at himage
  · intro h p v hne hv
    cases v with
    | dir => simp [image, hv, asFile]
    | file leaf =>
      cases leaf with
      | special f => exact absurd hv (hreg p f)
      | regular data =>
        obtain ⟨q, n, rfl⟩ : ∃ q n, p = q ++ [n] :=
          ⟨p.dropLast, p.getLast hne, (List.dropLast_append_getLast hne).symm⟩
        have hmark : ¬ DirMark (path (q ++ [n])) :=
          fun hm => h q n data hv ((dirMark_path (D.legal q n (by simp [hv]))).mp hm)
        simp [image, hv, hmark, asFile]

theorem archived_regular (hreg : ∀ p f, D.tree.node p ≠ some (.file (.special f)))
    (p : List Text) :
    Archived D (fun _ _ => False) p ↔ p ≠ [] ∧ D.tree.node p ≠ none := by
  constructor
  · exact fun h => ⟨h.1, archived_exists h⟩
  · rintro ⟨hne, hp⟩
    refine ⟨hne, ⟨id, ?_⟩, fun _ _ _ => ⟨id, fun _ => id⟩⟩
    cases hv : D.tree.node p with
    | none => exact absurd hv hp
    | some v =>
      cases v with
      | dir => exact .inl rfl
      | file leaf =>
        cases leaf with
        | regular data => exact .inr ⟨⟨data, rfl⟩, id⟩
        | special f => exact absurd hv (hreg p f)

theorem contents_iff {ps : List (List Text)} (hmem : ∀ p, p ∈ ps ↔ p ≠ [] ∧ D.tree.node p ≠ none) :
    (∀ q, contents D ps q = (D.tree.node q).map asFile) ↔
      ∀ p v, p ≠ [] → D.tree.node p = some v → image D p = asFile v := by
  constructor
  · intro h p v hne hv
    have hp := h p
    have hin : p ∈ ps := (hmem p).mpr ⟨hne, by simp [hv]⟩
    simpa [contents, hne, hin, hv] using hp
  · intro h q
    by_cases hq : q = []
    · subst hq
      simp [contents, D.tree.root, asFile]
    · cases hv : D.tree.node q with
      | none =>
        have hnot : q ∉ ps := fun hm => ((hmem q).mp hm).2 hv
        simp [contents, hq, hnot]
      | some v =>
        have hin : q ∈ ps := (hmem q).mpr ⟨hq, by simp [hv]⟩
        simp [contents, hq, hin, h q v hq hv]

end Names

section Claim

variable {D : Device} {c : Crates} {afc : Afc}

/-- Backup and extraction give the device's tree back exactly when none of its
files has a name that ends in a backslash. -/
theorem extract_undoes_backup_iff (hc : c.Documented) (hD : NulFree D)
    (hs : Serves D (fun _ _ => False) afc)
    (hreg : ∀ p f, D.tree.node p ≠ some (.file (.special f))) {fuel : Nat} {house : HouseArrest}
    {bundleId outputDir backupType json ext : Text} {d d' : Disk Text UInt8}
    (hv : vend house bundleId = .ok (afc, backupType))
    (hok : ((tryBackup c fuel house bundleId outputDir).run d).1 = .ok json)
    (ht : d'.tree = ((tryBackup c fuel house bundleId outputDir).run d).2.tree)
    (hq : NoFaults d') (hf : Fresh d'.tree (pieces ext)) :
    (((tryExtract c (zipPath bundleId outputDir) ext).run d').1 = .ok extractResponse ∧
      ∀ q, ((tryExtract c (zipPath bundleId outputDir) ext).run d').2.tree.node
        (resolve [] (pieces ext) ++ q) = (D.tree.node q).map asFile) ↔
    ∀ p n data, D.tree.node (p ++ [n]) = some (.file (.regular data)) →
      n.getLast? ≠ some '\\' := by
  obtain ⟨rounds, hback⟩ := tryBackup_spec hc hs
  obtain ⟨ps, hw⟩ := (hback fuel house bundleId backupType hv outputDir).of_ok trivial hok
  obtain ⟨data, hread, hparse⟩ := hw.archive
  have hmem : ∀ p, p ∈ ps ↔ p ≠ [] ∧ D.tree.node p ≠ none :=
    fun p => (hw.archived p).trans (archived_regular hreg p)
  have hord : Ordered D ps := ⟨hw.nodup, fun p hp => (hmem p).mp hp, hw.parent_before⟩
  rw [← ht] at hread
  obtain ⟨answer, hr, rfl, hext⟩ := (tryExtract_spec hc hD hord hread hparse hf).returns ⟨hq, rfl⟩
  rw [hr, ← image_iff hreg]
  simp only [hext.contents_eq, true_and]
  exact contents_iff hmem

end Claim

def backedUp (n : Text) : Disk Text UInt8 :=
  ((tryBackup crates 3 (vending (oneFileAfc n [7])) ['b'] ['o']).run emptyDisk).2

theorem quiet_of_nil {d : Disk Text UInt8} (h : d.faults = []) : NoFaults d := by
  intro f hf
  rw [h] at hf
  cases hf

theorem fresh_name {t : Tree Text Bytes} {n : Text} (hn : Legal n) (h : t.node [n] = none) :
    Fresh t (pieces n) := by
  rw [pieces_legal hn]
  exact ⟨[], n, [], rfl, (Tree.open_nil _ _).mpr t.root, h⟩

def backedNested : Disk Text UInt8 :=
  ((tryBackup crates 5 (vending (service nested [])) ['b'] ['o']).run emptyDisk).2

theorem extract_undoes_backup_nested :
    ((tryExtract crates (zipPath ['b'] ['o']) ['x']).run backedNested).1 = .ok extractResponse ∧
      ∀ q, ((tryExtract crates (zipPath ['b'] ['o']) ['x']).run backedNested).2.tree.node
        (resolve [] (pieces ['x']) ++ q) =
          ((device nested nested_sound).tree.node q).map asFile := by
  have hs : Serves (device nested nested_sound) (fun _ _ => False) (service nested []) := by
    simpa using service_serves nested_sound []
  have hok : ((tryBackup crates 5 (vending (service nested [])) ['b'] ['o']).run emptyDisk).1 =
      .ok (successResponse (zipPath ['b'] ['o']) 3 "full".toList) := by decide +kernel
  have hmem : ∀ p v, (device nested nested_sound).tree.node p = some v → (p, v) ∈ rooted nested :=
    fun p v => (node_iff nested_sound p v).mp
  have hreg : ∀ p f, (device nested nested_sound).tree.node p ≠ some (.file (.special f)) :=
    fun p f h => by simpa [rooted, nested] using hmem p _ h
  have hnames : ∀ e ∈ rooted nested, ∀ n ∈ e.1, nul ∉ n ∧ n.getLast? ≠ some '\\' := by decide
  have hD : NulFree (device nested nested_sound) :=
    nulFree_device nested_sound fun e he n hn => (hnames e (List.mem_cons_of_mem _ he) n hn).1
  have hfresh : Fresh backedNested.tree (pieces ['x']) :=
    fresh_name (by decide) (by decide +kernel)
  refine (extract_undoes_backup_iff crates_documented hD hs hreg rfl hok rfl
    (quiet_of_nil (by decide +kernel)) hfresh).mpr fun p n data hp => ?_
  exact (hnames _ (hmem _ _ hp) n (by simp)).2

/-- A file whose name ends in a backslash comes back as a directory. -/
theorem backslash_file_lost :
    Serves (oneFile ['a', '\\'] (by decide) [7]) (fun _ _ => False) (oneFileAfc ['a', '\\'] [7]) ∧
    ((tryBackup crates 3 (vending (oneFileAfc ['a', '\\'] [7])) ['b'] ['o']).run emptyDisk).1 =
      .ok (successResponse (zipPath ['b'] ['o']) 1 "full".toList) ∧
    NoFaults (backedUp ['a', '\\']) ∧ Fresh (backedUp ['a', '\\']).tree (pieces ['x']) ∧
    ¬ ∀ q, ((tryExtract crates (zipPath ['b'] ['o']) ['x']).run (backedUp ['a', '\\'])).2.tree.node
        (resolve [] (pieces ['x']) ++ q) =
          ((oneFile ['a', '\\'] (by decide) [7]).tree.node q).map asFile := by
  refine ⟨oneFile_serves (by decide) (by decide), rfl, quiet_of_nil rfl,
    fresh_name (by decide) rfl, fun h => ?_⟩
  have hl : ((tryExtract crates (zipPath ['b'] ['o']) ['x']).run
      (backedUp ['a', '\\'])).2.tree.node [['x'], ['a', '\\']] = some .dir := rfl
  have hr : ((oneFile ['a', '\\'] (by decide) [7]).tree.node [['a', '\\']]).map asFile =
      some (.file [7]) := rfl
  have hlr := h [['a', '\\']]
  rw [hr] at hlr
  cases hl.symm.trans hlr

end UnBoxer.RoundTrip
