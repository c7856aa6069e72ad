import UnBoxer.BackupPaths
import UnBoxer.Effects
import UnBoxer.Instances
import UnBoxer.Runs

namespace UnBoxer.ExtractCache

open UnBoxer.Trees UnBoxer.Programs UnBoxer.DirAll UnBoxer.Effects UnBoxer.PathText
open UnBoxer.Archives UnBoxer.EscapeJson UnBoxer.JsonParser UnBoxer.TryBackup UnBoxer.TryExtract
open UnBoxer.RustIdevice UnBoxer.BackupEngine UnBoxer.BackupPaths UnBoxer.Runs UnBoxer.Instances

section Calls

variable (F : Foundation) (c : Crates) (e : BackupEntry)

/-- The part of a call that looks for the extracted directory. -/
def cached : Prog Text UInt8 Stop Bool :=
  (backupsDirectoryURL F).bind fun _ =>
    .call (.fileExists (pieces (absolute (extractedDirectory F e)))) fun (b : Bool) => .done (.ok b)

def extraction : Prog Text UInt8 Stop Unit :=
  extractZip F.parseError c (absolute (archiveFile F e)) (absolute (extractedDirectory F e))

theorem ensureExtracted_eq : ensureExtracted F c e = (cached F e).bind fun b =>
    if b then .done (.ok (extractedDirectory F e))
    else (extraction F c e).bind fun _ => .done (.ok (extractedDirectory F e)) := by
  unfold ensureExtracted cached
  rw [Prog.bind_assoc]
  rfl

variable {F c e}

theorem cached_spec (he : Located e) (d : Disk Text UInt8) :
    Triple (· = d) (cached F e)
      (fun b d' => (d.tree.node (extractedDirectory F e) ≠ none ∧ b = true ∧ d'.tree = d.tree) ∨
        (d.tree.node (extractedDirectory F e) = none ∧ b = false ∧
          d'.tree.node (extractedDirectory F e) = none))
      (fun _ _ => False) := by
  refine (backupsDirectoryURL_spec F d).bind fun dir => ?_
  rintro d' ⟨_, hled, hsame⟩
  rw [run_call, exec_fileExists, pieces_absolute (fileName_extracted F he)]
  have hp := d'.tree.present_downs (extractedDirectory F e)
  by_cases hn : d.tree.node (extractedDirectory F e) = none
  · have hn' : d'.tree.node (extractedDirectory F e) = none := by
      apply hled.absent hn
      intro qs hqs heq
      have hlen := hqs.length_le
      simp only [heq, extractedDirectory, List.length_append, List.length_cons] at hlen
      omega
    have hb : d'.tree.present ((extractedDirectory F e).map .down) = false := by
      simpa [hn'] using hp
    exact .inr ⟨hn, hb, hn'⟩
  · have hB : d.tree.node (backupsDirectory F) = some .dir :=
      d.tree.prefix_dir hn (by simp)
    have ht : d'.tree = d.tree := hsame (by simp [hB])
    have hb : d'.tree.present ((extractedDirectory F e).map .down) = true :=
      hp.mpr (by rwa [ht])
    exact .inl ⟨hn, hb, ht⟩

theorem tryExtract_error {zip out err : Text} {d : Disk Text UInt8}
    (hf : ((createDirAll (pieces out)).run d).1 = .ok () →
      ((extractArchive c zip out).run ((createDirAll (pieces out)).run d).2).1.isOk)
    (h : ((tryExtract c zip out).run d).1 = .error err) :
    Grown (· <+: parent (pieces out)) d ((tryExtract c zip out).run d).2 := by
  have hspec := createDirAll_error (d := d) (A := (· <+: parent (pieces out))) fun _ h => h
  unfold tryExtract at h ⊢
  rw [run_bind, run_mapErr] at h ⊢
  cases hr : (createDirAll (pieces out)).run d with
  | mk r d' =>
    rw [hr] at h hf
    cases r with
    | ok u =>
      have hok := hf rfl
      simp only [Except.mapError] at h
      rw [h] at hok
      cases hok
    | error e' =>
      have hd := hspec d (.of_same rfl rfl)
      rwa [hr] at hd

theorem tryExtract_dir (c : Crates) (zip : Text) {out : Text} {d : Disk Text UInt8}
    (h : ((createDirAll (pieces out)).run d).1 = .ok ()) :
    ((tryExtract c zip out).run d).2.tree.node (resolve [] (pieces out)) = some .dir := by
  have hspec := (createDirAll_spec (d := d) (A := fun _ => True) fun _ _ => trivial).of_ok
    (.of_same rfl rfl) h
  unfold tryExtract
  rw [run_bind, run_mapErr, h]
  exact (run_after _ _).dir _ hspec.2.dir

theorem tryExtract_answer (c : Crates) (zip out : Text) :
    Triple (fun _ => True) (tryExtract c zip out) (fun json _ => json = extractResponse)
      (fun _ _ => True) :=
  Triple.bind Triple.any fun _ => Triple.bind Triple.any fun _ => Triple.bind Triple.any fun _ =>
    Triple.ok fun _ _ => rfl

theorem received_extractResponse (parseError : Text → Text) (what : Text) :
    received parseError what (.ok extractResponse) = .ok extractResponse := by
  have hn : nul ∉ extractResponse := by decide
  simp only [received]
  rw [receive_eq hn, checkResponse_obj parse_extractResponse rfl, if_neg (by decide)]
  rfl

/-- Once the extraction has made its directory it does not fail. -/
def Finishes (F : Foundation) (c : Crates) (e : BackupEntry) (d : Disk Text UInt8) : Prop :=
  ((createDirAll (pieces (absolute (extractedDirectory F e)))).run d).1 = .ok () →
    ((extractArchive c (absolute (archiveFile F e)) (absolute (extractedDirectory F e))).run
      ((createDirAll (pieces (absolute (extractedDirectory F e)))).run d).2).1.isOk

theorem extraction_error (he : Located e) {d : Disk Text UInt8} (hf : Finishes F c e d)
    (hn : d.tree.node (extractedDirectory F e) = none) {stop : Stop}
    (h : ((extraction F c e).run d).1 = .error stop) :
    ((extraction F c e).run d).2.tree.node (extractedDirectory F e) = none := by
  have hout := fileName_extracted F he
  unfold extraction at h ⊢
  rw [run_extractZip, fromPtr_absolute hout, fromPtr_absolute (fileName_archive F he)] at h ⊢
  cases hr : ((tryExtract c (absolute (archiveFile F e))
      (absolute (extractedDirectory F e))).run d).1 with
  | ok json =>
    obtain rfl := (tryExtract_answer c _ _).of_ok trivial hr
    rw [hr] at h
    simp only [Except.mapError] at h
    rw [received_extractResponse] at h
    cases h
  | error err =>
    apply (tryExtract_error hf hr).absent hn
    intro qs hqs heq
    rw [pieces_absolute hout, parent_downs] at hqs
    have hlen := (resolve_names hqs).length_le
    simp [heq, extractedDirectory] at hlen

end Calls

section Runs

variable (F : Foundation) (c : Crates) (e : BackupEntry) (rs : List Record)

def place (r : Record) : List Text :=
  resolve [] (target (absolute (extractedDirectory F e)) r.name)

def Complete (t : Tree Text Bytes) : Prop :=
  ∀ r ∈ rs, t.node (place F e r) = some (if c.isDir r.name then .dir else .file r.data)

def Archived (t : Tree Text Bytes) : Prop :=
  ∃ data, t.read (pieces (absolute (archiveFile F e))) = .ok data ∧ c.parse data = .ok rs

def begun (t : Tree Text Bytes) (faults : List (Option Nat)) : Disk Text UInt8 :=
  ((cached F e).run ⟨t, faults, []⟩).2

def Reports (t : Tree Text Bytes) (faults : List (Option Nat)) : Prop :=
  t.node (extractedDirectory F e) = none →
    ((extraction F c e).run (begun F e t faults)).1 = .ok () →
      Complete F c e rs ((extraction F c e).run (begun F e t faults)).2.tree

/-- Neither the extracted directory nor the place of an entry is disturbed. -/
def Undisturbed (t t' : Tree Text Bytes) : Prop :=
  (∀ q, extractedDirectory F e <+: q → t'.node q = t.node q) ∧
    ∀ r ∈ rs, t'.node (place F e r) = t.node (place F e r)

inductive Move where
  | call (faults : List (Option Nat))
  | other

inductive Step : Tree Text Bytes → Move → Tree Text Bytes → Prop
  | call {t : Tree Text Bytes} {faults : List (Option Nat)} :
      Archived F c e rs t → Reports F c e rs t faults →
      Step t (.call faults) ((ensureExtracted F c e).run ⟨t, faults, []⟩).2.tree
  | other {t t' : Tree Text Bytes} : Undisturbed F e rs t t' → Step t .other t'

/-- The step is not an extraction that fails after it has made its directory. -/
def Finishing (t : Tree Text Bytes) : Move → Prop
  | .call faults => t.node (extractedDirectory F e) = none → Finishes F c e (begun F e t faults)
  | .other => True

variable {F c e rs}

/-- What a call does: it returns the directory that is there, or extracts. -/
theorem ensureExtracted_cases (he : Located e) (t : Tree Text Bytes) (faults : List (Option Nat)) :
    (t.node (extractedDirectory F e) ≠ none ∧
      ((ensureExtracted F c e).run ⟨t, faults, []⟩).1 = .ok (extractedDirectory F e) ∧
      ((ensureExtracted F c e).run ⟨t, faults, []⟩).2.tree = t) ∨
    (t.node (extractedDirectory F e) = none ∧
      (begun F e t faults).tree.node (extractedDirectory F e) = none ∧
      ((ensureExtracted F c e).run ⟨t, faults, []⟩).1 =
        ((extraction F c e).run (begun F e t faults)).1.map (fun _ => extractedDirectory F e) ∧
      ((ensureExtracted F c e).run ⟨t, faults, []⟩).2 =
        ((extraction F c e).run (begun F e t faults)).2) := by
  obtain ⟨b, hr, hs⟩ := (cached_spec (F := F) he ⟨t, faults, []⟩).returns rfl
  have hrun : (cached F e).run ⟨t, faults, []⟩ = (.ok b, begun F e t faults) := Prod.ext hr rfl
  rw [ensureExtracted_eq, run_bind_ok hrun]
  obtain ⟨hn, rfl, ht⟩ | ⟨hn, rfl, hn'⟩ := hs
  · rw [if_pos rfl]
    exact .inl ⟨hn, rfl, ht⟩
  · rw [if_neg Bool.false_ne_true, run_map]
    dsimp only
    exact .inr ⟨hn, hn', rfl, rfl⟩

def Held (F : Foundation) (c : Crates) (e : BackupEntry) (rs : List Record)
    (t : Tree Text Bytes) : Prop :=
  t.node (extractedDirectory F e) = none ∨ Complete F c e rs t

theorem step_held (he : Located e) {t t' : Tree Text Bytes} {m : Move} (h : Held F c e rs t)
    (hs : Step F c e rs t m t') (hm : Finishing F c e t m) : Held F c e rs t' := by
  cases hs with
  | other hu =>
    apply h.imp
    · exact fun hn => (hu.1 _ (List.prefix_refl _)).trans hn
    · exact fun hc r hr => (hu.2 r hr).trans (hc r hr)
  | @call faults _ hrep =>
    obtain ⟨hn, _, ht⟩ | ⟨hn, hn', _, hd⟩ := ensureExtracted_cases (c := c) he t faults
    · rw [ht]
      exact h
    · rw [hd]
      cases hx : ((extraction F c e).run (begun F e t faults)).1 with
      | ok u => exact .inr (hrep hn hx)
      | error stop => exact .inl (extraction_error he (hm hn) hn' hx)

/-- In every run in which no extraction fails after it has made its directory, a
directory that is returned holds every entry of the archive. -/
theorem ensureExtracted_complete (he : Located e) {t t' : Tree Text Bytes} {ms : List Move}
    (hn : t.node (extractedDirectory F e) = none)
    (hrun : Run (fun s m s' => Step F c e rs s m s' ∧ Finishing F c e s m) t ms t')
    {faults : List (Option Nat)} (hrep : Reports F c e rs t' faults) {dir : List Text}
    (hok : ((ensureExtracted F c e).run ⟨t', faults, []⟩).1 = .ok dir) :
    dir = extractedDirectory F e ∧
      Complete F c e rs ((ensureExtracted F c e).run ⟨t', faults, []⟩).2.tree := by
  have hheld : Held F c e rs t' :=
    hrun.invariant (.inl hn) fun s m s' hs hstep => step_held he hs hstep.1 hstep.2
  obtain ⟨hn', hr, ht⟩ | ⟨hn', _, hr, hd⟩ := ensureExtracted_cases (c := c) he t' faults
  · rw [hr] at hok
    rw [ht]
    cases hok
    exact ⟨rfl, hheld.resolve_left hn'⟩
  · rw [hr] at hok
    rw [hd]
    cases hx : ((extraction F c e).run (begun F e t' faults)).1 with
    | ok u =>
      rw [hx] at hok
      cases hok
      exact ⟨rfl, hrep hn' hx⟩
    | error stop =>
      rw [hx] at hok
      cases hok

theorem extraction_dir (he : Located e) {d : Disk Text UInt8} (hf : ¬ Finishes F c e d) :
    ((extraction F c e).run d).2.tree.node (extractedDirectory F e) = some .dir := by
  have hout := fileName_extracted F he
  unfold Finishes at hf
  rw [Classical.not_imp] at hf
  unfold extraction
  rw [run_extractZip, fromPtr_absolute hout, fromPtr_absolute (fileName_archive F he)]
  have hdir := tryExtract_dir c (absolute (archiveFile F e)) hf.1
  rwa [pieces_absolute hout, resolve_down, List.nil_append] at hdir

/-- Every other extraction leaves its directory behind, which all later calls
return as it is. -/
theorem unfinished_returned (he : Located e) {t : Tree Text Bytes} {faults : List (Option Nat)}
    (hn : t.node (extractedDirectory F e) = none) (hf : ¬ Finishes F c e (begun F e t faults))
    {t' : Tree Text Bytes} (ht : t' = ((ensureExtracted F c e).run ⟨t, faults, []⟩).2.tree)
    (faults' : List (Option Nat)) :
    ((ensureExtracted F c e).run ⟨t', faults', []⟩).1 = .ok (extractedDirectory F e) ∧
      ((ensureExtracted F c e).run ⟨t', faults', []⟩).2.tree = t' := by
  have hdir : t'.node (extractedDirectory F e) = some .dir := by
    obtain ⟨hne, _⟩ | ⟨_, _, _, hd⟩ := ensureExtracted_cases (c := c) he t faults
    · exact absurd hn hne
    · rw [ht, hd]
      exact extraction_dir he hf
  obtain ⟨_, hr, ht'⟩ | ⟨hn', _⟩ := ensureExtracted_cases (c := c) he t' faults'
  · exact ⟨hr, ht'⟩
  · rw [hdir] at hn'
    cases hn'

end Runs

section Example

theorem firstEntry_located : Located firstEntry := ⟨by decide, by decide⟩

theorem firstBackup_archived : Archived foundation crates firstEntry [⟨['a'], [7]⟩]
    firstBackup.tree :=
  ⟨crates.finished [⟨['a'], [7]⟩], by decide +kernel, by decide +kernel⟩

def stopped : List (Option Nat) := [none, none, none, some 0]

def extractedOnce (faults : List (Option Nat)) : Tree Text Bytes :=
  ((ensureExtracted foundation crates firstEntry).run ⟨firstBackup.tree, faults, []⟩).2.tree

theorem extractedOnce_archived (faults : List (Option Nat)) (h : faults = [] ∨ faults = stopped) :
    Archived foundation crates firstEntry [⟨['a'], [7]⟩] (extractedOnce faults) := by
  refine ⟨crates.finished [⟨['a'], [7]⟩], ?_, by decide +kernel⟩
  obtain rfl | rfl := h <;> decide +kernel

theorem extractedOnce_step {faults : List (Option Nat)}
    (h : Reports foundation crates firstEntry [⟨['a'], [7]⟩] firstBackup.tree faults) :
    Step foundation crates firstEntry [⟨['a'], [7]⟩] firstBackup.tree (.call faults)
      (extractedOnce faults) := by
  unfold extractedOnce
  exact .call firstBackup_archived h

theorem ensureExtracted_complete_twice : ∃ dir,
    ((ensureExtracted foundation crates firstEntry).run ⟨extractedOnce [], [], []⟩).1 = .ok dir ∧
    dir = extractedDirectory foundation firstEntry ∧
    Complete foundation crates firstEntry [⟨['a'], [7]⟩]
      ((ensureExtracted foundation crates firstEntry).run ⟨extractedOnce [], [], []⟩).2.tree := by
  have hfirst : Reports foundation crates firstEntry [⟨['a'], [7]⟩] firstBackup.tree [] := by
    intro _ _
    unfold Complete
    decide +kernel
  have hfin : Finishing foundation crates firstEntry firstBackup.tree (.call []) := by
    intro _
    unfold Finishes
    decide +kernel
  have hsecond : Reports foundation crates firstEntry [⟨['a'], [7]⟩] (extractedOnce []) [] := by
    unfold Reports Complete
    decide +kernel
  have hok : ((ensureExtracted foundation crates firstEntry).run ⟨extractedOnce [], [], []⟩).1 =
      .ok (extractedDirectory foundation firstEntry) := by decide +kernel
  exact ⟨_, hok, ensureExtracted_complete firstEntry_located (by decide +kernel)
    (.snoc .nil ⟨extractedOnce_step hfirst, hfin⟩) hsecond hok⟩

/-- The first call fails when it opens the archive, and the second one returns
an empty directory. -/
theorem stopped_extraction_returned :
    firstBackup.tree.node (extractedDirectory foundation firstEntry) = none ∧
    Run (Step foundation crates firstEntry [⟨['a'], [7]⟩]) firstBackup.tree [.call stopped]
      (extractedOnce stopped) ∧
    Archived foundation crates firstEntry [⟨['a'], [7]⟩] (extractedOnce stopped) ∧
    Reports foundation crates firstEntry [⟨['a'], [7]⟩] (extractedOnce stopped) [] ∧
    ((ensureExtracted foundation crates firstEntry).run ⟨extractedOnce stopped, [], []⟩).1 =
      .ok (extractedDirectory foundation firstEntry) ∧
    ¬ Complete foundation crates firstEntry [⟨['a'], [7]⟩]
      ((ensureExtracted foundation crates firstEntry).run ⟨extractedOnce stopped, [], []⟩).2.tree := by
  have hfirst : Reports foundation crates firstEntry [⟨['a'], [7]⟩] firstBackup.tree stopped := by
    unfold Reports Complete
    decide +kernel
  refine ⟨by decide +kernel, .snoc .nil (extractedOnce_step hfirst),
    extractedOnce_archived _ (.inr rfl), ?_, by decide +kernel, ?_⟩
  · unfold Reports Complete
    decide +kernel
  · unfold Complete
    decide +kernel

end Example

end UnBoxer.ExtractCache
