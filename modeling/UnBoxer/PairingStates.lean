import UnBoxer.PairingManager

namespace UnBoxer.PairingStates

open UnBoxer.PathText UnBoxer.Archives UnBoxer.PairingManager UnBoxer.Runs

variable (propertyList : Bytes → Option Plist)

def valueIn (key : Text) (data : Bytes) : Option Text :=
  match propertyList data with
  | some (.dictionary lookup) => stringUnder key lookup
  | _ => none

/-- The published state is that of the stored file. -/
structure Describes (file : Option Bytes) (p : Published) : Prop where
  paired : p.isPaired = file.isSome
  host : p.hostID = file.bind (valueIn propertyList "HostID".toList)
  system : p.systemBUID = file.bind (valueIn propertyList "SystemBUID".toList)
  missing : p.hasMissingKeys = (file.isSome && (p.hostID.isNone || p.systemBUID.isNone))

inductive Event where
  | importFile (u : Chosen) (o : Outcome)
  | deleteFile (o : Outcome)
  | checkAndLoadFile (reads : Bool)
  | block

inductive Step : Manager → Event → Manager → Prop
  | importFile {m : Manager} {u : Chosen} {o : Outcome} :
      Step m (.importFile u o) (importFile propertyList u o m)
  | deleteFile {m : Manager} {o : Outcome} :
      Step m (.deleteFile o) (deleteFile propertyList o m)
  | checkAndLoadFile {m : Manager} {reads : Bool} :
      Step m (.checkAndLoadFile reads) (checkAndLoadFile propertyList reads m)
  | block {m : Manager} {b : Block} {bs : List Block} : m.queue = b :: bs →
      Step m .block { m with published := b.run m.published, queue := bs }

def unloaded (file : Option Bytes) : Manager := ⟨file, ⟨false, none, none, false, none⟩, []⟩

/-- Nothing is left over from what was published before: the file is a dictionary,
or what was published is what there is to know of it. -/
def Loads (p : Published) (data : Bytes) (reads : Bool) : Prop :=
  match if reads then propertyList data else none with
  | some (.dictionary _) => True
  | some .other => p.hostID = none ∧ p.systemBUID = none ∧ p.hasMissingKeys = true
  | none => p.hostID = valueIn propertyList "HostID".toList data ∧
      p.systemBUID = valueIn propertyList "SystemBUID".toList data ∧
      (p.hostID = none ∨ p.systemBUID = none)

/-- A failed copy leaves a file with the old identifiers, or none where none was. -/
def Keeps (file left : Option Bytes) : Prop :=
  left.isSome = file.isSome ∧
    left.bind (valueIn propertyList "HostID".toList) =
      file.bind (valueIn propertyList "HostID".toList) ∧
    left.bind (valueIn propertyList "SystemBUID".toList) =
      file.bind (valueIn propertyList "SystemBUID".toList)

def Clear (m : Manager) : Event → Prop
  | .importFile u o => Replaces u o m.file →
    match copyItem u o with
    | .ok data => Loads propertyList (drained m) data o.reads
    | .error left => Keeps propertyList m.file left
  | .checkAndLoadFile reads => ∀ data ∈ m.file, Loads propertyList (drained m) data reads
  | .deleteFile _ => True
  | .block => True

variable {propertyList}

/-- The main queue can always drain, and then `drained` is what is published. -/
theorem drain (m : Manager) : ∃ es, Run (Step propertyList) m es ⟨m.file, drained m, []⟩ := by
  obtain ⟨file, p, queue⟩ := m
  induction queue generalizing p with
  | nil => exact ⟨[], .nil⟩
  | cons b bs ih =>
    obtain ⟨es, h⟩ := ih (b.run p)
    exact ⟨.block :: es, .cons (.block rfl) h⟩

theorem describes_message {file : Option Bytes} {p : Published} (text : Text) :
    Describes propertyList file (Block.run p (.message text)) ↔ Describes propertyList file p :=
  ⟨fun h => ⟨h.paired, h.host, h.system, h.missing⟩,
    fun h => ⟨h.paired, h.host, h.system, h.missing⟩⟩

theorem describes_absent (p : Published) : Describes propertyList none (Block.run p .notStored) :=
  ⟨rfl, rfl, rfl, rfl⟩

theorem valueIn_dictionary {lookup : Text → Option PlistValue} {data : Bytes} (key : Text)
    (h : propertyList data = some (.dictionary lookup)) :
    valueIn propertyList key data = stringUnder key lookup := by
  unfold valueIn
  rw [h]

theorem valueIn_other {data : Bytes} (key : Text) (h : propertyList data = some .other) :
    valueIn propertyList key data = none := by
  unfold valueIn
  rw [h]

theorem describes_load {m : Manager} {data : Bytes} {reads : Bool} (hm : m.file = some data) :
    Describes propertyList (some data) (drained (checkAndLoadFile propertyList reads m)) ↔
      Loads propertyList (drained m) data reads := by
  unfold checkAndLoadFile parseFile Loads
  rw [hm]
  dsimp only
  rw [drained_post]
  cases hp : (if reads then propertyList data else none) with
  | none =>
    dsimp only
    rw [drained_post]
    constructor
    · intro h
      refine ⟨h.host, h.system, ?_⟩
      have hmissing := h.missing
      simpa [Block.run] using hmissing
    · rintro ⟨hhost, hsystem, hone⟩
      refine ⟨rfl, hhost, hsystem, ?_⟩
      simpa [Block.run] using hone
  | some x =>
    have hparse : propertyList data = some x := by
      cases reads with
      | true => exact hp
      | false => cases hp
    cases x with
    | dictionary lookup =>
      dsimp only
      rw [drained_post, iff_true]
      refine ⟨rfl, ?_, ?_, rfl⟩
      · exact (valueIn_dictionary _ hparse).symm
      · exact (valueIn_dictionary _ hparse).symm
    | other =>
      have hhost := valueIn_other "HostID".toList hparse
      have hsystem := valueIn_other "SystemBUID".toList hparse
      dsimp only
      constructor
      · intro h
        have h₁ : (drained m).hostID = none := h.host.trans hhost
        have h₂ : (drained m).systemBUID = none := h.system.trans hsystem
        have h₃ := h.missing
        refine ⟨h₁, h₂, ?_⟩
        simpa [Block.run, h₁, h₂] using h₃
      · rintro ⟨h₁, h₂, h₃⟩
        refine ⟨rfl, h₁.trans hhost.symm, h₂.trans hsystem.symm, ?_⟩
        simpa [Block.run, h₁, h₂] using h₃

theorem describes_keeps {file left : Option Bytes} {p : Published}
    (h : Describes propertyList file p) :
    Describes propertyList left p ↔ Keeps propertyList file left := by
  constructor
  · intro h'
    exact ⟨h'.paired.symm.trans h.paired, h'.host.symm.trans h.host,
      h'.system.symm.trans h.system⟩
  · rintro ⟨hsome, hhost, hsystem⟩
    refine ⟨h.paired.trans hsome.symm, h.host.trans hhost.symm, h.system.trans hsystem.symm, ?_⟩
    rw [hsome]
    exact h.missing

theorem importFile_describes {m : Manager} {u : Chosen} {o : Outcome}
    (h : Describes propertyList m.file (drained m)) :
    Describes propertyList (importFile propertyList u o m).file
      (drained (importFile propertyList u o m)) ↔ Clear propertyList m (.importFile u o) := by
  unfold Clear
  by_cases hr : Replaces u o m.file
  · rw [importFile_replaces hr]
    simp only [hr, true_imp_iff]
    cases copyItem u o with
    | ok data =>
      dsimp only
      rw [checkAndLoadFile_file]
      exact describes_load rfl
    | error left =>
      dsimp only
      rw [drained_post, describes_message]
      exact describes_keeps h
  · simp only [hr, false_imp_iff, iff_true]
    obtain he | ⟨text, he⟩ := @importFile_early propertyList u o m hr
    · rwa [he]
    · rw [he, drained_post, describes_message]
      exact h

theorem deleteFile_describes {m : Manager} (o : Outcome)
    (h : Describes propertyList m.file (drained m)) :
    Describes propertyList (deleteFile propertyList o m).file
      (drained (deleteFile propertyList o m)) := by
  unfold deleteFile
  by_cases hr : removesStored o m.file = true
  · rw [if_pos hr, checkAndLoadFile_file]
    unfold checkAndLoadFile
    dsimp only
    rw [drained_post]
    exact describes_absent _
  · rwa [if_neg hr]

/-- One step from a described state. -/
theorem step_describes {m m' : Manager} {e : Event} (h : Describes propertyList m.file (drained m))
    (hs : Step propertyList m e m') :
    Describes propertyList m'.file (drained m') ↔ Clear propertyList m e := by
  cases hs with
  | importFile => exact importFile_describes h
  | @deleteFile o => exact iff_of_true (deleteFile_describes o h) trivial
  | @checkAndLoadFile reads =>
    rw [checkAndLoadFile_file]
    unfold Clear
    cases hf : m.file with
    | none =>
      unfold checkAndLoadFile
      rw [hf]
      dsimp only
      rw [drained_post]
      exact iff_of_true (describes_absent _) (by simp)
    | some data =>
      rw [describes_load hf]
      simp
  | @block b bs hq =>
    have hd : drained { m with published := b.run m.published, queue := bs } = drained m := by
      unfold drained
      rw [hq]
      rfl
    rw [hd]
    exact iff_of_true h trivial

def started (propertyList : Bytes → Option Plist) (file : Option Bytes) (reads : Bool) : Manager :=
  checkAndLoadFile propertyList reads (unloaded file)

/-- The runs that describe the stored file in every state, once the main queue has
drained, are those in which no file leaves anything over that was published before. -/
theorem described_iff_clear (propertyList : Bytes → Option Plist) (file : Option Bytes)
    (reads : Bool) (es : List Event) (m : Manager) :
    (Describes propertyList file (drained (started propertyList file reads)) ∧
      Run (fun m e m' => Step propertyList m e m' ∧ Describes propertyList m'.file (drained m'))
        (started propertyList file reads) es m) ↔
    (Clear propertyList (unloaded file) (.checkAndLoadFile reads) ∧
      Run (fun m e m' => Step propertyList m e m' ∧ Clear propertyList m e)
        (started propertyList file reads) es m) := by
  have hfile : (started propertyList file reads).file = file := checkAndLoadFile_file reads
  have hstart : Describes propertyList file (drained (started propertyList file reads)) ↔
      Clear propertyList (unloaded file) (.checkAndLoadFile reads) := by
    unfold Clear started
    cases file with
    | none => exact iff_of_true (describes_absent _) (by simp [unloaded])
    | some data =>
      rw [describes_load rfl]
      simp [unloaded]
  rw [← hstart]
  apply and_congr_right
  intro h
  have hs : Describes propertyList (started propertyList file reads).file
      (drained (started propertyList file reads)) := by rwa [hfile]
  apply run_and_congr (I := fun m => Describes propertyList m.file (drained m)) hs
  intro m e m' hm hstep
  have hiff := step_describes hm hstep
  exact ⟨hiff, hiff.mpr⟩

section Import

variable {u : Chosen} {o : Outcome} {m : Manager}

structure Unchanged (p p' : Published) : Prop where
  paired : p'.isPaired = p.isPaired
  host : p'.hostID = p.hostID
  system : p'.systemBUID = p.systemBUID
  missing : p'.hasMissingKeys = p.hasMissingKeys

theorem unchanged_message (m : Manager) (text : Text) :
    Unchanged (drained m) (drained (post (.message text) m)) := by
  rw [drained_post]
  exact ⟨rfl, rfl, rfl, rfl⟩

theorem copyItem_ok {data : Bytes} (file : Option Bytes) (h : copyItem u o = .ok data) :
    u.content file = some data := by
  cases u with
  | stored => cases h
  | other b =>
    unfold copyItem at h
    dsimp only [Chosen.content] at h ⊢
    cases hc : o.copies with
    | ok x =>
      rw [hc] at h
      cases h
      rfl
    | error left =>
      rw [hc] at h
      cases h

/-- An import that does not store the new file leaves everything as it was, exactly
when no copy fails that was reached and leaves neither the old file nor the new one. -/
theorem failed_import_unchanged (propertyList : Bytes → Option Plist) (u : Chosen) (o : Outcome)
    (m : Manager) :
    ((importFile propertyList u o m).file ≠ u.content m.file →
      (importFile propertyList u o m).file = m.file ∧
        Unchanged (drained m) (drained (importFile propertyList u o m))) ↔
    (Replaces u o m.file → ∀ left, copyItem u o = .error left →
      left = m.file ∨ left = u.content m.file) := by
  by_cases hr : Replaces u o m.file
  · rw [importFile_replaces hr]
    simp only [hr, true_imp_iff]
    cases hc : copyItem u o with
    | ok data =>
      dsimp only
      rw [checkAndLoadFile_file, copyItem_ok m.file hc]
      simp
    | error left =>
      have hsame := unchanged_message { m with file := left } readMessage
      constructor
      · intro h left' hl
        cases hl
        by_cases hne : left = u.content m.file
        · exact .inr hne
        · exact .inl (h hne).1
      · intro h hne
        obtain he | he := h left rfl
        · exact ⟨he, hsame⟩
        · exact absurd he hne
  · refine iff_of_true (fun _ => ?_) (fun h => absurd h hr)
    obtain he | ⟨text, he⟩ := @importFile_early propertyList u o m hr
    · rw [he]
      exact ⟨rfl, rfl, rfl, rfl, rfl⟩
    · rw [he]
      exact ⟨rfl, unchanged_message m text⟩

end Import

section Example

def dictionaries (data : Bytes) : Option Plist :=
  if data = [1] then some (.dictionary fun _ => some (.string ['a'])) else some .other

def succeeds : Outcome := ⟨true, some (some 1), true, .ok (), true⟩

/-- After the import of a list the identifiers of the file before are still published. -/
theorem identifiers_survive : ∃ m : Manager,
    Run (Step dictionaries) (started dictionaries none true)
      [.importFile (.other [1]) succeeds, .importFile (.other [2]) succeeds] m ∧
    m.file = some [2] ∧ (drained m).hostID = some ['a'] ∧
    ¬ Describes dictionaries m.file (drained m) := by
  refine ⟨_, .cons .importFile (.cons .importFile .nil), rfl, rfl, fun h => ?_⟩
  have hhost : some ['a'] = none := h.host
  cases hhost

/-- To choose the stored file itself removes it, and it is still said to be there. -/
theorem own_file_lost : ∃ m m' : Manager, m' = importFile dictionaries .stored succeeds m ∧
    m'.file ≠ Chosen.stored.content m.file ∧ m'.file ≠ m.file ∧ m'.file = none ∧
    (drained m').isPaired = true := by
  refine ⟨⟨some [1], ⟨true, some ['a'], some ['a'], false, none⟩, []⟩, _, rfl, ?_, ?_, rfl, rfl⟩
  · intro h
    cases h
  · intro h
    cases h

end Example

end UnBoxer.PairingStates
