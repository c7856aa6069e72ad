import UnBoxer.FailedBackup
import UnBoxer.Runs
import UnBoxer.ViewModel

namespace UnBoxer.BackupStore

open UnBoxer.Trees UnBoxer.Programs UnBoxer.DirAll UnBoxer.Effects UnBoxer.PathText
open UnBoxer.Archives UnBoxer.TryBackup UnBoxer.RustIdevice UnBoxer.BackupEngine UnBoxer.ViewModel
open UnBoxer.BackupPaths UnBoxer.BackupFrame UnBoxer.FailedBackup UnBoxer.Runs UnBoxer.Instances

/-- A backup that was completed and not deleted, and what its archive held then. -/
structure Kept where
  order : Order
  archive : Except Errno Bytes

/-- The state of the app; `kept` is not part of the program. -/
structure Store where
  tree : Tree Text Bytes
  model : BackupViewModel
  kept : List Kept

inductive Move where
  | backup (house : HouseArrest) (o : Order)
  | delete (e : BackupEntry)
  | load

structure Shows (fm : FileManager) (t : Tree Text Bytes) : Prop where
  listed : ∀ ns, (∀ n ∈ ns, FileName n) → t.node ns = some .dir →
    ∃ names, fm.contentsOfDirectory ns = some names ∧ names.Nodup ∧
      ∀ n, n ∈ names ↔ FileName n ∧ t.node (ns ++ [n]) ≠ none
  missing : ∀ ns, t.node ns ≠ some .dir → fm.contentsOfDirectory ns = none
  contents : ∀ ns, (∀ n ∈ ns, FileName n) →
    fm.contents ns = (t.read (pieces (absolute ns))).toOption

section Steps

variable (F : Foundation) (c : Crates)

def metadataIn (n : Text) : List Text := backupsDirectory F ++ [n] ++ ["metadata.json".toList]

def completed (o : Order) (d : Disk Text UInt8) : Except Stop Text → List Kept
  | .ok zip => [⟨o, d.tree.read (pieces zip)⟩]
  | .error _ => []

def opened (t : Tree Text Bytes) (faults : List (Option Nat)) : Tree Text Bytes :=
  ((backupsDirectoryURL F).run ⟨t, faults, []⟩).2.tree

/-- The entry is one of the backup that was started with `o`. -/
def EntryOf (o : Order) (e : BackupEntry) : Prop := newEntry F o e.totalSize e.isDocumentsOnly = e

instance (o : Order) (e : BackupEntry) : Decidable (EntryOf F o e) := inferInstanceAs (Decidable (_ = _))

inductive Step : Store → Move → Store → Prop
  | backup {s : Store} {fuel : Nat} {house : HouseArrest} {o : Order}
      {faults : List (Option Nat)} {r : Except Stop Text} {d : Disk Text UInt8} :
      '/' ∉ o.bundleID →
      (BackupEngine.backupApp F c fuel house o).run ⟨s.tree, faults, []⟩ = (r, d) →
      Step s (.backup house o) ⟨d.tree, s.model, s.kept ++ completed o d r⟩
  | delete {s : Store} {e : BackupEntry} {faults faults' : List (Option Nat)}
      {t : Tree Text Bytes} {fm : FileManager} :
      e ∈ s.model.backups →
      removeItem (deletedDirectory F e) (opened F s.tree faults) = .ok t →
      Shows fm (opened F t faults') →
      Step s (.delete e) ⟨opened F t faults', deleteBackup F fm e s.model,
        s.kept.filter fun k => ¬ EntryOf F k.order e⟩
  | load {s : Store} {faults : List (Option Nat)} {fm : FileManager} :
      Shows fm (opened F s.tree faults) →
      Step s .load ⟨opened F s.tree faults, loadBackups F fm s.model, s.kept⟩

/-- A backup does not go to the directory of one that was completed and is still
there, unless the device does not let it begin. -/
def Apart (s : Store) : Move → Prop
  | .backup house o => (vend house o.bundleID).isOk = false ∨
    ∀ data, s.tree.node (metadataFile F o) = some (.file data) → F.decode data = none
  | _ => True

/-- The list shows each backup that was completed and not deleted once, the newest
first, and each with the archive that it wrote. -/
def Lawful (s : Store) : Prop :=
  (∃ es : List BackupEntry, es.Perm s.model.backups ∧
    List.Forall₂ (fun e k => EntryOf F k.order e ∧ ∃ data, k.archive = .ok data ∧
      s.tree.read (pieces (absolute (archiveFile F e))) = .ok data) es s.kept) ∧
  s.model.backups.Pairwise fun a b => b.date ≤ a.date

structure Started (s : Store) : Prop where
  kept : s.kept = []
  backups : s.model.backups = []
  entries : ∀ n, FileName n → ∀ data,
    s.tree.node (metadataIn F n) = some (.file data) → F.decode data = none

end Steps

section Invariant

variable {F : Foundation} {c : Crates}

def Holds (F : Foundation) (t : Tree Text Bytes) (k : Kept) : Prop :=
  (∃ size docs data, F.encode (newEntry F k.order size docs) = .ok data ∧
    t.node (metadataFile F k.order) = some (.file data)) ∧
  ∃ data, k.archive = .ok data ∧ t.node (zipFile F k.order) = some (.file data)

/-- Each backup that is kept has a directory of its own, and there are no other entries. -/
structure Sound (F : Foundation) (t : Tree Text Bytes) (kept : List Kept) : Prop where
  named : ∀ k ∈ kept, '/' ∉ k.order.bundleID ∧ nul ∉ k.order.bundleID
  holds : ∀ k ∈ kept, Holds F t k
  distinct : (kept.map fun k => relPath F k.order).Nodup
  known : ∀ n data e, FileName n → t.node (metadataIn F n) = some (.file data) →
    F.decode data = some e → ∃ k ∈ kept, relPath F k.order = n

/-- The list may lag behind, but shows no backup that is gone. -/
structure Inv (F : Foundation) (s : Store) : Prop where
  sound : Sound F s.tree s.kept
  shown : ∀ e ∈ s.model.backups, ∃ k ∈ s.kept, EntryOf F k.order e

theorem inv_started {s : Store} (h : Started F s) : Inv F s := by
  have hsound : Sound F s.tree [] := by
    refine ⟨by simp, by simp, by simp, fun n data e hn hnode hdec => ?_⟩
    rw [h.entries n hn data hnode] at hdec
    cases hdec
  refine ⟨h.kept ▸ hsound, fun e he => ?_⟩
  rw [h.backups] at he
  cases he

def Elsewhere (F : Foundation) (r : Text) (t t' : Tree Text Bytes) : Prop :=
  ∀ n m data, n ≠ r → (t'.node (backupsDirectory F ++ [n] ++ [m]) = some (.file data) ↔
    t.node (backupsDirectory F ++ [n] ++ [m]) = some (.file data))

theorem Elsewhere.holds {r : Text} {t t' : Tree Text Bytes} {k : Kept} (h : Elsewhere F r t t')
    (hr : relPath F k.order ≠ r) (hk : Holds F t k) : Holds F t' k := by
  obtain ⟨⟨size, docs, data, henc, hmeta⟩, data', harch, hzip⟩ := hk
  exact ⟨⟨size, docs, data, henc, (h _ _ _ hr).mpr hmeta⟩, data', harch, (h _ _ _ hr).mpr hzip⟩

theorem below_ne {n m r r' : Text} (h : n ≠ r) (p : List Text) :
    p ++ [n] ++ [m] ≠ p ++ [r] ++ [r'] := by
  intro he
  have hp := (List.append_inj' he rfl).1
  exact h (List.singleton_inj.mp (List.append_cancel_left hp))

theorem around_file {o : Order} {d d' : Disk Text UInt8} (h : Around F o d d') {q : List Text}
    (hz : q ≠ zipFile F o) (hm : q ≠ metadataFile F o) (data : Bytes) :
    d'.tree.node q = some (.file data) ↔ d.tree.node q = some (.file data) := by
  obtain h | ⟨_, hnone, hdir⟩ := h q hz hm
  · rw [h]
  · rw [hnone, hdir]
    simp

theorem elsewhere_around {o : Order} {d d' : Disk Text UInt8} (h : Around F o d d') :
    Elsewhere F (relPath F o) d.tree d'.tree :=
  fun _ _ data hn => around_file h (below_ne hn _) (below_ne hn _) data

/-- The directory of a kept backup is not free for another one. -/
theorem holds_apart (hF : F.Documented) {o : Order} {t : Tree Text Bytes} {k : Kept}
    (hfree : ∀ data, t.node (metadataFile F o) = some (.file data) → F.decode data = none)
    (hk : Holds F t k) : relPath F k.order ≠ relPath F o := by
  intro he
  obtain ⟨⟨size, docs, data, henc, hmeta⟩, _⟩ := hk
  have hsame : metadataFile F k.order = metadataFile F o := by
    unfold metadataFile backupDir
    rw [he]
  have hdec := hfree data (hsame ▸ hmeta)
  rw [hF.decode_encode _ _ henc] at hdec
  cases hdec

theorem abandoned_refused {house : HouseArrest} {o : Order} {d d' : Disk Text UInt8}
    (h : Abandoned F house o d d') (hv : (vend house o.bundleID).isOk = false) (q : List Text)
    (data : Bytes) : d'.tree.node q = some (.file data) ↔ d.tree.node q = some (.file data) := by
  obtain ⟨hz, hm⟩ := h.refused hv
  by_cases hqz : q = zipFile F o
  · rw [hqz, hz]
  by_cases hqm : q = metadataFile F o
  · rw [hqm, hm]
  · exact around_file h.around hqz hqm data

theorem sound_abandoned (hF : F.Documented) {s : Store} {house : HouseArrest} {o : Order}
    {d d' : Disk Text UInt8} (hi : Sound F s.tree s.kept) (hd : d.tree = s.tree)
    (ha : Apart F s (.backup house o)) (h : Abandoned F house o d d') :
    Sound F d'.tree s.kept where
  named := hi.named
  distinct := hi.distinct
  holds k hk := by
    have hold := hi.holds k hk
    obtain hv | hfree := ha
    · have hsame := abandoned_refused h hv
      rw [hd] at hsame
      obtain ⟨⟨size, docs, data, henc, hmeta⟩, data', harch, hzip⟩ := hold
      exact ⟨⟨size, docs, data, henc, (hsame _ _).mpr hmeta⟩, data', harch, (hsame _ _).mpr hzip⟩
    · exact (hd ▸ elsewhere_around h.around).holds (holds_apart hF hfree hold) hold
  known n data e hn hnode hdec := by
    by_cases hne : n = relPath F o
    · subst hne
      obtain hm | ⟨data', hm, hnone⟩ := h.metadata
      · exact hi.known _ data e hn (hd ▸ hm ▸ hnode) hdec
      · have hnode' : d'.tree.node (metadataFile F o) = some (.file data) := hnode
        rw [hm] at hnode'
        cases hnode'
        rw [hnone] at hdec
        cases hdec
    · exact hi.known n data e hn (hd ▸ (elsewhere_around h.around n _ data hne).mp hnode) hdec

theorem sound_finished (hF : F.Documented) {s : Store} {house : HouseArrest} {o : Order}
    {zip : Text} {d d' : Disk Text UInt8} (hi : Sound F s.tree s.kept) (hd : d.tree = s.tree)
    (hs : '/' ∉ o.bundleID)
    (ha : Apart F s (.backup house o)) (hzip : pieces zip = (zipFile F o).map .down)
    (h : Finished F house o d d') :
    Sound F d'.tree (s.kept ++ [⟨o, d'.tree.read (pieces zip)⟩]) := by
  have hfree : ∀ data, s.tree.node (metadataFile F o) = some (.file data) →
      F.decode data = none := by
    obtain hv | hfree := ha
    · rw [h.vended] at hv
      cases hv
    · exact hfree
  have hne : ∀ k ∈ s.kept, relPath F k.order ≠ relPath F o :=
    fun k hk => holds_apart hF hfree (hi.holds k hk)
  refine ⟨fun k hk => ?_, fun k hk => ?_, ?_, fun n data e hn hnode hdec => ?_⟩
  · obtain hk | hk := List.mem_append.mp hk
    · exact hi.named k hk
    · obtain rfl := List.mem_singleton.mp hk
      exact ⟨hs, h.named⟩
  · obtain hk | hk := List.mem_append.mp hk
    · exact (hd ▸ elsewhere_around h.around).holds (hne k hk) (hi.holds k hk)
    · obtain rfl := List.mem_singleton.mp hk
      obtain ⟨data, hfile⟩ := h.archive
      refine ⟨h.recorded, data, ?_, hfile⟩
      rw [hzip]
      exact Tree.read_downs.mpr hfile
  · rw [List.map_append, List.nodup_append]
    refine ⟨hi.distinct, List.nodup_singleton _, fun a ha b hb => ?_⟩
    obtain ⟨k, hk, rfl⟩ := List.mem_map.mp ha
    rw [List.mem_singleton.mp hb]
    exact hne k hk
  · by_cases hn' : n = relPath F o
    · exact ⟨_, List.mem_append_right _ (List.mem_singleton_self _), hn'.symm⟩
    · have hnode' := (elsewhere_around h.around n _ data hn').mp hnode
      obtain ⟨k, hk, hr⟩ := hi.known n data e hn (hd ▸ hnode') hdec
      exact ⟨k, List.mem_append_left _ hk, hr⟩

theorem opened_file (t : Tree Text Bytes) (faults : List (Option Nat)) (q : List Text)
    (data : Bytes) : (opened F t faults).node q = some (.file data) ↔
      t.node q = some (.file data) := by
  unfold opened
  obtain ⟨_, _, _, hled, _⟩ := (backupsDirectoryURL_spec F ⟨t, faults, []⟩).returns rfl
  obtain h | ⟨_, hnone, hdir⟩ := led_node (q := q) hled
  · rw [h]
  · have hnone' : t.node q = none := hnone
    rw [hnone', hdir]
    simp

theorem opened_dir (t : Tree Text Bytes) (faults : List (Option Nat)) {q : List Text}
    (h : t.node q = some .dir) : (opened F t faults).node q = some .dir :=
  (run_after _ _).dir _ h

theorem load_files {s s' : Store} (h : Step F c s .load s') : s'.kept = s.kept ∧
    ∀ q data, s'.tree.node q = some (.file data) ↔ s.tree.node q = some (.file data) := by
  cases h with
  | @load faults fm _ => exact ⟨rfl, opened_file s.tree faults⟩

theorem sound_same {t t' : Tree Text Bytes} {kept : List Kept} (hi : Sound F t kept)
    (h : ∀ q data, t'.node q = some (.file data) ↔ t.node q = some (.file data)) :
    Sound F t' kept where
  named := hi.named
  distinct := hi.distinct
  holds k hk := by
    obtain ⟨⟨size, docs, data, henc, hmeta⟩, data', harch, hzip⟩ := hi.holds k hk
    exact ⟨⟨size, docs, data, henc, (h _ _).mpr hmeta⟩, data', harch, (h _ _).mpr hzip⟩
  known n data e hn hnode hdec := hi.known n data e hn ((h _ _).mp hnode) hdec

end Invariant

section Lists

variable {α β : Type} {f : α → Option β}

theorem filterMap_isSome (l : List α) :
    (l.filter fun x => (f x).isSome).filterMap f = l.filterMap f := by
  rw [List.filterMap_filter]
  congr 1
  funext x
  cases f x <;> rfl

theorem filterMap_perm {l l' : List α} (hl : l.Nodup) (hl' : l'.Nodup) (hsub : l ⊆ l')
    (hf : ∀ x ∈ l', f x ≠ none → x ∈ l) : (l.filterMap f).Perm (l'.filterMap f) := by
  rw [← filterMap_isSome l, ← filterMap_isSome l']
  apply List.Perm.filterMap
  apply (List.perm_ext_iff_of_nodup (hl.filter _) (hl'.filter _)).mpr
  intro x
  rw [List.mem_filter, List.mem_filter, Option.isSome_iff_ne_none]
  exact ⟨fun h => ⟨hsub h.1, h.2⟩, fun h => ⟨hf x h.1 h.2, h.2⟩⟩

theorem forall₂_filterMap {R : β → α → Prop} {l : List α}
    (h : ∀ x ∈ l, ∃ y, f x = some y ∧ R y x) : List.Forall₂ R (l.filterMap f) l := by
  induction l with
  | nil => exact .nil
  | cons x l ih =>
    obtain ⟨y, hy, hR⟩ := h x List.mem_cons_self
    rw [List.filterMap_cons_some hy]
    exact .cons hR (ih fun z hz => h z (List.mem_cons_of_mem _ hz))

theorem forall₂_right {R : β → α → Prop} {l : List β} {l' : List α} (h : List.Forall₂ R l l')
    {y : α} (hy : y ∈ l') : ∃ x ∈ l, R x y := by
  induction h with
  | nil => cases hy
  | cons hR _ ih =>
    obtain rfl | hy := List.mem_cons.mp hy
    · exact ⟨_, List.mem_cons_self, hR⟩
    · obtain ⟨x, hx, hxy⟩ := ih hy
      exact ⟨x, List.mem_cons_of_mem _ hx, hxy⟩

theorem forall₂_left {R : β → α → Prop} {l : List β} {l' : List α} (h : List.Forall₂ R l l')
    {x : β} (hx : x ∈ l) : ∃ y ∈ l', R x y := forall₂_right h.flip hx

end Lists

section Load

variable {F : Foundation} {fm : FileManager} {t : Tree Text Bytes} {kept : List Kept}

theorem archiveFile_newEntry (o : Order) (size : Int64) (docs : Bool) :
    archiveFile F (newEntry F o size docs) = zipFile F o := by
  unfold archiveFile zipFile backupDir newEntry
  rw [List.append_assoc, List.singleton_append]

theorem entryIn_some (hs : Shows fm t) {n : Text} (hn : FileName n) (e : BackupEntry) :
    entryIn F fm n = some e ↔
      ∃ data, t.node (metadataIn F n) = some (.file data) ∧ F.decode data = some e := by
  have hnames : ∀ m ∈ metadataIn F n, FileName m := by
    have hj : FileName "metadata.json".toList := by decide
    intro m hm
    obtain hm | hm := List.mem_append.mp hm
    · obtain hm | hm := List.mem_append.mp hm
      · exact fileName_backups F m hm
      · rwa [List.mem_singleton.mp hm]
    · rwa [List.mem_singleton.mp hm]
  change (fm.contents (metadataIn F n)).bind F.decode = some e ↔ _
  rw [hs.contents _ hnames, pieces_absolute hnames, Option.bind_eq_some_iff]
  refine exists_congr fun data => and_congr_left fun _ => ?_
  rw [← Tree.read_downs]
  cases t.read ((metadataIn F n).map .down) <;> simp [Except.toOption]

theorem Sound.entry (hF : F.Documented) (h : Sound F t kept) {k : Kept} (hk : k ∈ kept)
    {data : Bytes} {e : BackupEntry} (hnode : t.node (metadataFile F k.order) = some (.file data))
    (hdec : F.decode data = some e) : EntryOf F k.order e := by
  obtain ⟨⟨size, docs, data', henc, hmeta⟩, _⟩ := h.holds k hk
  rw [hmeta] at hnode
  cases hnode
  rw [hF.decode_encode _ _ henc] at hdec
  cases hdec
  rfl

theorem lawful_load (hF : F.Documented) (h : Sound F t kept) (hs : Shows fm t)
    (hB : t.node (backupsDirectory F) = some .dir) (m : BackupViewModel) :
    Lawful F ⟨t, loadBackups F fm m, kept⟩ := by
  obtain ⟨names, hnames, hnodup, hmem⟩ := hs.listed _ (fileName_backups F) hB
  have hload : (loadBackups F fm m).backups =
      sorted (fun a b => decide (b.date < a.date)) (names.filterMap (entryIn F fm)) := by
    unfold loadBackups
    rw [hnames]
  have hfile : ∀ k ∈ kept, FileName (relPath F k.order) :=
    fun k hk => fileName_relPath hF (h.named k hk).1 (h.named k hk).2
  have hentry : ∀ k ∈ kept, ∃ e, entryIn F fm (relPath F k.order) = some e ∧
      EntryOf F k.order e ∧ ∃ data, k.archive = .ok data ∧
        t.read (pieces (absolute (archiveFile F e))) = .ok data := by
    intro k hk
    obtain ⟨⟨size, docs, data, henc, hmeta⟩, data', harch, hzip⟩ := h.holds k hk
    have hdec := hF.decode_encode _ _ henc
    refine ⟨_, (entryIn_some hs (hfile k hk) _).mpr ⟨data, hmeta, hdec⟩, rfl, data', harch, ?_⟩
    have hloc := located_newEntry hF (h.named k hk).1 (h.named k hk).2 size docs
    rw [pieces_absolute (fileName_archive F hloc), archiveFile_newEntry]
    exact Tree.read_downs.mpr hzip
  have hsub : (kept.map fun k => relPath F k.order) ⊆ names := by
    intro n hn
    obtain ⟨k, hk, rfl⟩ := List.mem_map.mp hn
    obtain ⟨⟨size, docs, data, _, hmeta⟩, _⟩ := h.holds k hk
    have hdir := t.parent (backupDir F k.order) "metadata.json".toList
      (by change t.node (metadataFile F k.order) ≠ none; simp [hmeta])
    exact (hmem _).mpr ⟨hfile k hk, by change t.node (backupDir F k.order) ≠ none; simp [hdir]⟩
  have hknown : ∀ n ∈ names, entryIn F fm n ≠ none → n ∈ kept.map fun k => relPath F k.order := by
    intro n hn hne
    obtain ⟨e, he⟩ := Option.ne_none_iff_exists'.mp hne
    have hname := ((hmem n).mp hn).1
    obtain ⟨data, hnode, hdec⟩ := (entryIn_some hs hname e).mp he
    obtain ⟨k, hk, hr⟩ := h.known n data e hname hnode hdec
    exact List.mem_map.mpr ⟨k, hk, hr⟩
  refine ⟨⟨kept.filterMap fun k => entryIn F fm (relPath F k.order), ?_,
    forall₂_filterMap hentry⟩, ?_⟩
  · rw [hload]
    have hperm := filterMap_perm h.distinct hnodup hsub hknown
    rw [List.filterMap_map] at hperm
    exact hperm.trans (sorted_perm _ _).symm
  · rw [hload]
    exact sorted_date _

theorem Lawful.shown {s : Store} (h : Lawful F s) : ∀ e ∈ s.model.backups,
    ∃ k ∈ s.kept, EntryOf F k.order e := by
  obtain ⟨⟨es, hperm, hall⟩, _⟩ := h
  intro e he
  obtain ⟨k, hk, hR⟩ := forall₂_left hall (hperm.mem_iff.mpr he)
  exact ⟨k, hk, hR.1⟩

theorem Lawful.archived {s : Store} (h : Lawful F s) {k : Kept} (hk : k ∈ s.kept)
    (hn : ∀ n ∈ zipFile F k.order, FileName n) :
    ∃ data, k.archive = .ok data ∧ s.tree.node (zipFile F k.order) = some (.file data) := by
  obtain ⟨⟨es, _, hall⟩, _⟩ := h
  obtain ⟨e, _, he, data, harch, hread⟩ := forall₂_right hall hk
  have hfile := archiveFile_newEntry (F := F) k.order e.totalSize e.isDocumentsOnly
  unfold EntryOf at he
  rw [he] at hfile
  rw [hfile, pieces_absolute hn, Tree.read_downs] at hread
  exact ⟨data, harch, hread⟩

theorem Sound.dir (h : Sound F t kept) {k : Kept} (hk : k ∈ kept) :
    t.node (backupsDirectory F) = some .dir := by
  obtain ⟨_, data, _, hzip⟩ := h.holds k hk
  apply t.dir_of_prefix ((List.prefix_append _ _).trans (List.prefix_append _ _)) ?_
    (show t.node (zipFile F k.order) ≠ none by simp [hzip])
  intro he
  have hlen := congrArg List.length he
  simp only [List.length_append, List.length_singleton] at hlen
  omega

theorem Sound.none (h : Sound F t kept) (hB : t.node (backupsDirectory F) ≠ some .dir) :
    kept = [] :=
  List.eq_nil_iff_forall_not_mem.mpr fun _ hk => hB (h.dir hk)

theorem inv_load (hF : F.Documented) {s : Store} (hi : Inv F s) (hs : Shows fm s.tree) :
    Inv F ⟨s.tree, loadBackups F fm s.model, s.kept⟩ ∧
      Lawful F ⟨s.tree, loadBackups F fm s.model, s.kept⟩ := by
  by_cases hB : s.tree.node (backupsDirectory F) = some .dir
  · have hlaw := lawful_load hF hi.sound hs hB s.model
    exact ⟨⟨hi.sound, hlaw.shown⟩, hlaw⟩
  · have hsame : loadBackups F fm s.model = s.model := by
      unfold loadBackups
      rw [hs.missing _ hB]
    have hkept := hi.sound.none hB
    have hback : s.model.backups = [] := by
      refine List.eq_nil_iff_forall_not_mem.mpr fun e he => ?_
      obtain ⟨k, hk, _⟩ := hi.shown e he
      rw [hkept] at hk
      cases hk
    rw [hsame]
    refine ⟨hi, ⟨[], ?_, ?_⟩, ?_⟩
    · rw [hback]
    · rw [hkept]
      exact .nil
    · rw [hback]
      exact .nil

theorem sound_delete (hF : F.Documented) (h : Sound F t kept) {k : Kept} (hk : k ∈ kept)
    {e : BackupEntry} (he : EntryOf F k.order e) {t' : Tree Text Bytes}
    (hrem : removeItem (deletedDirectory F e) t = .ok t') :
    Sound F t' (kept.filter fun k => ¬ EntryOf F k.order e) ∧
      t'.node (backupsDirectory F) = some .dir := by
  have hrel : ∀ {o}, EntryOf F o e → relPath F o = e.relativePath :=
    fun ho => congrArg BackupEntry.relativePath ho
  have hnames : ∀ n ∈ deletedDirectory F e, FileName n := by
    intro n hn
    obtain hn | hn := List.mem_append.mp hn
    · exact fileName_backups F n hn
    · rw [List.mem_singleton.mp hn, ← hrel he]
      exact fileName_relPath hF (h.named k hk).1 (h.named k hk).2
  unfold removeItem at hrem
  rw [if_neg (nul_absolute hnames), pieces_absolute hnames] at hrem
  have hnode : ∀ q, t'.node q =
      if backupsDirectory F ++ [e.relativePath] <+: q then none else t.node q :=
    Tree.removeAll_downs hrem
  have hout : ∀ n, n ≠ e.relativePath → ∀ ms, ¬ backupsDirectory F ++ [e.relativePath] <+:
      backupsDirectory F ++ [n] ++ ms := by
    intro n hn ms hp
    rw [List.append_assoc, List.prefix_append_right_inj, List.singleton_append,
      List.cons_prefix_cons] at hp
    exact hn hp.1.symm
  have helse : Elsewhere F e.relativePath t t' := by
    intro n m data hn
    rw [hnode, if_neg (hout n hn [m])]
  have hfilter : ∀ k', k' ∈ kept.filter (fun k => ¬ EntryOf F k.order e) ↔
      k' ∈ kept ∧ ¬ EntryOf F k'.order e := by simp [List.mem_filter]
  refine ⟨⟨fun k' hk' => h.named k' ((hfilter k').mp hk').1, fun k' hk' => ?_,
    h.distinct.sublist (List.filter_sublist.map _), fun n data e' hn hnode' hdec => ?_⟩, ?_⟩
  · obtain ⟨hk', hne⟩ := (hfilter k').mp hk'
    refine helse.holds (fun hr => hne ?_) (h.holds k' hk')
    have heq := List.inj_on_of_nodup_map h.distinct hk' hk (hr.trans (hrel he).symm)
    rwa [heq]
  · have hne : n ≠ e.relativePath := by
      rintro rfl
      have hgone := hnode (metadataIn F e.relativePath)
      have hp : backupsDirectory F ++ [e.relativePath] <+: metadataIn F e.relativePath :=
        List.prefix_append _ _
      rw [if_pos hp, hnode'] at hgone
      cases hgone
    obtain ⟨k', hk', hr⟩ := h.known n data e' hn ((helse n _ data hne).mp hnode') hdec
    exact ⟨k', (hfilter k').mpr ⟨hk', fun he' => hne (hr ▸ hrel he')⟩, hr⟩
  · rw [hnode, if_neg, h.dir hk]
    intro hp
    have hlen := hp.length_le
    rw [List.length_append, List.length_singleton] at hlen
    omega

end Load

section Law

variable {F : Foundation} {c : Crates}

/-- One step keeps the invariant, and every list that it loads is right. -/
theorem step_inv (hF : F.Documented) {s s' : Store} {m : Move} (hi : Inv F s) (ha : Apart F s m)
    (hs : Step F c s m s') : Inv F s' ∧ ((∀ house o, m ≠ .backup house o) → Lawful F s') := by
  cases hs with
  | @backup fuel house o faults r d hslash hrun =>
    have hspec := @backupApp_spec F o c fuel house hF hslash
      ⟨s.tree, faults, []⟩ _ rfl
    rw [hrun] at hspec
    refine ⟨?_, fun h => absurd rfl (h house o)⟩
    cases r with
    | error stop =>
      have hsound := sound_abandoned hF hi.sound rfl ha hspec
      exact ⟨(List.append_nil s.kept).symm ▸ hsound, fun e he => by
        rw [completed, List.append_nil]
        exact hi.shown e he⟩
    | ok zip =>
      obtain ⟨hzip, hfin⟩ := hspec
      refine ⟨sound_finished hF hi.sound rfl hslash ha hzip hfin, fun e he => ?_⟩
      obtain ⟨k, hk, hke⟩ := hi.shown e he
      exact ⟨k, List.mem_append_left _ hk, hke⟩
  | @delete e faults faults' t fm he hrem hshow =>
    obtain ⟨k, hk, hke⟩ := hi.shown e he
    have hopen := sound_same hi.sound (opened_file (F := F) s.tree faults)
    obtain ⟨hsound, hB⟩ := sound_delete hF hopen hk hke hrem
    have hsound' := sound_same hsound (opened_file (F := F) t faults')
    have hlaw := lawful_load hF hsound' hshow (opened_dir _ _ hB)
      (if s.model.selectedBackup.map BackupEntry.id = some e.id then clearExtraction s.model
        else s.model)
    exact ⟨⟨hsound', hlaw.shown⟩, fun _ => hlaw⟩
  | @load faults fm hshow =>
    have hopen : Inv F ⟨opened F s.tree faults, s.model, s.kept⟩ :=
      ⟨sound_same hi.sound (opened_file s.tree faults), hi.shown⟩
    obtain ⟨hinv, hlaw⟩ := inv_load hF hopen hshow
    exact ⟨hinv, fun _ => hlaw⟩

/-- In every run in which no backup goes to the directory of one that is still
there, each list that is loaded shows every backup that was completed and not
deleted once, the newest first, with the archive that it wrote. -/
theorem backups_list_completed (hF : F.Documented) {s₀ s s' : Store} {ms : List Move} {m : Move}
    (h₀ : Started F s₀) (hrun : Run (fun s m s' => Step F c s m s' ∧ Apart F s m) s₀ ms s)
    (hm : ∀ house o, m ≠ .backup house o) (hs : Step F c s m s') : Lawful F s' := by
  have hi : Inv F s := hrun.invariant (inv_started h₀)
    fun _ _ _ hi h => (step_inv hF hi h.2 h.1).1
  have ha : Apart F s m := by
    cases m with
    | backup house o => exact absurd rfl (hm house o)
    | _ => trivial
  exact (step_inv hF hi ha hs).2 hm

end Law

section Example

theorem exists_shows (t : Tree Text Bytes) : ∃ fm, Shows fm t := by
  classical
  have hfinite : ∀ ns, {n | FileName n ∧ t.node (ns ++ [n]) ≠ none}.Finite := by
    intro ns
    have hinj : Set.InjOn (fun n => ns ++ [n]) (Set.preimage (fun n => ns ++ [n]) {p | t.node p ≠ none}) :=
      fun a _ b _ h => List.singleton_inj.mp (List.append_cancel_left h)
    exact (t.finite.preimage hinj).subset fun n h => h.2
  refine ⟨⟨fun ns => if t.node ns = some .dir then some (hfinite ns).toFinset.toList else none,
    fun ns => (t.read (pieces (absolute ns))).toOption, fun _ => none, fun _ _ => true, 0⟩,
    fun ns _ hd => ⟨_, if_pos hd, Finset.nodup_toList _, fun n => ?_⟩, fun ns hd => if_neg hd,
    fun ns _ => rfl⟩
  rw [Finset.mem_toList, Set.Finite.mem_toFinset]
  rfl

def emptyStore : Store := ⟨emptyTree, ⟨[], none, none, [], false, none⟩, []⟩

theorem emptyStore_started : Started foundation emptyStore where
  kept := rfl
  backups := rfl
  entries n _ data h := by
    have hne : metadataIn foundation n ≠ [] := by simp [metadataIn]
    have hnone : (emptyTree : Tree Text Bytes).node (metadataIn foundation n) = none := by
      simp only [emptyTree, if_neg hne]
    have h' : (emptyTree : Tree Text Bytes).node (metadataIn foundation n) = some (.file data) := h
    rw [hnone] at h'
    cases h'

def backedUp (data : Bytes) (o : Order) (s : Store) : Store :=
  let result := (BackupEngine.backupApp foundation crates 3 (vending (oneFileAfc ['a'] data)) o).run
    ⟨s.tree, [], []⟩
  ⟨result.2.tree, s.model, s.kept ++ completed o result.2 result.1⟩

theorem step_backedUp (data : Bytes) {o : Order} (ho : '/' ∉ o.bundleID) (s : Store) :
    Step foundation crates s (.backup (vending (oneFileAfc ['a'] data)) o) (backedUp data o s) := by
  unfold backedUp
  exact .backup ho rfl

def twoBackups (data : Bytes) (o : Order) : Store :=
  backedUp data o (backedUp [7] firstOrder emptyStore)

theorem backups_list_completed_two : ∃ s, Step foundation crates (twoBackups [8] secondOrder) .load s ∧
    Lawful foundation s := by
  obtain ⟨fm, hfm⟩ := exists_shows (opened foundation (twoBackups [8] secondOrder).tree [])
  have hfirst : Apart foundation emptyStore
      (.backup (vending (oneFileAfc ['a'] [7])) firstOrder) := .inr fun data h => by
    have hnone : emptyStore.tree.node (metadataFile foundation firstOrder) = none := by decide +kernel
    rw [hnone] at h
    cases h
  have hsecond : Apart foundation (backedUp [7] firstOrder emptyStore)
      (.backup (vending (oneFileAfc ['a'] [8])) secondOrder) := .inr fun data h => by
    have hnone : (backedUp [7] firstOrder emptyStore).tree.node
        (metadataFile foundation secondOrder) = none := by decide +kernel
    rw [hnone] at h
    cases h
  have hrun : Run (fun s m s' => Step foundation crates s m s' ∧ Apart foundation s m) emptyStore
      [.backup (vending (oneFileAfc ['a'] [7])) firstOrder,
        .backup (vending (oneFileAfc ['a'] [8])) secondOrder] (twoBackups [8] secondOrder) :=
    .cons ⟨step_backedUp [7] (by decide) emptyStore, hfirst⟩
      (.cons ⟨step_backedUp [8] (by decide) _, hsecond⟩ .nil)
  have hload := Step.load (c := crates) hfm
  exact ⟨_, hload, backups_list_completed foundation_documented emptyStore_started hrun
    (fun _ _ h => by cases h) hload⟩

def sameSecond : Order := { firstOrder with id := 1 }

/-- A second backup within the same second takes the archive of the first one over. -/
theorem same_second_overwrites : Started foundation emptyStore ∧
    Run (Step foundation crates) emptyStore
      [.backup (vending (oneFileAfc ['a'] [7])) firstOrder,
        .backup (vending (oneFileAfc ['a'] [8])) sameSecond] (twoBackups [8] sameSecond) ∧
    (∃ s, Step foundation crates (twoBackups [8] sameSecond) .load s) ∧
    ∀ s, Step foundation crates (twoBackups [8] sameSecond) .load s → ¬ Lawful foundation s := by
  refine ⟨emptyStore_started, .cons (step_backedUp [7] (by decide) emptyStore)
    (.cons (step_backedUp [8] (by decide) _) .nil), ?_, fun s hs hlaw => ?_⟩
  · obtain ⟨fm, hfm⟩ := exists_shows (opened foundation (twoBackups [8] sameSecond).tree [])
    exact ⟨_, .load hfm⟩
  · obtain ⟨k, hk, hpair⟩ : ∃ k ∈ (twoBackups [8] sameSecond).kept,
        (k.archive, zipFile foundation k.order) =
          (.ok (crates.finished [⟨['a'], [7]⟩]), zipFile foundation firstOrder) := by
      apply List.mem_map.mp
      decide +kernel
    obtain ⟨harch, hplace⟩ := Prod.mk.inj hpair
    have hzip : (twoBackups [8] sameSecond).tree.node (zipFile foundation firstOrder) =
        some (.file (crates.finished [⟨['a'], [8]⟩])) := by decide +kernel
    obtain ⟨hkept, hfiles⟩ := load_files hs
    have hnames : ∀ n ∈ zipFile foundation k.order, FileName n := by
      rw [hplace]
      decide +kernel
    rw [← hkept] at hk
    obtain ⟨data, hdata, hopen⟩ := hlaw.archived hk hnames
    rw [hfiles, hplace, hzip] at hopen
    rw [harch] at hdata
    cases hdata
    revert hopen
    decide +kernel

end Example

end UnBoxer.BackupStore
