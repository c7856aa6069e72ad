import UnBoxer.BackupContents
import UnBoxer.QuietRuns

namespace UnBoxer.SizeLimit

open UnBoxer.Trees UnBoxer.Programs UnBoxer.DirAll UnBoxer.PathText UnBoxer.Archives
open UnBoxer.TryBackup UnBoxer.Worklist UnBoxer.DeviceTrees UnBoxer.BackupWalk
open UnBoxer.BackupLoop UnBoxer.BackupContents UnBoxer.Effects UnBoxer.QuietRuns
open UnBoxer.Instances hiding backupEntry

/-- How much goes into an entry that was not started as a large file. -/
def threshold : Nat := 2 ^ 32 - 1

/-- The last entry can be closed: it has not grown over the threshold by being compressed. -/
def Closable (packed : Bytes → Nat) (rs : List Record) : Prop :=
  ∀ r ∈ rs.getLast?, packed r.data ≤ threshold

/-- What the zip crate does with the calls of its writer, where `packed` is the length of
an entry's compressed bytes. The next entry and the end of the archive close the entry before. -/
structure Accepting (packed : Bytes → Nat) (c : Crates) : Prop where
  packed_nil : packed [] ≤ threshold
  addDirectory : ∀ rs n, c.reject rs (.addDirectory n) = none ↔
    Closable packed rs ∧ c.dirName n ∉ rs.map Record.name
  startFile : ∀ rs n, c.reject rs (.startFile n) = none ↔
    Closable packed rs ∧ n ∉ rs.map Record.name
  writeAll : ∀ rs r b,
    c.reject (rs ++ [r]) (.writeAll b) = none ↔ (r.data ++ b).length ≤ threshold
  finish : ∀ rs, c.reject rs .finish = none ↔ Closable packed rs

/-- No entry is over the threshold, and none of the closed ones was when it was compressed. -/
structure Small (packed : Bytes → Nat) (rs : List Record) : Prop where
  written : ∀ r ∈ rs, r.data.length ≤ threshold
  closed : ∀ r ∈ rs.dropLast, packed r.data ≤ threshold

theorem closed_concat {packed : Bytes → Nat} {rs : List Record}
    (h : ∀ r ∈ rs.dropLast, packed r.data ≤ threshold) (hc : Closable packed rs) :
    ∀ r ∈ rs, packed r.data ≤ threshold := by
  intro r hr
  obtain rfl | ⟨rs', last, rfl⟩ := List.eq_nil_or_concat' rs
  · cases hr
  obtain hr | hr := List.mem_append.mp hr
  · exact h r (by simpa using hr)
  · exact hc r (by simp [List.mem_singleton.mp hr])

section Returned

variable {packed : Bytes → Nat} {c : Crates} {p : List Text} {full : Text} {afc : Afc}
variable {w w' : Walk}

theorem zipCall_returned {z : ZipCall} {what : Text} {error : Errno → Text}
    (h : Returns (zipCall c p w z what error) (.ok w')) :
    c.reject w.entries z = none ∧ w' = { w with entries := c.record w.entries z } := by
  unfold zipCall at h
  cases hr : c.reject w.entries z with
  | some e =>
    rw [hr] at h
    cases h
  | none =>
    rw [hr] at h
    cases h with
    | call reply h =>
      cases reply with
      | error e => cases h
      | ok u =>
        cases h
        exact ⟨rfl, rfl⟩

theorem Small.concat (hw : Small packed w.entries) (hc : Closable packed w.entries) (n : Text) :
    Small packed (w.entries ++ [⟨n, []⟩]) := by
  constructor
  · intro r hmem
    obtain hmem | hmem := List.mem_append.mp hmem
    · exact hw.written r hmem
    · rw [List.mem_singleton.mp hmem]
      exact Nat.zero_le _
  · rw [List.dropLast_concat]
    exact closed_concat hw.closed hc

theorem zipCall_small (ha : Accepting packed c) {z : ZipCall} {what : Text}
    {error : Errno → Text} (hw : Small packed w.entries)
    (h : Returns (zipCall c p w z what error) (.ok w')) : Small packed w'.entries := by
  obtain ⟨hr, rfl⟩ := zipCall_returned h
  cases z with
  | addDirectory n => exact hw.concat ((ha.addDirectory _ n).mp hr).1 (c.dirName n)
  | startFile n => exact hw.concat ((ha.startFile _ n).mp hr).1 n
  | finish => exact hw
  | writeAll b =>
    obtain ⟨hwritten, hclosed⟩ := hw
    obtain hnil | ⟨rs, last, hrs⟩ := List.eq_nil_or_concat' w.entries
    · have hrec : c.record w.entries (.writeAll b) = [] := by
        rw [hnil]
        rfl
      rw [hrec]
      constructor <;> simp
    rw [hrs] at hr hwritten hclosed
    rw [List.dropLast_concat] at hclosed
    have hrec : c.record w.entries (.writeAll b) = rs ++ [{ last with data := last.data ++ b }] := by
      rw [hrs, Crates.record, List.modifyLast_concat]
    refine ⟨fun r hmem => ?_, fun r hmem => ?_⟩
    · rw [hrec] at hmem
      obtain hmem | hmem := List.mem_append.mp hmem
      · exact hwritten r (by simp [hmem])
      · rw [List.mem_singleton.mp hmem]
        exact (ha.writeAll rs last b).mp hr
    · rw [hrec, List.dropLast_concat] at hmem
      exact hclosed r hmem

theorem Small.passed (hw : Small packed w.entries) {e what : Text}
    (h : Returns (if isPermissionDenied e then .done (.ok w) else halt w what) (.ok w')) :
    Small packed w'.entries := by
  split at h
  · cases h
    exact hw
  · cases h

theorem copyFile_small (ha : Accepting packed c) (reads : List (Except Text Bytes))
    (hw : Small packed w.entries) (h : Returns (copyFile c p full w reads) (.ok w')) :
    Small packed w'.entries := by
  induction reads generalizing w with
  | nil =>
    cases h
    exact hw
  | cons r reads ih =>
    cases r with
    | error e => cases h
    | ok b =>
      rw [copyFile] at h
      split at h
      · cases h
        exact hw
      · obtain ⟨w₁, hz, hc⟩ := h.bind_ok
        have hw₀ : Small packed
            ({ w with total := w.total + Int64.ofNat b.length } : Walk).entries := hw
        exact ih (zipCall_small ha hw₀ hz) hc

theorem backupKind_small (ha : Accepting packed c) {fmt : Text} (hw : Small packed w.entries)
    (h : Returns (backupKind c p afc full w fmt) (.ok w')) : Small packed w'.entries := by
  unfold backupKind at h
  split at h
  · obtain ⟨w₁, hz, hc⟩ := h.bind_ok
    have hw₁ : Small packed w₁.entries := zipCall_small ha hw hz
    cases hc
    exact hw₁
  split at h
  · unfold backupFile at h
    have hw₀ : Small packed
        ({ w with requests := w.requests ++ [.openFile full] } : Walk).entries := hw
    cases ho : afc.openFile w.requests full with
    | ok reads =>
      rw [ho] at h
      obtain ⟨w₁, hz, hc⟩ := h.bind_ok
      exact copyFile_small ha reads (zipCall_small ha hw₀ hz) hc
    | error e =>
      rw [ho] at h
      exact hw₀.passed h
  · cases h
    exact hw

theorem backupEntry_small (ha : Accepting packed c) {dir entry : Text} (hw : Small packed w.entries)
    (h : Returns (backupEntry c p afc dir w entry) (.ok w')) : Small packed w'.entries := by
  unfold backupEntry at h
  split at h
  · cases h
    exact hw
  unfold backupNode at h
  have hw₀ : Small packed
      ({ w with requests := w.requests ++ [.getFileInfo (fullPath dir entry)] } : Walk).entries := hw
  cases hi : afc.getFileInfo w.requests (fullPath dir entry) with
  | ok fmt =>
    rw [hi] at h
    exact backupKind_small ha hw₀ h
  | error e =>
    rw [hi] at h
    exact hw₀.passed h

theorem backupEntries_small (ha : Accepting packed c) {dir : Text} (entries : List Text)
    (hw : Small packed w.entries)
    (h : Returns (Prog.fold (backupEntry c p afc dir) w entries) (.ok w')) :
    Small packed w'.entries := by
  induction entries generalizing w with
  | nil =>
    cases h
    exact hw
  | cons entry entries ih =>
    obtain ⟨w₁, he, hf⟩ := h.bind_ok
    exact ih (backupEntry_small ha hw he) hf

theorem backupListing_small (ha : Accepting packed c) {dir : Text} (hw : Small packed w.entries)
    (h : Returns (backupListing c p afc dir w) (.ok w')) : Small packed w'.entries := by
  unfold backupListing at h
  have hw₀ : Small packed ({ w with requests := w.requests ++ [.listDir dir] } : Walk).entries := hw
  cases hl : afc.listDir w.requests dir with
  | ok entries =>
    rw [hl] at h
    exact backupEntries_small ha entries hw₀ h
  | error e =>
    rw [hl] at h
    exact hw₀.passed h

theorem backupLoop_small (ha : Accepting packed c) (fuel : Nat) (hw : Small packed w.entries)
    (h : Returns (backupLoop c p afc fuel w) (.ok w')) : Small packed w'.entries := by
  induction fuel generalizing w with
  | zero => cases h
  | succ fuel ih =>
    rw [backupLoop] at h
    cases hs : w.stack with
    | nil =>
      rw [hs] at h
      cases h
      exact hw
    | cons dir stack =>
      rw [hs] at h
      obtain ⟨w₁, hl, hloop⟩ := h.bind_ok
      have hw₀ : Small packed ({ w with stack := stack } : Walk).entries := hw
      exact ih (backupListing_small ha hw₀ hl) hloop

end Returned

section Quiet

variable {packed : Bytes → Nat} {c : Crates} {D : Device} {afc : Afc} {ps : List (Piece Text)}
variable {h : List Text}

theorem zipCall_quiet {w : Walk} {z : ZipCall} (hr : c.reject w.entries z = none) (what : Text)
    (error : Errno → Text) :
    Triple NoFaults (zipCall c h w z what error)
      (fun w' d => w' = { w with entries := c.record w.entries z } ∧ NoFaults d)
      (fun _ _ => False) := by
  unfold zipCall
  rw [hr]
  refine Triple.each fun d hd => ?_
  refine Triple.weaken (quiet_call (t := d.tree) (Triple.ok fun d' h => ⟨rfl, h.1⟩)) ?_
    (fun _ _ h => h) (fun _ _ h => h)
  rintro d' rfl
  exact ⟨hd, rfl⟩

theorem copyFile_quiet (ha : Accepting packed c) (full : Text) {chunks : List Bytes}
    (hne : ∀ b ∈ chunks, b ≠ []) {w : Walk} {es : List Record} {r : Record}
    (hes : w.entries = es ++ [r]) (hlen : (r.data ++ chunks.flatten).length ≤ threshold) :
    Triple NoFaults (copyFile c h full w (chunks.map .ok)) (fun _ => NoFaults)
      (fun _ _ => False) := by
  induction chunks generalizing w r with
  | nil => exact Triple.ok fun _ hd => hd
  | cons b bs ih =>
    rw [List.map_cons, copyFile, if_neg (hne b List.mem_cons_self)]
    rw [List.flatten_cons, ← List.append_assoc] at hlen
    have hfit : (r.data ++ b).length ≤ threshold := by
      rw [List.length_append] at hlen
      exact (Nat.le_add_right _ _).trans hlen
    have hr : c.reject w.entries (.writeAll b) = none := by
      rw [hes]
      exact (ha.writeAll es r b).mpr hfit
    have hrec : c.record w.entries (.writeAll b) = es ++ [{ r with data := r.data ++ b }] := by
      rw [hes, Crates.record, List.modifyLast_concat]
    have hz := zipCall_quiet (h := h) (w := { w with total := w.total + Int64.ofNat b.length }) hr
    refine (hz _ _).bind fun w' => ?_
    rintro d ⟨rfl, hd⟩
    exact ih (fun b' hb' => hne b' (List.mem_cons_of_mem b hb')) hrec hlen d hd

structure Unused (D : Device) (c : Crates) (w : Walk) (q : List Text) : Prop where
  exists_nodes : ∃ qs : List (List Text), w.entries = qs.map (recordOf D c) ∧
    (∀ p ∈ qs, D.tree.node p ≠ none) ∧ q ∉ qs
  node : D.tree.node q ≠ none

theorem Unused.name (hc : c.Documented) {w : Walk} {q : List Text} (hu : Unused D c w q) :
    (recordOf D c q).name ∉ w.entries.map Record.name := by
  obtain ⟨qs, he, hqs, hq⟩ := hu.exists_nodes
  intro hmem
  rw [he, List.map_map] at hmem
  obtain ⟨p, hp, hname⟩ := List.mem_map.mp hmem
  have h := congrArg pieces hname
  rw [Function.comp_apply, pieces_recordOf hc (hqs p hp), pieces_recordOf hc hu.node] at h
  have hpq : p = q := List.map_injective_iff.mpr (fun _ _ he => by simpa using he) h
  exact hq (hpq ▸ hp)

/-- Every regular file of the device fits into an entry, as it is and compressed. -/
def Fits (packed : Bytes → Nat) (D : Device) : Prop :=
  ∀ p data, D.tree.node p = some (.file (.regular data)) →
    data.length ≤ threshold ∧ packed data ≤ threshold

theorem Fits.record (ha : Accepting packed c) (hf : Fits packed D) (q : List Text) :
    packed (recordOf D c q).data ≤ threshold := by
  unfold recordOf
  split
  · rename_i data hq
    exact (hf q data hq).2
  · exact ha.packed_nil

theorem Fits.closable (ha : Accepting packed c) (hf : Fits packed D) (qs : List (List Text)) :
    Closable packed (qs.map (recordOf D c)) := by
  intro r hr
  obtain ⟨q, _, rfl⟩ := List.mem_map.mp (List.mem_of_mem_getLast? hr)
  exact hf.record ha q

theorem Unused.closable (ha : Accepting packed c) (hf : Fits packed D) {w : Walk} {q : List Text}
    (hu : Unused D c w q) : Closable packed w.entries := by
  obtain ⟨qs, he, _⟩ := hu.exists_nodes
  rw [he]
  exact hf.closable ha qs

theorem backupKind_quiet (hc : c.Documented) (ha : Accepting packed c)
    (hs : Serves D (fun _ _ => False) afc) (hf : Fits packed D) {q : List Text} {v : Node Leaf}
    (hv : D.tree.node q = some v) {w : Walk} (hu : Unused D c w q) :
    Triple NoFaults (backupKind c h afc (path q) w (fmt v)) (fun _ => NoFaults)
      (fun _ _ => False) := by
  have hname := hu.name hc
  have hclose := hu.closable ha hf
  cases v with
  | dir =>
    rw [backupKind_dir]
    simp only [recordOf, hv] at hname
    exact (zipCall_quiet ((ha.addDirectory _ _).mpr ⟨hclose, hname⟩) _ _).bind fun w' =>
      Triple.ok fun _ hd => hd.2
  | file leaf =>
    cases leaf with
    | special f =>
      rw [backupKind_special hv]
      exact Triple.ok fun _ hd => hd
    | regular data =>
      rw [backupKind_regular]
      simp only [recordOf, hv] at hname
      obtain ⟨chunks, he, hchunks, rfl⟩ := hs.open_ok w.requests q data hv id
      rw [backupFile, he]
      have hz := zipCall_quiet (h := h)
        (w := { w with requests := w.requests ++ [.openFile (path q)] })
        ((ha.startFile _ _).mpr ⟨hclose, hname⟩)
      refine (hz _ _).bind fun w' => ?_
      rintro d ⟨rfl, hd⟩
      exact copyFile_quiet (r := ⟨path q, []⟩) ha _ hchunks rfl (hf q _ hv).1 d hd

theorem backupEntry_quiet (hc : c.Documented) (ha : Accepting packed c)
    (hs : Serves D (fun _ _ => False) afc) (hf : Fits packed D) {p : List Text}
    (hp : D.tree.node p = some .dir) {n : Text} {w : Walk}
    (hu : isDot n = false → Unused D c w (p ++ [n])) :
    Triple NoFaults (backupEntry c h afc (path p) w n) (fun _ => NoFaults) (fun _ _ => False) := by
  unfold backupEntry
  split
  · exact Triple.ok fun _ hd => hd
  rename_i hdot
  have hu' := hu (by simpa [isDot] using hdot)
  obtain ⟨v, hv⟩ := Option.ne_none_iff_exists'.mp hu'.node
  rw [fullPath_path fun m hm => D.names (by simp [hp]) m hm, backupNode,
    hs.info_ok w.requests _ v (by simp) hv id]
  exact backupKind_quiet hc ha hs hf hv ⟨hu'.exists_nodes, hu'.node⟩

theorem mem_kid_of_node {p : List Text} {n : Text} {q : List Text}
    (h : q ∈ kid (fun _ _ => False) (D := D) p n) : q = p ++ [n] ∧ D.tree.node q ≠ none := by
  obtain ⟨_, hst, hq⟩ := (mem_kid q).mp h
  refine ⟨hq, ?_⟩
  obtain hd | ⟨⟨_, hd⟩, _⟩ := hst.2
  · simp [hd]
  · simp [hd]

theorem backupListing_quiet (hc : c.Documented) (ha : Accepting packed c)
    (hs : Serves D (fun _ _ => False) afc) (hf : Fits packed D) {p : List Text}
    (hp : D.tree.node p = some .dir) {w : Walk} {found : List (List Text)}
    (he : w.entries = found.map (recordOf D c)) (hfound : ∀ q ∈ found, D.tree.node q ≠ none)
    (hnew : ∀ n, p ++ [n] ∉ found) :
    Triple (fun d => HasFile ps d ∧ NoFaults d)
      (backupListing c (resolve [] ps) afc (path p) w) (fun _ => NoFaults) (fun _ _ => False) := by
  obtain ⟨names, hl, hnd, hmem⟩ := hs.list_ok w.requests p hp id
  unfold backupListing
  rw [hl]
  refine Triple.weaken (Triple.fold names (fun ys w' d => (HasFile ps d ∧
      Added D c { w with requests := w.requests ++ [.listDir (path p)] }
        (ys.flatMap (kid (fun _ _ => False) (D := D) p)) w') ∧ NoFaults d) _ ?_)
    (fun d hd => ⟨⟨hd.1, .none rfl rfl rfl rfl⟩, hd.2⟩) (fun _ _ hd => hd.2) (fun _ _ hf => hf)
  rintro ys n zs w' hx d ⟨⟨hfile, hadd⟩, hq⟩
  have hn : isDot n = false → D.tree.node (p ++ [n]) ≠ none :=
    fun hdot => (hmem n hdot).mp (by simp [hx])
  have hu : isDot n = false → Unused D c w' (p ++ [n]) := by
    refine fun hdot => ⟨⟨found ++ ys.flatMap (kid (fun _ _ => False) (D := D) p), ?_, ?_, ?_⟩,
      hn hdot⟩
    · rw [hadd.entries, he, List.map_append]
    · intro q hq
      obtain hq | hq := List.mem_append.mp hq
      · exact hfound q hq
      · obtain ⟨m, _, hm⟩ := List.mem_flatMap.mp hq
        exact (mem_kid_of_node hm).2
    · intro hq
      obtain hq | hq := List.mem_append.mp hq
      · exact hnew n hq
      · obtain ⟨m, hm, hk⟩ := List.mem_flatMap.mp hq
        have hmn : n = m := by simpa using (mem_kid_of_node hk).1
        subst hmn
        rw [hx, List.filter_append, List.filter_cons_of_pos (by simp [hdot])] at hnd
        have hdis := (List.nodup_append.mp hnd).2.2
        exact hdis n (List.mem_filter.mpr ⟨hm, by simp [hdot]⟩) n List.mem_cons_self rfl
  have hspec := (backupEntry_spec (c := c) hs hp hn w').and
    (backupEntry_quiet (h := resolve [] ps) hc ha hs hf hp hu)
  refine hspec.weaken (fun _ hd => hd) (fun w'' d' hd' => ⟨⟨hd'.1.1, ?_⟩, hd'.2⟩)
    (fun _ _ hf => hf.2) d ⟨hfile, hq⟩
  rw [List.flatMap_append, List.flatMap_singleton]
  exact hadd.trans hd'.1.2

theorem found_exists {refused : Access → List Text → Prop} {s : Search (List Text)}
    (hinv : Inv (Child D refused) (isDir D) [] s) {q : List Text} (hq : q ∈ s.found) :
    D.tree.node q ≠ none := by
  obtain ⟨p, _, _, _, n, rfl, hst⟩ := hinv.found_child q hq
  obtain hd | ⟨⟨_, hd⟩, _⟩ := hst.2
  · simp [hd]
  · simp [hd]

/-- On a disk without faults, a loop that fails has only run out of rounds. -/
theorem backupLoop_quiet (hc : c.Documented) (ha : Accepting packed c)
    (hs : Serves D (fun _ _ => False) afc) (hf : Fits packed D) (fuel : Nat) {w : Walk}
    {s : Search (List Text)} (hinv : Inv (Child D (fun _ _ => False)) (isDir D) [] s)
    (hsim : Simulates D c w s) :
    Triple (fun d => HasFile ps d ∧ NoFaults d) (backupLoop c (resolve [] ps) afc fuel w)
      (fun _ => NoFaults) (fun halt _ => halt.stop = .running) := by
  refine (backupLoop_rule (fun w p st done found hinv hsim hp => ?_) fuel hinv hsim
    (fun _ _ _ _ _ _ _ => rfl)).weaken (fun _ hd => hd) (fun _ _ hd => hd.1.2) (fun _ _ hf => hf)
  have hnew : ∀ n, p ++ [n] ∉ found := by
    intro n hn
    have hc : Child D (fun _ _ => False) p (p ++ [n]) := by
      obtain ⟨_, _, _, _, _, he, hst⟩ := hinv.found_child (p ++ [n]) hn
      exact ⟨hp, id, n, rfl, hst⟩
    exact (hinv.fresh (forest D _) hc).1 hn
  have hquiet := @backupListing_quiet packed c D afc ps hc ha hs hf p hp
    { w with stack := st.map path } found hsim.entries (fun q hq => found_exists hinv hq) hnew
  exact ((backupListing_spec (c := c) hs hp _).and hquiet).weaken (fun _ hd => ⟨hd.1, hd⟩)
    (fun _ _ hd => ⟨⟨hd.1.1, hd.2⟩, hd.1.2⟩) (fun _ _ hf => hf.2.elim)

end Quiet

section Backup

variable {packed : Bytes → Nat} {c : Crates} {D : Device} {afc : Afc}

/-- No call fails on the disk, the output directory can be made there, and the
archive be opened in it. -/
structure Ready (outputDir zip : Text) (d : Disk Text UInt8) : Prop where
  quiet : NoFaults d
  opens : ∃ d₁ h d₂, (createDirAll (pieces outputDir)).run d = (.ok (), d₁) ∧
    (create (pieces zip)).run d₁ = (.ok h, d₂)

theorem zipCall_refused {h : List Text} {w : Walk} {z : ZipCall} (hr : c.reject w.entries z ≠ none)
    (what : Text) (error : Errno → Text) (d : Disk Text UInt8) :
    ∃ e, (zipCall c h w z what error).run d = (.error ⟨.error e, w⟩, d) := by
  obtain ⟨e, he⟩ := Option.ne_none_iff_exists'.mp hr
  rw [zipCall, he]
  exact ⟨what ++ e, rfl⟩

/-- After its loop the backup fails only where the last entry cannot be closed. -/
theorem archive_isOk_iff (ha : Accepting packed c) {h : List Text} {fuel : Nat}
    (backupType zip : Text) {d : Disk Text UInt8} (hd : NoFaults d) :
    ((backupInto c fuel afc backupType zip h).run d).1.isOk = true ↔
      ∃ w, ((backupLoop c h afc fuel start).run d).1 = .ok w ∧ Closable packed w.entries := by
  have hq := hd.run (backupLoop c h afc fuel start)
  rw [backupInto, run_handle, backupArchive, run_bind]
  cases hr : (backupLoop c h afc fuel start).run d with
  | mk r d' =>
    rw [hr] at hq
    cases r with
    | error halt =>
      refine iff_of_false (fun hok => ?_) (fun ⟨w, hw, _⟩ => by cases hw)
      obtain ⟨stop, w⟩ := halt
      cases stop with
      | error e =>
        simp only [run_bind, run_ignore] at hok
        cases hok
      | running => cases hok
      | panicked => cases hok
    | ok w =>
      by_cases hclose : Closable packed w.entries
      · have hz := zipCall_quiet (h := h) ((ha.finish w.entries).mpr hclose) "zip finish: ".toList
          c.zipError d' hq
        simp only
        cases hrz : (zipCall c h w .finish "zip finish: ".toList c.zipError).run d' with
        | mk rz d'' =>
          rw [hrz] at hz
          cases rz with
          | error e => exact hz.elim
          | ok w' => exact iff_of_true rfl ⟨w, rfl, hclose⟩
      · obtain ⟨e, he⟩ := @zipCall_refused c h w .finish (fun hn => hclose ((ha.finish _).mp hn))
          "zip finish: ".toList c.zipError d'
        refine iff_of_false (fun hok => ?_) (fun ⟨w', hw, hc⟩ => ?_)
        · simp only [he, run_bind, run_ignore] at hok
          cases hok
        · cases hw
          exact hclose hc

theorem archived_regular {p : List Text} {data : Bytes}
    (h : D.tree.node p = some (.file (.regular data))) : Archived D (fun _ _ => False) p := by
  refine ⟨?_, ⟨id, .inr ⟨⟨_, h⟩, id⟩⟩, fun q _ _ => ⟨id, fun _ => id⟩⟩
  rintro rfl
  rw [D.tree.root] at h
  cases h

theorem fits_of_complete {w : Walk} {qs : List (List Text)}
    (h : Complete D (fun _ _ => False) c w qs) (hw : Small packed w.entries)
    (hc : Closable packed w.entries) : Fits packed D := by
  intro p data hp
  have hmem := (h.archived p).mpr (archived_regular hp)
  have hrec : recordOf D c p ∈ w.entries := h.entries ▸ List.mem_map_of_mem hmem
  have hwritten := hw.written _ hrec
  have hclosed := closed_concat hw.closed hc _ hrec
  simp only [recordOf, hp] at hwritten hclosed
  exact ⟨hwritten, hclosed⟩

theorem fits_of_ok (ha : Accepting packed c) (hs : Serves D (fun _ _ => False) afc) {fuel : Nat}
    {ps : List (Piece Text)} {d : Disk Text UInt8} (hd : HasFile ps d) {w : Walk}
    (hok : ((backupLoop c (resolve [] ps) afc fuel start).run d).1 = .ok w)
    (hclose : Closable packed w.entries) : Fits packed D := by
  obtain ⟨rounds, hloop⟩ := loop_spec (c := c) hs
  have hret := run_returns (backupLoop c (resolve [] ps) afc fuel start) d
  rw [hok] at hret
  obtain ⟨_, qs, hqs⟩ := (hloop ps fuel).of_ok hd hok
  have hstart : Small packed start.entries := by constructor <;> simp [start]
  exact fits_of_complete hqs (backupLoop_small ha fuel hstart hret) hclose

theorem ok_of_fits (hc : c.Documented) (ha : Accepting packed c)
    (hs : Serves D (fun _ _ => False) afc) (hf : Fits packed D) :
    ∃ rounds, ∀ fuel, rounds < fuel → ∀ ps d, HasFile ps d → NoFaults d →
      ∃ w, ((backupLoop c (resolve [] ps) afc fuel start).run d).1 = .ok w ∧
        Closable packed w.entries := by
  obtain ⟨rounds, hloop⟩ := loop_spec (c := c) hs
  refine ⟨rounds, fun fuel hlt ps d hfile hq => ?_⟩
  cases hr : ((backupLoop c (resolve [] ps) afc fuel start).run d).1 with
  | ok w =>
    obtain ⟨_, qs, hqs⟩ := (hloop ps fuel).of_ok hfile hr
    refine ⟨w, rfl, ?_⟩
    rw [hqs.entries]
    exact hf.closable ha qs
  | error halt =>
    have hrun := (backupLoop_quiet hc ha hs hf fuel (inv_start _ _ _) simulates_start).of_error
      ⟨hfile, hq⟩ hr
    have hle := ((hloop ps fuel).of_error hfile hr).1 hrun
    omega

theorem tryBackup_ready (fuel : Nat) {house : HouseArrest} {bundleId backupType outputDir : Text}
    (ha : Accepting packed c) (hv : vend house bundleId = .ok (afc, backupType))
    {d : Disk Text UInt8} (hr : Ready outputDir (zipPath bundleId outputDir) d) :
    ∃ d', HasFile (pieces (zipPath bundleId outputDir)) d' ∧ NoFaults d' ∧
      (((tryBackup c fuel house bundleId outputDir).run d).1.isOk = true ↔
        ∃ w, ((backupLoop c (resolve [] (pieces (zipPath bundleId outputDir))) afc fuel start).run
          d').1 = .ok w ∧ Closable packed w.entries) := by
  obtain ⟨hq, d₁, h, d₂, hmake, hcreate⟩ := hr
  have hq₂ : NoFaults d₂ := by
    have h₁ := hq.run (createDirAll (pieces outputDir))
    rw [hmake] at h₁
    have h₂ := h₁.run (create (pieces (zipPath bundleId outputDir)))
    rwa [hcreate] at h₂
  obtain ⟨rfl, hfile, _⟩ : h = resolve [] (pieces (zipPath bundleId outputDir)) ∧
      HasFile (pieces (zipPath bundleId outputDir)) d₂ ∧ _ := by
    have hspec := create_spec (pieces (zipPath bundleId outputDir)) d₁ d₁ rfl
    rwa [hcreate] at hspec
  refine ⟨d₂, hfile, hq₂, ?_⟩
  rw [← archive_isOk_iff ha backupType (zipPath bundleId outputDir) hq₂, tryBackup, hv]
  simp only [run_bind, run_mapErr, hmake, hcreate, Except.mapError]

/-- The limit of a backup: when neither the device nor the disk fails it returns just when
no file, as it is or compressed, is over the threshold of the zip format. -/
theorem backup_ok_iff_fits (hc : c.Documented) (ha : Accepting packed c)
    (hs : Serves D (fun _ _ => False) afc) :
    ∃ rounds, ∀ fuel, rounds < fuel → ∀ house bundleId backupType,
      vend house bundleId = .ok (afc, backupType) → ∀ outputDir d,
        Ready outputDir (zipPath bundleId outputDir) d →
        (((tryBackup c fuel house bundleId outputDir).run d).1.isOk = true ↔ Fits packed D) := by
  by_cases hf : Fits packed D
  · obtain ⟨rounds, hloop⟩ := ok_of_fits hc ha hs hf
    refine ⟨rounds, fun fuel hlt house bundleId backupType hv outputDir d hr => ?_⟩
    obtain ⟨d', hfile, hq, he⟩ := tryBackup_ready fuel ha hv hr
    rw [he]
    exact iff_of_true (hloop fuel hlt _ d' hfile hq) hf
  · refine ⟨0, fun fuel _ house bundleId backupType hv outputDir d hr => ?_⟩
    obtain ⟨d', hfile, hq, he⟩ := tryBackup_ready fuel ha hv hr
    rw [he]
    exact iff_of_false (fun ⟨_, hok, hclose⟩ => hf (fits_of_ok ha hs hfile hok hclose)) hf

end Backup

section Instances

/-- The writer refuses bytes that bring the last entry over the threshold. -/
def overflow (rs : List Record) (b : Bytes) : Option Text :=
  if ((rs.getLast?.map Record.data).getD [] ++ b).length ≤ threshold then none
  else some "Large file option has not been set".toList

/-- The length of bytes that cannot be compressed: in blocks of at most 65535 bytes, with a
head of five bytes before each. -/
def blocks (data : Bytes) : Nat := data.length + 5 * ((data.length - 1) / 65535 + 1)

def close (rs : List Record) : Option Text :=
  if blocks ((rs.getLast?.map Record.data).getD []) ≤ threshold then none
  else some "Large file option has not been set".toList

def counting : Crates :=
  { crates with
    reject := fun rs z =>
      match z with
      | .addDirectory n => (close rs).or (refuse rs (dirName n))
      | .startFile n => (close rs).or (refuse rs n)
      | .writeAll b => overflow rs b
      | .finish => close rs }

theorem close_none (rs : List Record) : close rs = none ↔ Closable blocks rs := by
  have hnil : blocks [] ≤ threshold := by decide
  unfold close Closable
  cases rs.getLast? with
  | none => exact iff_of_true (if_pos hnil) fun r hr => by cases hr
  | some last =>
    rw [Option.map_some, Option.getD_some]
    constructor
    · intro h r hr
      cases hr
      by_contra hlast
      rw [if_neg hlast] at h
      cases h
    · exact fun h => if_pos (h last rfl)

theorem refuse_none (rs : List Record) (n : Text) :
    refuse rs n = none ↔ n ∉ rs.map Record.name := by
  unfold refuse
  split
  · rename_i h
    exact iff_of_false (by simp) fun hn => hn (by simpa using h)
  · rename_i h
    exact iff_of_true rfl fun hn => h (by simpa using hn)

theorem overflow_none (rs : List Record) (r : Record) (b : Bytes) :
    overflow (rs ++ [r]) b = none ↔ (r.data ++ b).length ≤ threshold := by
  unfold overflow
  rw [List.getLast?_concat, Option.map_some, Option.getD_some]
  split
  · rename_i h
    exact iff_of_true rfl h
  · rename_i h
    exact iff_of_false (Option.some_ne_none _) h

theorem counting_documented : counting.Documented where
  dirName_eq := crates_documented.dirName_eq
  isDir_iff := crates_documented.isDir_iff
  parse_finished := crates_documented.parse_finished

theorem counting_accepting : Accepting blocks counting where
  packed_nil := by decide
  addDirectory rs n := by
    rw [← close_none, ← refuse_none]
    exact Option.or_eq_none_iff
  startFile rs n := by
    rw [← close_none, ← refuse_none]
    exact Option.or_eq_none_iff
  writeAll rs r b := overflow_none rs r b
  finish rs := close_none rs

def chunkedAfc (chunks : List Bytes) : Afc :=
  { oneFileAfc ['a'] chunks.flatten with
    openFile := fun _ path =>
      if path = ['a'] then .ok (chunks.map .ok) else .error "Object not found".toList }

theorem chunked_serves {chunks : List Bytes} (hne : ∀ b ∈ chunks, b ≠ [])
    (h : chunks.flatten ≠ []) :
    Serves (oneFile ['a'] (by decide) chunks.flatten) (fun _ _ => False) (chunkedAfc chunks) :=
  { oneFile_serves (by decide) h with
    open_refused := fun _ _ _ _ h => h.elim
    open_ok := by
      intro _ p d hp _
      rw [oneFile_node] at hp
      split at hp
      · rename_i h
        subst h
        cases hp
        have ha : path [['a']] = ['a'] := by simp [path, List.intercalate]
        exact ⟨chunks, congrArg ((chunkedAfc chunks).openFile _) ha, hne, rfl⟩
      · split at hp <;> cases hp }

theorem ready_emptyDisk : Ready ['o'] (zipPath ['b'] ['o']) emptyDisk where
  quiet := by simp [NoFaults, emptyDisk]
  opens := ⟨_, _, _, rfl, rfl⟩

def hugeChunks : List Bytes := List.replicate 65536 (List.replicate 65536 0)

theorem hugeChunks_ne {b : Bytes} (h : b ∈ hugeChunks) : b ≠ [] := by
  rw [List.eq_of_mem_replicate h]
  exact List.ne_nil_of_length_pos (by rw [List.length_replicate]; omega)

theorem length_hugeChunks : hugeChunks.flatten.length = 2 ^ 32 := by
  rw [hugeChunks, List.flatten_replicate_replicate, List.length_replicate]
  rfl

/-- The backup of an app with one large file, on which nothing fails, does not succeed. -/
theorem large_file_fails :
    Serves (oneFile ['a'] (by decide) hugeChunks.flatten) (fun _ _ => False)
      (chunkedAfc hugeChunks) ∧
    counting.Documented ∧ Accepting blocks counting ∧
    Ready ['o'] (zipPath ['b'] ['o']) emptyDisk ∧
    ∀ fuel, ((tryBackup counting fuel (vending (chunkedAfc hugeChunks)) ['b'] ['o']).run
      emptyDisk).1.isOk = false := by
  have hne : hugeChunks.flatten ≠ [] := by
    apply List.ne_nil_of_length_pos
    rw [length_hugeChunks]
    omega
  have hs := chunked_serves (fun _ h => hugeChunks_ne h) hne
  refine ⟨hs, counting_documented, counting_accepting, ready_emptyDisk, fun fuel => ?_⟩
  have hv : vend (vending (chunkedAfc hugeChunks)) ['b'] =
    .ok (chunkedAfc hugeChunks, "full".toList) := rfl
  obtain ⟨d', hfile, _, he⟩ := tryBackup_ready fuel counting_accepting hv ready_emptyDisk
  by_contra hok
  obtain ⟨w, hw, hclose⟩ := he.mp (by simpa using hok)
  have hfits := fits_of_ok counting_accepting hs hfile hw hclose
  have hle := (hfits [['a']] hugeChunks.flatten (by rw [oneFile_node, if_pos rfl])).1
  rw [length_hugeChunks, threshold] at hle
  omega

theorem backup_ok_small : ∃ rounds, ∀ fuel, rounds < fuel →
    ((tryBackup counting fuel (vending (chunkedAfc [[7]])) ['b'] ['o']).run emptyDisk).1.isOk =
      true := by
  have hs := @chunked_serves [[7]] (by simp) (by simp)
  obtain ⟨rounds, h⟩ := backup_ok_iff_fits counting_documented counting_accepting hs
  refine ⟨rounds, fun fuel hlt => ?_⟩
  refine (h fuel hlt (vending (chunkedAfc [[7]])) ['b'] "full".toList rfl ['o'] emptyDisk
    ready_emptyDisk).mpr ?_
  intro p data hp
  rw [oneFile_node] at hp
  split at hp
  · cases hp
    decide
  · split at hp <;> cases hp

end Instances

end UnBoxer.SizeLimit
