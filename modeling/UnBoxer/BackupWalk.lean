import UnBoxer.DeviceTrees
import Mathlib.Data.List.ModifyLast

namespace UnBoxer.BackupWalk

open UnBoxer.Trees UnBoxer.Programs UnBoxer.PathText UnBoxer.Archives UnBoxer.TryBackup
open UnBoxer.Worklist UnBoxer.DeviceTrees

def listed (rs : List Request) : List Text :=
  rs.filterMap fun
    | .listDir p => some p
    | _ => none

def HasFile (ps : List (Piece Text)) (d : Disk Text UInt8) : Prop := ∃ b, d.tree.read ps = .ok b

def Failed (w : Walk) (halt : Halt) : Prop :=
  halt.stop ≠ .running ∧ listed halt.walk.requests = listed w.requests

theorem halt_spec {P : Disk Text UInt8 → Prop} {Q : Walk → Disk Text UInt8 → Prop} {w w₀ : Walk}
    (hw : listed w.requests = listed w₀.requests) (e : Text) :
    Triple P (halt w e) Q (fun h _ => Failed w₀ h) :=
  Triple.error fun _ _ => ⟨by simp, hw⟩

section Writer

variable {c : Crates} {ps : List (Piece Text)}

theorem zipCall_spec (w : Walk) (z : ZipCall) (what : Text) (error : Errno → Text) :
    Triple (HasFile ps) (zipCall c (resolve [] ps) w z what error)
      (fun w' d => w' = { w with entries := c.record w.entries z } ∧
        d.tree.read ps = .ok (c.stored w'.entries z))
      (fun halt _ => Failed w halt) := by
  unfold zipCall
  split
  · exact halt_spec rfl _
  · refine Triple.call (fun r d => r = .ok () →
      d.tree.read ps = .ok (c.stored (c.record w.entries z) z)) ?_ ?_
    · rintro d ⟨b, hb⟩ hr
      unfold Call.exec at hr ⊢
      cases hf : d.faults.head?.join with
      | none => exact Tree.read_modify hb fun _ => c.stored (c.record w.entries z) z
      | some k =>
        rw [hf] at hr
        simp [Call.apply] at hr
    · rintro (e | u)
      · exact halt_spec rfl _
      · exact Triple.ok fun d hd => ⟨rfl, hd rfl⟩

theorem zipCall_keeps (w : Walk) (z : ZipCall) (what : Text) (error : Errno → Text) :
    Triple (HasFile ps) (zipCall c (resolve [] ps) w z what error)
      (fun w' d => w' = { w with entries := c.record w.entries z } ∧ HasFile ps d)
      (fun halt _ => Failed w halt) :=
  (zipCall_spec w z what error).weaken (fun _ hd => hd) (fun _ _ hd => ⟨hd.1, _, hd.2⟩)
    (fun _ _ hd => hd)

theorem copyFile_spec (full : Text) {chunks : List Bytes} (hne : ∀ b ∈ chunks, b ≠ []) (w : Walk)
    {es : List Record} {r : Record} (hes : w.entries = es ++ [r]) :
    Triple (HasFile ps) (copyFile c (resolve [] ps) full w (chunks.map .ok))
      (fun w' d => HasFile ps d ∧
        w' = { w with
          entries := es ++ [{ r with data := r.data ++ chunks.flatten }]
          total := w.total + Int64.ofNat chunks.flatten.length })
      (fun halt _ => Failed w halt) := by
  induction chunks generalizing w r with
  | nil =>
    refine Triple.ok fun d hd => ⟨hd, ?_⟩
    cases w
    simp_all
  | cons b bs ih =>
    rw [List.map_cons, copyFile, if_neg (hne b List.mem_cons_self)]
    refine (zipCall_keeps _ _ _ _).bind fun w' => ?_
    intro d hd
    obtain ⟨rfl, hfile⟩ := hd
    have hrec : c.record w.entries (.writeAll b) = es ++ [{ r with data := r.data ++ b }] := by
      rw [hes, Crates.record, List.modifyLast_concat]
    have h := ih (fun b' hb' => hne b' (List.mem_cons_of_mem b hb'))
      { w with
        total := w.total + Int64.ofNat b.length
        entries := c.record w.entries (.writeAll b) } hrec
    refine h.weaken (fun _ hd => hd) (fun w'' d' hd' => ?_) (fun _ _ hf => hf) d hfile
    obtain ⟨hfile', rfl⟩ := hd'
    refine ⟨hfile', ?_⟩
    simp [List.append_assoc, Int64.ofNat_add, Int64.add_assoc]

end Writer

section Directory

variable (D : Device) (refused : Access → List Text → Prop) (c : Crates)

def recordOf (p : List Text) : Record :=
  match D.tree.node p with
  | some (.file (.regular data)) => ⟨path p, data⟩
  | _ => ⟨c.dirName (path p), []⟩

def sizeOf (p : List Text) : Nat :=
  match D.tree.node p with
  | some (.file (.regular data)) => data.length
  | _ => 0

structure Added (w : Walk) (kids : List (List Text)) (w' : Walk) : Prop where
  stack : w'.stack = ((kids.filter (isDir D)).reverse.map path) ++ w.stack
  entries : w'.entries = w.entries ++ kids.map (recordOf D c)
  total : w'.total = w.total + Int64.ofNat (kids.map (sizeOf D)).sum
  listed : listed w'.requests = listed w.requests

variable {D c}

theorem Added.none {w w' : Walk} (hs : w'.stack = w.stack) (he : w'.entries = w.entries)
    (ht : w'.total = w.total) (hl : BackupWalk.listed w'.requests = BackupWalk.listed w.requests) :
    Added D c w [] w' where
  stack := by simpa using hs
  entries := by simpa using he
  total := by simpa using ht
  listed := hl

theorem Added.trans {w w' w'' : Walk} {ks ls : List (List Text)} (h : Added D c w ks w')
    (h' : Added D c w' ls w'') : Added D c w (ks ++ ls) w'' where
  stack := by simp [h'.stack, h.stack]
  entries := by simp [h'.entries, h.entries]
  total := by simp [h'.total, h.total, Int64.ofNat_add, Int64.add_assoc]
  listed := h'.listed.trans h.listed

section Entries

open Classical in
noncomputable def kid (p : List Text) (n : Text) : List (List Text) :=
  if isDot n = false ∧ Stored D refused (p ++ [n]) then [p ++ [n]] else []

variable {refused} {ps : List (Piece Text)} {afc : Afc} {p : List Text} {n : Text}

theorem kid_stored (hn : isDot n = false) (hs : Stored D refused (p ++ [n])) :
    kid refused (D := D) p n = [p ++ [n]] := if_pos ⟨hn, hs⟩

theorem kid_skipped (hs : ¬ Stored D refused (p ++ [n])) : kid refused (D := D) p n = [] :=
  if_neg fun h => hs h.2

theorem mem_kid (q : List Text) : q ∈ kid refused (D := D) p n ↔
    isDot n = false ∧ Stored D refused q ∧ q = p ++ [n] := by
  unfold kid
  split
  · rename_i h
    rw [List.mem_singleton]
    constructor
    · rintro rfl
      exact ⟨h.1, h.2, rfl⟩
    · exact fun hq => hq.2.2
  · rename_i h
    refine iff_of_false (by simp) ?_
    rintro ⟨hn, hs, rfl⟩
    exact h ⟨hn, hs⟩

theorem kids_nodup {names : List Text} (h : (names.filter fun n => !isDot n).Nodup) :
    (names.flatMap (kid refused (D := D) p)).Nodup := by
  induction names with
  | nil => simp
  | cons n ns ih =>
    have hns : (ns.filter fun n => !isDot n).Nodup :=
      h.sublist ((List.sublist_cons_self n ns).filter _)
    rw [List.flatMap_cons]
    refine List.nodup_append.mpr ⟨?_, ih hns, fun q hq r hr he => ?_⟩
    · unfold kid
      split <;> simp
    · subst he
      obtain ⟨hdot, _, hqn⟩ := (mem_kid q).mp hq
      obtain ⟨m, hm, hqm⟩ := List.mem_flatMap.mp hr
      have hnm : n = m := by
        have := hqn.symm.trans ((mem_kid q).mp hqm).2.2
        simpa using this
      subst hnm
      rw [List.filter_cons_of_pos (by simp [hdot]), List.nodup_cons] at h
      exact h.1 (List.mem_filter.mpr ⟨hm, by simp [hdot]⟩)

theorem backupDirectory_spec (hn : isDot n = false) (hd : D.tree.node (p ++ [n]) = some .dir)
    (hi : ¬ refused .info (p ++ [n])) (w : Walk) :
    Triple (HasFile ps) (backupDirectory c (resolve [] ps) (path (p ++ [n])) w)
      (fun w' d => HasFile ps d ∧ Added D c w (kid refused (D := D) p n) w')
      (fun halt _ => Failed w halt) := by
  refine (zipCall_keeps _ _ _ _).bind fun w' => Triple.ok fun d hd' => ⟨hd'.2, ?_⟩
  obtain ⟨rfl, _⟩ := hd'
  rw [kid_stored hn ⟨hi, .inl hd⟩]
  have hdir : isDir D (p ++ [n]) = true := (isDir_iff D _).mpr hd
  exact ⟨by simp [hdir], by simp [Crates.record, recordOf, hd], by simp [sizeOf, hd], rfl⟩

theorem backupFile_spec (hs : Serves D refused afc) (hn : isDot n = false) {data : Bytes}
    (hd : D.tree.node (p ++ [n]) = some (.file (.regular data)))
    (hi : ¬ refused .info (p ++ [n])) (w : Walk) :
    Triple (HasFile ps) (backupFile c (resolve [] ps) afc (path (p ++ [n])) w)
      (fun w' d => HasFile ps d ∧ Added D c w (kid refused (D := D) p n) w')
      (fun halt _ => Failed w halt) := by
  have hl : listed (w.requests ++ [.openFile (path (p ++ [n]))]) = listed w.requests := by
    simp [listed]
  unfold backupFile
  by_cases ho : refused .open (p ++ [n])
  · obtain ⟨e, he, hp⟩ := hs.open_refused w.requests _ data hd ho
    have hk : kid refused (D := D) p n = [] := kid_skipped fun h => by
      obtain h | ⟨_, h⟩ := h.2
      · simp [hd] at h
      · exact h ho
    rw [he, hk]
    simp only [hp, if_true]
    exact Triple.ok fun d hd' => ⟨hd', .none rfl rfl rfl hl⟩
  · obtain ⟨chunks, he, hne, rfl⟩ := hs.open_ok w.requests _ data hd ho
    rw [he, kid_stored hn ⟨hi, .inr ⟨⟨_, hd⟩, ho⟩⟩]
    refine (Triple.weaken (zipCall_keeps _ _ _ _) (fun _ hd' => hd') (fun _ _ hd' => hd')
      (fun _ halt hf => ⟨hf.1, hf.2.trans hl⟩)).bind fun w' => ?_
    rintro d ⟨rfl, hfile⟩
    refine (copyFile_spec (c := c) (path (p ++ [n])) hne _ rfl).weaken (fun _ hd' => hd')
      (fun w'' d' hd' => ?_) (fun _ halt hf => ⟨hf.1, hf.2.trans hl⟩) d hfile
    obtain ⟨hfile', rfl⟩ := hd'
    have hdir : isDir D (p ++ [n]) = false := by simp [isDir, hd]
    exact ⟨hfile', by simp [hdir], by simp [recordOf, hd], by simp [sizeOf, hd], hl⟩

theorem backupKind_dir (h : List Text) (full : Text) (w : Walk) :
    backupKind c h afc full w (fmt .dir) = backupDirectory c h full w := if_pos rfl

theorem backupKind_regular (h : List Text) (full : Text) (w : Walk) (data : Bytes) :
    backupKind c h afc full w (fmt (.file (.regular data))) = backupFile c h afc full w := by
  have hne : fmt (.file (.regular data)) ≠ "S_IFDIR".toList := by
    change "S_IFREG".toList ≠ "S_IFDIR".toList
    decide
  exact (if_neg hne).trans (if_pos rfl)

theorem backupKind_special {q : List Text} {f : Text}
    (hv : D.tree.node q = some (.file (.special f))) (h : List Text) (full : Text) (w : Walk) :
    backupKind c h afc full w (fmt (.file (.special f))) = .done (.ok w) := by
  obtain ⟨hdir, hreg⟩ := D.special q f hv
  exact (if_neg hdir).trans (if_neg hreg)

theorem backupKind_spec (hs : Serves D refused afc) (hn : isDot n = false) {v : Node Leaf}
    (hv : D.tree.node (p ++ [n]) = some v) (hi : ¬ refused .info (p ++ [n])) (w : Walk) :
    Triple (HasFile ps) (backupKind c (resolve [] ps) afc (path (p ++ [n])) w (fmt v))
      (fun w' d => HasFile ps d ∧ Added D c w (kid refused (D := D) p n) w')
      (fun halt _ => Failed w halt) := by
  cases v with
  | dir =>
    rw [backupKind_dir]
    exact backupDirectory_spec hn hv hi w
  | file leaf =>
    cases leaf with
    | regular data =>
      rw [backupKind_regular]
      exact backupFile_spec hs hn hv hi w
    | special f =>
      rw [backupKind_special hv, kid_skipped fun h => by simp [Stored, hv] at h]
      exact Triple.ok fun d hd => ⟨hd, .none rfl rfl rfl rfl⟩

theorem backupNode_spec (hs : Serves D refused afc) (hn : isDot n = false) {v : Node Leaf}
    (hv : D.tree.node (p ++ [n]) = some v) (w : Walk) :
    Triple (HasFile ps) (backupNode c (resolve [] ps) afc (path (p ++ [n])) w)
      (fun w' d => HasFile ps d ∧ Added D c w (kid refused (D := D) p n) w')
      (fun halt _ => Failed w halt) := by
  have hl : listed (w.requests ++ [.getFileInfo (path (p ++ [n]))]) = listed w.requests := by
    simp [listed]
  unfold backupNode
  by_cases hi : refused .info (p ++ [n])
  · obtain ⟨e, he, hden⟩ := hs.info_refused w.requests _ (by simp) (by simp [hv]) hi
    rw [he, kid_skipped fun h => h.1 hi]
    simp only [hden, if_true]
    exact Triple.ok fun d hd => ⟨hd, .none rfl rfl rfl hl⟩
  · rw [hs.info_ok w.requests _ v (by simp) hv hi]
    exact (backupKind_spec hs hn hv hi _).weaken (fun _ hd => hd)
      (fun _ _ hd => ⟨hd.1, ⟨hd.2.stack, hd.2.entries, hd.2.total, hd.2.listed.trans hl⟩⟩)
      (fun _ _ hf => ⟨hf.1, hf.2.trans hl⟩)

theorem backupEntry_spec (hs : Serves D refused afc) (hp : D.tree.node p = some .dir)
    (hn : isDot n = false → D.tree.node (p ++ [n]) ≠ none) (w : Walk) :
    Triple (HasFile ps) (backupEntry c (resolve [] ps) afc (path p) w n)
      (fun w' d => HasFile ps d ∧ Added D c w (kid refused (D := D) p n) w')
      (fun halt _ => Failed w halt) := by
  by_cases hd : isDot n = true
  · have hdot : n = ['.'] ∨ n = ['.', '.'] := by simpa [isDot] using hd
    have hk : kid refused (D := D) p n = [] := if_neg fun h => by simp [hd] at h
    rw [backupEntry, if_pos hdot, hk]
    exact Triple.ok fun d hd => ⟨hd, .none rfl rfl rfl rfl⟩
  · have hd' : isDot n = false := by simpa using hd
    have hdot : ¬ (n = ['.'] ∨ n = ['.', '.']) := by simpa [isDot] using hd
    obtain ⟨v, hv⟩ := Option.ne_none_iff_exists'.mp (hn hd')
    rw [backupEntry, if_neg hdot, fullPath_path fun m hm => D.names (by simp [hp]) m hm]
    exact backupNode_spec hs hd' hv w

theorem backupListing_spec (hs : Serves D refused afc) (hp : D.tree.node p = some .dir)
    (w : Walk) :
    Triple (HasFile ps) (backupListing c (resolve [] ps) afc (path p) w)
      (fun w' d => HasFile ps d ∧ ∃ kids, kids.Nodup ∧ (∀ q, q ∈ kids ↔ Child D refused p q) ∧
        Added D c { w with requests := w.requests ++ [.listDir (path p)] } kids w')
      (fun halt _ => Failed { w with requests := w.requests ++ [.listDir (path p)] } halt) := by
  unfold backupListing
  by_cases hr : refused .list p
  · obtain ⟨e, he, hden⟩ := hs.list_refused w.requests p hp hr
    rw [he]
    simp only [hden, if_true]
    refine Triple.ok fun d hd => ⟨hd, [], by simp, fun q => ?_, .none rfl rfl rfl rfl⟩
    simp [Child, hr]
  obtain ⟨names, he, hnd, hmem⟩ := hs.list_ok w.requests p hp hr
  rw [he]
  refine Triple.weaken (Triple.fold names (fun ys w' d => HasFile ps d ∧
      Added D c { w with requests := w.requests ++ [.listDir (path p)] }
        (ys.flatMap (kid refused (D := D) p)) w') _ ?_)
    (fun d hd => ⟨hd, .none rfl rfl rfl rfl⟩) (fun w' d hd => ⟨hd.1, _, ?_, ?_, hd.2⟩)
    (fun _ _ hf => hf)
  · intro ys n zs w' hx d hd
    have hn : isDot n = false → D.tree.node (p ++ [n]) ≠ none :=
      fun hdot => (hmem n hdot).mp (by simp [hx])
    refine (backupEntry_spec (c := c) hs hp hn w').weaken (fun _ hd' => hd') (fun w'' d' hd' => ?_)
      (fun _ halt hf => ⟨hf.1, hf.2.trans hd.2.listed⟩) d hd.1
    refine ⟨hd'.1, ?_⟩
    rw [List.flatMap_append, List.flatMap_singleton]
    exact hd.2.trans hd'.2
  · exact kids_nodup hnd
  · intro q
    simp only [List.mem_flatMap, mem_kid, Child]
    constructor
    · rintro ⟨n, _, _, hst, rfl⟩
      exact ⟨hp, hr, n, rfl, hst⟩
    · rintro ⟨_, _, n, rfl, hst⟩
      have hq : D.tree.node (p ++ [n]) ≠ none := by
        obtain h | ⟨⟨_, h⟩, _⟩ := hst.2 <;> simp [h]
      have hdot : isDot n = false := by
        obtain ⟨_, _, h₁, h₂⟩ := D.legal p n hq
        simp [isDot, h₁, h₂]
      exact ⟨n, (hmem n hdot).mpr hq, hdot, hst, rfl⟩

end Entries

end Directory

end UnBoxer.BackupWalk
