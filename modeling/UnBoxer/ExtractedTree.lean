import UnBoxer.BackupContents
import UnBoxer.QuietRuns
import UnBoxer.TryExtract

namespace UnBoxer.ExtractedTree

open UnBoxer.Trees UnBoxer.Programs UnBoxer.DirAll UnBoxer.QuietRuns UnBoxer.PathText
open UnBoxer.Archives UnBoxer.TryExtract UnBoxer.DeviceTrees UnBoxer.BackupWalk
open UnBoxer.BackupContents

section File

variable {c : Crates} {ext : Text} {t : Tree Text Bytes} {ps : List (Piece Text)} {n : Text}

theorem quiet_createParent {name : Text} (hplain : (pieces name).any hasNul = false)
    (ht : target ext name = ps ++ [.down n]) (ho : t.Open [] ps) :
    Triple (At t) (createParent c ext name) (fun _ => At t) (fun _ _ => False) := by
  have hne : components (ps ++ [Piece.down n]) ≠ [] := by
    rw [components_append]
    simp [components]
  have ho' : t.Open [] (components ps) := (open_components t [] ps).mpr ho
  rw [createParent, ht, if_neg hne, refusing_plain (plain_parent hplain), parent_concat]
  exact Triple.mapErr (quiet_dirAll_open ho')

theorem quiet_copyEntry {p : List Text} {b : Bytes} (r : Record) (hp : t.node p = some (.file b)) :
    Triple (At t) (copyEntry c p r)
      (fun _ d => NoFaults d ∧ d.tree.node = Function.update t.node p (some (.file r.data)))
      (fun _ _ => False) := by
  have hwrite : Triple (At t) (write p r.data) (fun _ => At (t.modify p fun _ => r.data))
      (fun (_ : Errno) _ => False) := quiet_call (Triple.ok fun _ h => h)
  refine Triple.mapErr ((hwrite.bind fun _ => quiet_next).weaken (fun _ h => h) (fun _ d h => ?_)
    (fun _ _ h => h))
  exact ⟨h.1, by rw [h.2, Tree.modify_node hp]⟩

theorem quiet_extractFile {r : Record} (hplain : (pieces r.name).any hasNul = false) (ho : t.Open [] ps)
    (hn : t.node (resolve [] ps ++ [n]) = none) (ht : target ext r.name = ps ++ [.down n]) :
    Triple (At t) (extractFile c ext r)
      (fun _ d => NoFaults d ∧
        d.tree.node = Function.update t.node (resolve [] ps ++ [n]) (some (.file r.data)))
      (fun _ _ => False) := by
  have hd : t.node (resolve [] ps ++ [n]) ≠ some .dir := by simp [hn]
  obtain ⟨t', hc, ht'⟩ := t.create_new [] ho hd
  rw [extractFile, refusing_plain hplain, ht]
  refine (quiet_createParent hplain ht ho).bind fun _ => Triple.bind (Triple.mapErr (quiet_call ?_))
    (Q := fun p d => p = resolve [] ps ++ [n] ∧ At t' d) fun p => ?_
  · simp only [Call.apply, hc]
    exact Triple.ok fun d hd => ⟨rfl, hd⟩
  · rintro d ⟨rfl, hd⟩
    have hp : t'.node (resolve [] ps ++ [n]) = some (.file []) := by rw [ht', Function.update_self]
    refine (quiet_copyEntry r hp).weaken (fun _ h => h) (fun _ d h => ⟨h.1, ?_⟩) (fun _ _ h => h)
      d hd
    rw [h.2, ht', Function.update_idem]

end File

section Entry

variable (D : Device) (c : Crates)

/-- What the entry for a node of the device becomes: the names of files too may
look like those of directories. -/
def image (p : List Text) : Node Bytes :=
  match D.tree.node p with
  | some (.file (.regular data)) => if DirMark (path p) then .dir else .file data
  | _ => .dir

def contents (l : List (List Text)) (q : List Text) : Option (Node Bytes) :=
  if q = [] then some .dir else if q ∈ l then some (image D q) else none

structure Extracted (ext : Text) (l : List (List Text)) (d : Disk Text UInt8) : Prop where
  quiet : NoFaults d
  outputOpen : d.tree.Open [] (pieces ext)
  contents_eq : ∀ q, d.tree.node (resolve [] (pieces ext) ++ q) = contents D l q

variable {D c} {ext : Text} {l : List (List Text)} {q : List Text} {n : Text}

theorem recordOf_head (hc : c.Documented) {p : List Text} (hp : D.tree.node p ≠ none)
    (hne : p ≠ []) : (recordOf D c p).name.head? ≠ some '/' := by
  have hhead := path_head fun m hm => D.names hp m hm
  have hnil := path_ne_nil (fun m hm => D.names hp m hm) hne
  unfold recordOf
  split
  · exact hhead
  · rw [hc.dirName_eq]
    split
    · exact hhead
    · rwa [List.head?_append_of_ne_nil _ hnil]

theorem target_recordOf (hc : c.Documented) {p : List Text} (hp : D.tree.node p ≠ none)
    (hne : p ≠ []) : target ext (recordOf D c p).name = pieces ext ++ p.map .down := by
  rw [target, pieces_join (recordOf_head hc hp hne), pieces_recordOf hc hp]

theorem plain_recordOf (hc : c.Documented) (hD : NulFree D) {p : List Text}
    (hp : D.tree.node p ≠ none) :
    (pieces (recordOf D c p).name).any hasNul = false := by
  rw [pieces_recordOf hc hp, List.any_eq_false]
  intro m hm
  obtain ⟨n, hn, rfl⟩ := List.mem_map.mp hm
  simpa [hasNul] using hD.names hp n hn

theorem isDir_recordOf (hc : c.Documented) (p : List Text) :
    c.isDir (recordOf D c p).name = true ↔ image D p = .dir := by
  rw [hc.isDir_iff]
  have hdir : ∀ s, DirMark (c.dirName s) := by
    intro s
    rw [hc.dirName_eq]
    split
    · assumption
    · exact .inl (by simp)
  unfold recordOf
  split
  · rename_i data hp
    simp only [image, hp]
    by_cases h : DirMark (path p) <;> simp [h]
  · rename_i hp
    have himage : image D p = .dir := by
      unfold image
      split
      · exact absurd ‹_› (hp _)
      · rfl
    simp [hdir, himage]

theorem recordOf_data {p : List Text} {data : Bytes} (h : image D p = .file data) :
    (recordOf D c p).data = data := by
  have hnode : D.tree.node p = some (.file (.regular data)) := by
    unfold image at h
    split at h
    · rename_i b hb
      split at h
      · cases h
      · cases h
        exact hb
    · cases h
  unfold recordOf
  rw [hnode]

theorem contents_concat (l : List (List Text)) (p q : List Text) (hne : p ≠ []) :
    contents D (l ++ [p]) q = if q = p then some (image D p) else contents D l q := by
  unfold contents
  by_cases hq : q = []
  · subst hq
    rw [if_neg (Ne.symm hne)]
    rfl
  · by_cases hqp : q = p
    · subst hqp
      simp [hq]
    · simp [hq, hqp]

theorem Extracted.add {d d' : Disk Text UInt8} (h : Extracted D ext l d) {p : List Text}
    (hne : p ≠ []) (hq : NoFaults d') (hnew : contents D l p = none)
    (hnode : d'.tree.node =
      Function.update d.tree.node (resolve [] (pieces ext) ++ p) (some (image D p))) :
    Extracted D ext (l ++ [p]) d' where
  quiet := hq
  outputOpen := by
    intro rs hrs
    have hdir := h.outputOpen rs hrs
    have hold : d.tree.node (resolve [] (pieces ext) ++ p) = none := by rw [h.contents_eq, hnew]
    rw [hnode, Function.update_of_ne fun he => by rw [he, hold] at hdir; cases hdir]
    exact hdir
  contents_eq q := by
    rw [contents_concat l p q hne, hnode, Function.update_apply]
    by_cases hqp : q = p
    · rw [if_pos (by rw [hqp]), if_pos hqp]
    · rw [if_neg fun he => hqp (List.append_cancel_left he), if_neg hqp, h.contents_eq]

/-- Extracting the entry of a node puts its image at its place. -/
theorem extractEntry_spec (hc : c.Documented) (hD : NulFree D) (i : Nat)
    (hp : D.tree.node (q ++ [n]) ≠ none) (hparent : contents D l q = some .dir)
    (hnew : contents D l (q ++ [n]) = none) :
    Triple (Extracted D ext l) (extractEntry c ext (recordOf D c (q ++ [n]), i))
      (fun _ => Extracted D ext (l ++ [q ++ [n]])) (fun _ _ => False) := by
  intro d hd
  have hne : q ++ [n] ≠ [] := by simp
  have htarget : target ext (recordOf D c (q ++ [n])).name =
      (pieces ext ++ q.map .down) ++ [.down n] := by
    rw [target_recordOf hc hp hne]
    simp
  have hres : resolve [] (pieces ext ++ q.map .down) = resolve [] (pieces ext) ++ q := by
    rw [resolve_append, resolve_down]
  have hdir : d.tree.node (resolve [] (pieces ext) ++ q) = some .dir := by
    rw [hd.contents_eq, hparent]
  have hopen : d.tree.Open [] (pieces ext ++ q.map .down) :=
    (d.tree.open_append _ _ _).mpr ⟨hd.outputOpen, d.tree.open_downs hdir⟩
  have hnone : d.tree.node (resolve [] (pieces ext ++ q.map .down) ++ [n]) = none := by
    rw [hres, List.append_assoc, hd.contents_eq, hnew]
  suffices h : Triple (At d.tree) (extractEntry c ext (recordOf D c (q ++ [n]), i))
      (fun _ d' => NoFaults d' ∧ d'.tree.node = Function.update d.tree.node
        (resolve [] (pieces ext) ++ (q ++ [n])) (some (image D (q ++ [n]))))
      (fun _ _ => False) from
    h.weaken (fun _ h => h) (fun _ _ h => hd.add hne h.1 hnew h.2) (fun _ _ h => h) d
      ⟨hd.quiet, rfl⟩
  rw [← List.append_assoc, ← hres]
  have hnext : Triple (At d.tree) (next.mapErr fun e =>
      "zip entry ".toList ++ JsonParser.decimal i ++ ": ".toList ++ c.zipError e)
      (fun _ => At d.tree) (fun _ _ => False) := Triple.mapErr quiet_next
  refine hnext.bind fun _ => ?_
  cases himage : image D (q ++ [n]) with
  | dir =>
    rw [if_pos ((isDir_recordOf hc _).mpr himage), refusing_plain (plain_recordOf hc hD hp), htarget]
    exact Triple.ignore ((quiet_dirAll_new hopen hnone).weaken (fun _ h => h) (fun _ _ h => h)
      (fun _ _ h => h.elim))
  | file data =>
    have hfile : ¬ c.isDir (recordOf D c (q ++ [n])).name = true := by
      rw [isDir_recordOf hc, himage]
      simp
    rw [if_neg hfile, ← recordOf_data (c := c) himage]
    exact quiet_extractFile (plain_recordOf hc hD hp) hopen hnone htarget

end Entry

end UnBoxer.ExtractedTree
