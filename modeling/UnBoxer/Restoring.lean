import UnBoxer.LatePoints
import UnBoxer.ViewModel

namespace UnBoxer.Restoring

open UnBoxer.Trees UnBoxer.Programs UnBoxer.DirAll UnBoxer.DirAllSteps UnBoxer.PathText
open UnBoxer.Archives UnBoxer.TryExtract UnBoxer.BackupEngine UnBoxer.BackupPaths
open UnBoxer.ExtractionSteps UnBoxer.LatePoints

section Levels

variable {Name : Type} [DecidableEq Name]

theorem components_take (ps : List (Piece Name)) (k : Nat) :
    components ((components ps).take k) = (components ps).take k := by
  refine List.filter_eq_self.mpr fun c hc => ?_
  exact (List.mem_filter.mp (List.mem_of_mem_take hc)).2

theorem level_succ (ps : List (Piece Name)) (k : Nat) :
    level ps (k + 1) = (components ps).take ((components ps).length - (k + 1)) := by
  induction k with
  | zero => exact List.dropLast_eq_take
  | succ k ih =>
    rw [level, ih, parent, components_take]
    by_cases hps : components ps = []
    · simp [hps]
    · have hlen := List.length_pos_iff.mpr hps
      rw [List.dropLast_take (by omega)]
      congr 1

variable {dn : List Name} {n : Name} {ps rs : List (Piece Name)}

/-- The path goes on with `rs` from the directory `n` in `dn`. -/
structure Leads (dn : List Name) (n : Name) (rs ps : List (Piece Name)) : Prop where
  path : ps = (dn ++ [n]).map .down ++ rs
  pure : components rs = [] → rs = []

theorem components_downs (ns : List Name) : components (ns.map .down) = ns.map .down :=
  List.filter_eq_self.mpr (by simp)

theorem Leads.components_eq (h : Leads dn n rs ps) :
    components ps = (dn ++ [n]).map .down ++ components rs := by
  rw [h.path, components_append, components_downs]

theorem Leads.length_eq (h : Leads dn n rs ps) :
    (components ps).length = dn.length + 1 + (components rs).length := by
  rw [h.components_eq]
  simp
  omega

theorem Leads.inside (h : Leads dn n rs ps) {k : Nat} (hk : k < (components rs).length) :
    (dn ++ [n]).map .down <+: (level ps k).dropLast := by
  cases k with
  | zero =>
    have hrs : rs ≠ [] := by
      rintro rfl
      simp [components] at hk
    rw [level, h.path, List.dropLast_append_of_ne_nil hrs]
    exact List.prefix_append _ _
  | succ k =>
    have hlen := h.length_eq
    rw [level_succ, List.dropLast_take (by omega), List.prefix_take_iff, h.components_eq]
    refine ⟨List.prefix_append _ _, ?_⟩
    simp
    omega

theorem Leads.at (h : Leads dn n rs ps) :
    level ps (components rs).length = (dn ++ [n]).map .down := by
  cases hm : (components rs).length with
  | zero =>
    have hrs := h.pure (List.eq_nil_of_length_eq_zero hm)
    rw [level, h.path, hrs, List.append_nil]
  | succ k =>
    have hlen := h.length_eq
    rw [level_succ, h.components_eq, List.take_append_of_le_length (by simp; omega),
      List.take_of_length_le (by simp; omega)]

theorem Leads.above (h : Leads dn n rs ps) {k : Nat} (hk : (components rs).length < k) :
    ∃ ns, ns <+: dn ∧ level ps k = ns.map .down := by
  obtain ⟨k, rfl⟩ : ∃ k', k = k' + 1 := ⟨k - 1, by omega⟩
  have hlen := h.length_eq
  have hshort : (components ps).length - (k + 1) ≤ dn.length := by omega
  refine ⟨dn.take ((components ps).length - (k + 1)), List.take_prefix _ _, ?_⟩
  rw [level_succ]
  generalize (components ps).length - (k + 1) = j at hshort ⊢
  rw [h.components_eq, List.take_append_of_le_length (by simp; omega), ← List.map_take,
    List.take_append_of_le_length hshort]

end Levels

section Missing

variable {Name γ : Type} [DecidableEq Name] {dn : List Name} {n : Name} {t : Tree Name (List γ)}
variable {ps rs : List (Piece Name)}

/-- The directory `n` is gone, the one that it was in is not. -/
structure Missing (dn : List Name) (n : Name) (t : Tree Name (List γ)) : Prop where
  above : t.node dn = some .dir
  gone : t.node (dn ++ [n]) = none

end Missing

section Points

variable {F : Foundation} {c : Crates} {e : BackupEntry}

def Named (r : Record) : Prop := r.name.head? ≠ some '/' ∧ (pieces r.name).any hasNul = false

def home (F : Foundation) (e : BackupEntry) : List Text := backupsDirectory F ++ [e.relativePath]

variable (F c e) in
/-- All entries of the archive, as it stands on the disk, have names for files of the output. -/
def NamedArchive (t : Tree Text Bytes) : Prop :=
  ∀ data rs, t.node (archiveFile F e) = some (.file data) → c.parse data = .ok rs →
    ∀ r ∈ rs, Named r

def NamedRest (rest : List (Record × Nat)) : Prop := ∀ x ∈ rest, Named x.1

variable (F c e) in
def Point.NamedAhead (t : Tree Text Bytes) : Point → Prop
  | .reading data => ∀ rs, c.parse data = .ok rs → ∀ r ∈ rs, Named r
  | .entry r _ rest => Named r ∧ NamedRest rest
  | .creating r rest => Named r ∧ NamedRest rest
  | .writing _ _ rest => NamedRest rest
  | .closing _ rest => NamedRest rest
  | .ended _ => True
  | _ => NamedArchive F c e t

variable (F c e) in
def Position.NamedAhead (t : Tree Text Bytes) : Position → Prop
  | .at p => Point.NamedAhead F c e t p
  | .making (.directory r rest) _ => Named r ∧ NamedRest rest
  | .making (.parent r rest) _ => Named r ∧ NamedRest rest
  | .making _ _ => NamedArchive F c e t

def FileFree : Call Text UInt8 → Prop
  | .create _ => False
  | .write _ _ => False
  | _ => True

theorem apply_file {call : Call Text UInt8} (hc : FileFree call) {t : Tree Text Bytes}
    {fault : Option Nat} {q : List Text} {b : Bytes}
    (h : (call.apply t fault).2.1.node q = some (.file b)) : t.node q = some (.file b) := by
  cases call with
  | create ps => exact hc.elim
  | write p data => exact hc.elim
  | mkdir ps =>
    cases fault with
    | some k => exact h
    | none =>
      cases hm : t.mkdir ps with
      | error er =>
        simp only [Call.apply, hm] at h
        exact h
      | ok t' =>
        obtain ⟨qs, n, _, _, _, ht'⟩ := Tree.mkdir_ok hm
        simp only [Call.apply, hm, ht', Function.update_apply] at h
        split at h
        · cases h
        · exact h
  | _ => cases fault <;> exact h

theorem NamedArchive.apply {t : Tree Text Bytes} (h : NamedArchive F c e t)
    {call : Call Text UInt8} (hc : FileFree call) (fault : Option Nat) :
    NamedArchive F c e (call.apply t fault).2.1 :=
  fun data rs hnode => h data rs (apply_file hc hnode)

end Points

end UnBoxer.Restoring
