import UnBoxer.TryBackup
import UnBoxer.Worklist

namespace UnBoxer.DeviceTrees

open UnBoxer.Trees UnBoxer.PathText UnBoxer.Archives UnBoxer.TryBackup UnBoxer.Worklist

/-- What is on a device besides directories: regular files, and nodes whose
format is some other text. -/
inductive Leaf where
  | regular (data : Bytes)
  | special (fmt : Text)
  deriving DecidableEq

def fmt : Node Leaf → Text
  | .dir => "S_IFDIR".toList
  | .file (.regular _) => "S_IFREG".toList
  | .file (.special f) => f

structure Device where
  tree : Tree Text Leaf
  legal : ∀ p n, tree.node (p ++ [n]) ≠ none → Legal n
  special : ∀ p f, tree.node p = some (.file (.special f)) →
    f ≠ "S_IFDIR".toList ∧ f ≠ "S_IFREG".toList

theorem Device.names (D : Device) {p : List Text} (h : D.tree.node p ≠ none) :
    ∀ m ∈ p, Legal m := by
  induction p using List.reverseRecOn with
  | nil => simp
  | append_singleton p n ih =>
    intro m hm
    obtain hm | hm := List.mem_append.mp hm
    · exact ih (by simp [D.tree.parent p n h]) m hm
    · obtain rfl := List.mem_singleton.mp hm
      exact D.legal p m h

/-- No name of the device has the character in it that ends a C string. -/
def NulFree (D : Device) : Prop := ∀ p n, D.tree.node (p ++ [n]) ≠ none → nul ∉ n

theorem NulFree.names {D : Device} (hD : NulFree D) {p : List Text} (h : D.tree.node p ≠ none) :
    ∀ m ∈ p, nul ∉ m := by
  induction p using List.reverseRecOn with
  | nil => simp
  | append_singleton p n ih =>
    intro m hm
    obtain hm | hm := List.mem_append.mp hm
    · exact ih (by simp [D.tree.parent p n h]) m hm
    · obtain rfl := List.mem_singleton.mp hm
      exact hD p m h

theorem fullPath_path {p : List Text} {n : Text} (hp : ∀ m ∈ p, Legal m) :
    fullPath (path p) n = path (p ++ [n]) := by
  by_cases h : p = []
  · simp [fullPath, h, path, List.intercalate]
  · rw [fullPath, if_neg (path_ne_nil hp h), path_concat h]

inductive Access where
  | list
  | info
  | open
  deriving DecidableEq

def isDot (n : Text) : Bool := decide (n = ['.']) || decide (n = ['.', '.'])

/-- The file service shows the device as it is, save that it denies the
permission for some accesses. The root is not looked up. The order of a listing and the sizes of the
chunks of a file are left open, and may change from one request to the next. -/
structure Serves (D : Device) (refused : Access → List Text → Prop) (afc : Afc) : Prop where
  list_refused : ∀ rs p, D.tree.node p = some .dir → refused .list p →
    ∃ e, afc.listDir rs (path p) = .error e ∧ isPermissionDenied e = true
  list_ok : ∀ rs p, D.tree.node p = some .dir → ¬ refused .list p →
    ∃ names, afc.listDir rs (path p) = .ok names ∧ (names.filter fun n => !isDot n).Nodup ∧
      ∀ n, isDot n = false → (n ∈ names ↔ D.tree.node (p ++ [n]) ≠ none)
  info_refused : ∀ rs p, p ≠ [] → D.tree.node p ≠ none → refused .info p →
    ∃ e, afc.getFileInfo rs (path p) = .error e ∧ isPermissionDenied e = true
  info_ok : ∀ rs p v, p ≠ [] → D.tree.node p = some v → ¬ refused .info p →
    afc.getFileInfo rs (path p) = .ok (fmt v)
  open_refused : ∀ rs p data, D.tree.node p = some (.file (.regular data)) → refused .open p →
    ∃ e, afc.openFile rs (path p) = .error e ∧ isPermissionDenied e = true
  open_ok : ∀ rs p data, D.tree.node p = some (.file (.regular data)) → ¬ refused .open p →
    ∃ chunks : List Bytes, afc.openFile rs (path p) = .ok (chunks.map .ok) ∧
      (∀ b ∈ chunks, b ≠ []) ∧ chunks.flatten = data

section Contents

variable (D : Device) (refused : Access → List Text → Prop)

def Stored (p : List Text) : Prop :=
  ¬ refused .info p ∧ (D.tree.node p = some .dir ∨
    (∃ data, D.tree.node p = some (.file (.regular data))) ∧ ¬ refused .open p)

/-- All ancestors let themselves be looked up and listed. -/
def Above (p : List Text) : Prop :=
  ∀ q, q <+: p → q ≠ p → ¬ refused .list q ∧ (q ≠ [] → ¬ refused .info q)

def Reached (p : List Text) : Prop :=
  D.tree.node p = some .dir ∧ (p ≠ [] → ¬ refused .info p) ∧ Above refused p

def Archived (p : List Text) : Prop := p ≠ [] ∧ Stored D refused p ∧ Above refused p

def Child (p q : List Text) : Prop :=
  D.tree.node p = some .dir ∧ ¬ refused .list p ∧ ∃ n, q = p ++ [n] ∧ Stored D refused q

def isDir (p : List Text) : Bool :=
  match D.tree.node p with
  | some .dir => true
  | _ => false

theorem isDir_iff (p : List Text) : isDir D p = true ↔ D.tree.node p = some .dir := by
  unfold isDir
  split
  · rename_i h
    simp [h]
  · rename_i h
    simpa using h

theorem forest : Forest (Child D refused) [] where
  parent_unique p q r hp hq := by
    obtain ⟨_, _, n, rfl, _⟩ := hp
    obtain ⟨_, _, m, h, _⟩ := hq
    exact (List.append_inj' h rfl).1
  root_top p hp := by
    obtain ⟨_, _, n, h, _⟩ := hp
    simp at h

theorem above_concat (p : List Text) (n : Text) :
    Above refused (p ++ [n]) ↔
      Above refused p ∧ ¬ refused .list p ∧ (p ≠ [] → ¬ refused .info p) := by
  constructor
  · intro h
    have hp := h p (List.prefix_append p [n]) (by simp)
    refine ⟨fun q hq hne => ?_, hp⟩
    have hlt : q.length ≤ p.length := hq.length_le
    exact h q (hq.trans (List.prefix_append p [n])) (by
      rintro rfl
      rw [List.length_append] at hlt
      simp at hlt)
  · rintro ⟨h, hp⟩ q hq hne
    obtain rfl | hq := List.prefix_concat_iff.mp hq
    · exact absurd rfl hne
    · by_cases he : q = p
      · rw [he]
        exact hp
      · exact h q hq he

theorem reached_concat (p : List Text) (n : Text) :
    Reached D refused (p ++ [n]) ↔
      Reached D refused p ∧ Child D refused p (p ++ [n]) ∧ isDir D (p ++ [n]) = true := by
  rw [isDir_iff]
  constructor
  · rintro ⟨hd, hi, ha⟩
    obtain ⟨ha', hl, hi'⟩ := (above_concat refused p n).mp ha
    have hp : D.tree.node p = some .dir := D.tree.parent p n (by simp [hd])
    exact ⟨⟨hp, hi', ha'⟩, ⟨hp, hl, n, rfl, hi (by simp), .inl hd⟩, hd⟩
  · rintro ⟨⟨hp, hi, ha⟩, ⟨_, hl, _, _, hs⟩, hd⟩
    exact ⟨hd, fun _ => hs.1, (above_concat refused p n).mpr ⟨ha, hl, hi⟩⟩

theorem reach_iff (p : List Text) :
    Reach (Child D refused) (isDir D) [] p ↔ Reached D refused p := by
  constructor
  · intro h
    induction h with
    | refl =>
      refine ⟨D.tree.root, fun h => absurd rfl h, fun q hq hne => ?_⟩
      exact absurd (List.prefix_nil.mp hq) hne
    | tail _ hc ih =>
      obtain ⟨_, _, n, rfl, _⟩ := hc.1
      exact (reached_concat D refused _ n).mpr ⟨ih, hc⟩
  · intro h
    induction p using List.reverseRecOn with
    | nil => exact Relation.ReflTransGen.refl
    | append_singleton p n ih =>
      obtain ⟨hp, hc⟩ := (reached_concat D refused p n).mp h
      exact (ih hp).tail hc

theorem archived_iff (q : List Text) :
    (∃ p, Reach (Child D refused) (isDir D) [] p ∧ Child D refused p q) ↔
      Archived D refused q := by
  constructor
  · rintro ⟨p, hp, ⟨_, hl, n, rfl, hs⟩⟩
    obtain ⟨_, hi, ha⟩ := (reach_iff D refused p).mp hp
    exact ⟨by simp, hs, (above_concat refused p n).mpr ⟨ha, hl, hi⟩⟩
  · rintro ⟨hne, hs, ha⟩
    obtain ⟨p, n, rfl⟩ : ∃ p n, q = p ++ [n] :=
      ⟨q.dropLast, q.getLast hne, (List.dropLast_append_getLast hne).symm⟩
    obtain ⟨ha', hl, hi⟩ := (above_concat refused p n).mp ha
    have hq : D.tree.node (p ++ [n]) ≠ none := by
      obtain h | ⟨⟨_, h⟩, _⟩ := hs.2 <;> simp [h]
    have hp : D.tree.node p = some .dir := D.tree.parent p n hq
    exact ⟨p, (reach_iff D refused p).mpr ⟨hp, hi, ha'⟩, hp, hl, n, rfl, hs⟩

theorem reach_finite : ∃ S : Finset (List Text),
    ∀ p, Reach (Child D refused) (isDir D) [] p → p ∈ S := by
  refine ⟨D.tree.finite.toFinset, fun p hp => ?_⟩
  have hd := ((reach_iff D refused p).mp hp).1
  simp [hd]

end Contents

end UnBoxer.DeviceTrees
