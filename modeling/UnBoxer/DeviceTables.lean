import UnBoxer.DeviceTrees

namespace UnBoxer.DeviceTables

open UnBoxer.Trees UnBoxer.PathText UnBoxer.Archives UnBoxer.TryBackup UnBoxer.DeviceTrees

/-- The nodes of a device besides its root, each with its path. -/
abbrev Table := List (List Text × Node Leaf)

def rooted (t : Table) : Table := ([], .dir) :: t

structure Sound (t : Table) : Prop where
  paths : ((rooted t).map Prod.fst).Nodup
  parent : ∀ e ∈ t, (e.1.dropLast, .dir) ∈ rooted t
  legal : ∀ e ∈ t, ∀ n ∈ e.1, Legal n
  special : ∀ p f, (p, .file (.special f)) ∈ t → f ≠ "S_IFDIR".toList ∧ f ≠ "S_IFREG".toList

variable {t : Table}

theorem find?_of_injOn {α β : Type} [DecidableEq β] {f : α → β} {l : List α}
    (hf : (l.map f).Nodup) {a : α} (ha : a ∈ l) : l.find? (fun e => decide (f e = f a)) = some a := by
  induction l with
  | nil => cases ha
  | cons b l ih =>
    rw [List.map_cons, List.nodup_cons] at hf
    obtain rfl | ha := List.mem_cons.mp ha
    · simp
    · have hne : f b ≠ f a := fun h => hf.1 (h ▸ List.mem_map_of_mem ha)
      simpa [hne] using ih hf.2 ha

def node (t : Table) (p : List Text) : Option (Node Leaf) :=
  ((rooted t).find? fun e => decide (e.1 = p)).map Prod.snd

theorem node_iff (ht : Sound t) (p : List Text) (v : Node Leaf) :
    node t p = some v ↔ (p, v) ∈ rooted t := by
  constructor
  · intro h
    obtain ⟨e, he, rfl⟩ := Option.map_eq_some_iff.mp h
    have hp := List.find?_some he
    rw [← of_decide_eq_true hp]
    exact List.mem_of_find?_eq_some he
  · intro h
    rw [node, find?_of_injOn ht.paths h]
    rfl

theorem mem_of_node (ht : Sound t) {p : List Text} (hp : p ≠ []) (h : node t p ≠ none) :
    ∃ v, (p, v) ∈ t := by
  obtain ⟨v, hv⟩ := Option.ne_none_iff_exists'.mp h
  obtain he | hm := List.mem_cons.mp ((node_iff ht p v).mp hv)
  · exact absurd (congrArg Prod.fst he) hp
  · exact ⟨v, hm⟩

theorem legal_path (ht : Sound t) {e : List Text × Node Leaf} (he : e ∈ rooted t) :
    ∀ n ∈ e.1, Legal n := by
  obtain rfl | he := List.mem_cons.mp he
  · simp
  · exact ht.legal e he

def device (t : Table) (ht : Sound t) : Device where
  tree :=
    { node := node t
      root := (node_iff ht [] .dir).mpr List.mem_cons_self
      parent := fun p n h => by
        obtain ⟨v, hv⟩ := mem_of_node ht (by simp) h
        have hd := ht.parent _ hv
        rw [List.dropLast_concat] at hd
        exact (node_iff ht p .dir).mpr hd
      finite := by
        refine ((rooted t).map Prod.fst).toFinset.finite_toSet.subset fun p hp => ?_
        obtain ⟨v, hv⟩ := Option.ne_none_iff_exists'.mp hp
        simpa using ⟨v, (node_iff ht p v).mp hv⟩ }
  legal p n h := by
    obtain ⟨v, hv⟩ := mem_of_node ht (by simp) h
    exact ht.legal _ hv n (by simp)
  special p f h := by
    obtain he | hm := List.mem_cons.mp ((node_iff ht p _).mp h)
    · cases he
    · exact ht.special p f hm

theorem nulFree_device (ht : Sound t) (h : ∀ e ∈ t, ∀ n ∈ e.1, nul ∉ n) : NulFree (device t ht) := by
  intro p n hp
  obtain ⟨v, hv⟩ := mem_of_node ht (by simp) hp
  exact h _ hv n (by simp)

def named (t : Table) (s : Text) : Option (List Text × Node Leaf) :=
  (rooted t).find? fun e => decide (path e.1 = s)

theorem path_injOn {ps qs : List Text} (hp : ∀ n ∈ ps, Legal n) (hq : ∀ n ∈ qs, Legal n)
    (h : path ps = path qs) : ps = qs := by
  have hpieces := congrArg pieces h
  rw [pieces_path hp, pieces_path hq] at hpieces
  exact List.map_injective_iff.mpr (fun _ _ he => by simpa using he) hpieces

theorem named_path (ht : Sound t) {p : List Text} {v : Node Leaf} (h : (p, v) ∈ rooted t) :
    named t (path p) = some (p, v) := by
  have hnodup : ((rooted t).map fun e => path e.1).Nodup := by
    have hfst := ht.paths
    rw [List.Nodup, List.pairwise_map] at hfst ⊢
    refine hfst.imp_of_mem fun {a b} ha hb hne he => hne ?_
    exact path_injOn (legal_path ht ha) (legal_path ht hb) he
  exact find?_of_injOn (f := fun e => path e.1) hnodup h

def children (t : Table) (p : List Text) : List Text :=
  t.filterMap fun e => if e.1.dropLast = p then e.1.getLast? else none

theorem mem_children (ht : Sound t) (p : List Text) (n : Text) :
    n ∈ children t p ↔ node t (p ++ [n]) ≠ none := by
  rw [children, List.mem_filterMap]
  constructor
  · rintro ⟨⟨q, v⟩, he, hn⟩
    split at hn
    · rename_i hp
      have hq : p ++ [n] = q := by
        rw [← hp]
        exact List.dropLast_append_getLast? n hn
      rw [hq, (node_iff ht q v).mpr (List.mem_cons_of_mem _ he)]
      simp
    · cases hn
  · intro h
    obtain ⟨v, hv⟩ := mem_of_node ht (by simp) h
    exact ⟨_, hv, by simp⟩

theorem children_nodup (ht : Sound t) (p : List Text) : (children t p).Nodup := by
  have hfst := (List.nodup_cons.mp ht.paths).2
  rw [List.Nodup, List.pairwise_map] at hfst
  refine List.pairwise_filterMap.mpr (hfst.imp fun {a b} hne n hn m hm he => hne ?_)
  split at hn
  · rename_i ha
    split at hm
    · rename_i hb
      rw [← List.dropLast_append_getLast? n hn, ← List.dropLast_append_getLast? m hm, ha, hb, he]
    · cases hm
  · cases hn

def denial : Text := "Permission denied".toList

def missing : Text := "Object not found".toList

/-- A file service for the table that refuses the accesses in `denied`, lists
the dots too, and turns every other listing around. Reads give one byte each. -/
def service (t : Table) (denied : List (Access × List Text)) : Afc where
  listDir rs s :=
    match named t s with
    | some (p, .dir) =>
      if (.list, p) ∈ denied then .error denial
      else
        let names := ['.'] :: ['.', '.'] :: children t p
        .ok (if rs.length % 2 = 0 then names else names.reverse)
    | _ => .error missing
  getFileInfo _ s :=
    match named t s with
    | some (p, v) => if (.info, p) ∈ denied then .error denial else .ok (fmt v)
    | none => .error missing
  openFile _ s :=
    match named t s with
    | some (p, .file (.regular data)) =>
      if (.open, p) ∈ denied then .error denial else .ok (data.map fun b => .ok [b])
    | _ => .error missing

theorem denial_denied : isPermissionDenied denial = true := by decide

theorem service_serves (ht : Sound t) (denied : List (Access × List Text)) :
    Serves (device t ht) (fun a p => (a, p) ∈ denied) (service t denied) where
  list_refused _ p hp hr := by
    refine ⟨denial, ?_, denial_denied⟩
    simp only [service, named_path ht ((node_iff ht p .dir).mp hp), if_pos hr]
  list_ok rs p hp hr := by
    have hdots : ((['.'] :: ['.', '.'] :: children t p).filter fun n => !isDot n).Nodup := by
      simpa [isDot] using (children_nodup ht p).filter _
    have hmem : ∀ n, isDot n = false → (n ∈ ['.'] :: ['.', '.'] :: children t p ↔
        node t (p ++ [n]) ≠ none) := by
      intro n hn
      have hn' : n ≠ ['.'] ∧ n ≠ ['.', '.'] := by simpa [isDot] using hn
      rw [← mem_children ht p n]
      simp [hn'.1, hn'.2]
    simp only [service, named_path ht ((node_iff ht p .dir).mp hp), if_neg hr]
    split
    · exact ⟨_, rfl, hdots, hmem⟩
    · refine ⟨_, rfl, ?_, fun n hn => ?_⟩
      · rw [List.filter_reverse]
        exact List.nodup_reverse.mpr hdots
      · rw [List.mem_reverse]
        exact hmem n hn
  info_refused _ p _ hp hr := by
    obtain ⟨v, hv⟩ := Option.ne_none_iff_exists'.mp hp
    refine ⟨denial, ?_, denial_denied⟩
    simp only [service, named_path ht ((node_iff ht p v).mp hv), if_pos hr]
  info_ok _ p v _ hv hr := by
    simp only [service, named_path ht ((node_iff ht p v).mp hv), if_neg hr]
  open_refused _ p data hp hr := by
    refine ⟨denial, ?_, denial_denied⟩
    simp only [service, named_path ht ((node_iff ht p _).mp hp), if_pos hr]
  open_ok _ p data hp hr := by
    refine ⟨data.map fun b => [b], ?_, by simp, ?_⟩
    · simp only [service, named_path ht ((node_iff ht p _).mp hp), if_neg hr, List.map_map]
      rfl
    · rw [← List.flatMap_def]
      exact List.flatMap_singleton' data

def nested : Table :=
  [([['d']], .dir), ([['d'], ['e']], .dir), ([['d'], ['f']], .file (.regular [1, 2])),
    ([['d'], ['g']], .dir), ([['d'], ['g'], ['a']], .file (.regular [])),
    ([['f']], .file (.regular [7]))]

def guarded : Table :=
  nested ++ [([['h']], .dir), ([['h'], ['f']], .file (.regular [3])),
    ([['i']], .dir), ([['i'], ['f']], .file (.regular [4])),
    ([['o']], .file (.regular [5])), ([['s']], .file (.special "S_IFLNK".toList))]

def guards : List (Access × List Text) := [(.list, [['h']]), (.info, [['i']]), (.open, [['o']])]

theorem nested_sound : Sound nested where
  paths := by decide
  parent := by decide
  legal := by decide
  special p f h := by simp [nested] at h

theorem guarded_sound : Sound guarded where
  paths := by decide
  parent := by decide
  legal := by decide
  special p f h := by
    obtain ⟨-, rfl⟩ : p = [['s']] ∧ f = "S_IFLNK".toList := by simpa [guarded, nested] using h
    decide

end UnBoxer.DeviceTables
