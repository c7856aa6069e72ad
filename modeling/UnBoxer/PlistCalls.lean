import UnBoxer.PlistValues

namespace UnBoxer.PlistCalls

open UnBoxer.Chains UnBoxer.Fuel UnBoxer.NodeLists UnBoxer.PlistNodes UnBoxer.HashTables
open UnBoxer.Plists UnBoxer.PlistValues

variable {α β : Type}

section Rows

variable {m : Plist α β} {rows rs as bs : List (Row α)} {r : Row α} {key : CString}

def lookup (es : List (CString × α)) (key : CString) : Option α :=
  (es.find? fun e => e.1 = key).map Prod.snd

theorem nodesOf_cons (r : Row α) : nodesOf (r :: rs) = r.key :: r.item :: nodesOf rs := rfl

theorem nodesOf_append : nodesOf (rs ++ rows) = nodesOf rs ++ nodesOf rows :=
  List.flatMap_append

theorem length_nodesOf : (nodesOf rows).length = 2 * rows.length := by
  induction rows with
  | nil => rfl
  | cons r rs ih =>
    rw [nodesOf_cons, List.length_cons, List.length_cons, List.length_cons, ih]
    omega

theorem lookup_cons (r : Row α) :
    lookup (entriesOf (r :: rs)) key =
      if r.text = key then some r.item else lookup (entriesOf rs) key := by
  rw [lookup, entriesOf, List.map_cons, List.find?_cons]
  by_cases hr : r.text = key
  · simp [hr]
  · simp [hr, lookup, entriesOf]

theorem rows_cases (rows : List (Row α)) (key : CString) :
    (∃ as r bs, rows = as ++ r :: bs ∧ r.text = key ∧ ∀ r' ∈ as, r'.text ≠ key) ∨
      ∀ r ∈ rows, r.text ≠ key := by
  by_cases h : ∃ r ∈ rows, r.text = key
  · obtain ⟨r, hr, hrk⟩ := h
    induction rows with
    | nil => cases hr
    | cons r' rs ih =>
      by_cases hr' : r'.text = key
      · exact Or.inl ⟨[], r', rs, rfl, hr', fun _ hm => absurd hm List.not_mem_nil⟩
      · obtain rfl | hr := List.mem_cons.mp hr
        · exact absurd hrk hr'
        · obtain ⟨as, r'', bs, rfl, hk, has⟩ | hn := ih hr
          · refine Or.inl ⟨r' :: as, r'', bs, rfl, hk, fun x hx => ?_⟩
            obtain rfl | hx := List.mem_cons.mp hx
            · exact hr'
            · exact has x hx
          · exact absurd hrk (hn r hr)
  · exact Or.inr fun r hr hrk => h ⟨r, hr, hrk⟩

theorem lookup_none (h : ∀ r ∈ rows, r.text ≠ key) : lookup (entriesOf rows) key = none := by
  rw [lookup, Option.map_eq_none_iff, List.find?_eq_none]
  intro e he
  obtain ⟨r, hr, rfl⟩ := List.mem_map.mp he
  simpa using h r hr

theorem lookup_some (h : ∀ r' ∈ as, r'.text ≠ key) (hr : r.text = key) :
    lookup (entriesOf (as ++ r :: bs)) key = some r.item := by
  induction as with
  | nil => rw [List.nil_append, lookup_cons, if_pos hr]
  | cons a as ih =>
    rw [List.cons_append, lookup_cons, if_neg (h a List.mem_cons_self),
      ih fun r' hr' => h r' (List.mem_cons_of_mem a hr')]

theorem textual (m : Plist α β) :
    Textual (keyText m) (dictKeyHash m) (dictKeyCompare m) where
  compare a b := by
    rw [dictKeyCompare]
    cases keyText m a with
    | none => simp
    | some s =>
      cases keyText m b with
      | none => simp
      | some t =>
        by_cases hst : s = t
        · simp [hst]
        · simp [hst, Ne.symm hst]
  hash a b t ha hb := by rw [dictKeyHash, dictKeyHash, ha, hb]

theorem distinct (hk : ∀ r ∈ rows, m.data r.key = some (.key r.text))
    (hd : (rows.map Row.text).Nodup) : Distinct (keyText m) (tableOf rows) where
  nodup := by
    have hm : (tableOf rows).map (fun e => keyText m e.1) = (rows.map Row.text).map some := by
      rw [tableOf, List.map_map, List.map_map]
      exact List.map_congr_left fun r hr => keyText_node (hk r hr)
    refine List.Nodup.of_map (fun e => keyText m e.1) ?_
    rw [hm]
    exact hd.map fun _ _ => Option.some.inj
  text e he e' he' t ht ht' := by
    obtain ⟨r, hr, rfl⟩ := List.mem_map.mp he
    obtain ⟨r', hr', rfl⟩ := List.mem_map.mp he'
    rw [keyText_node (hk r hr)] at ht
    rw [keyText_node (hk r' hr')] at ht'
    cases ht
    rw [List.inj_on_of_nodup_map hd hr hr' (Option.some.inj ht').symm]

end Rows

section Loops

variable {m : Plist α β} {xs : List α} {rows rs : List (Row α)} {key : CString}

theorem addAll_spec {b : Option α} (pa : PtrArray α) (h : Linked m.next m.prev b xs none)
    (hl : ∀ x ∈ xs, m.live x = true) :
    ∃ pa', Returns (fun fuel => addAll m fuel xs.head? pa) pa' ∧ pa'.pdata = pa.pdata ++ xs := by
  induction xs generalizing b pa with
  | nil => exact ⟨pa, Returns.of_succ (returns_of_eq fun _ => rfl), (List.append_nil _).symm⟩
  | cons x xs ih =>
    obtain ⟨pa', hr, hp⟩ := ih (ptrArrayAdd pa x) h.2.2
      (fun y hy => hl y (List.mem_cons_of_mem x hy))
    refine ⟨pa', Returns.of_succ (hr.congr fun fuel => ?_), ?_⟩
    · rw [List.head?_cons, addAll, nodeNextSibling_live (hl x List.mem_cons_self), h.next_cons]
      rfl
    · rw [hp]
      exact List.append_assoc pa.pdata [x] xs

theorem findKey_spec {b : Option α} (h : Linked m.next m.prev b (nodesOf rows) none)
    (hl : ∀ x ∈ nodesOf rows, m.live x = true)
    (hk : ∀ r ∈ rows, m.data r.key = some (.key r.text)) :
    Returns (fun fuel => findKey m key fuel (nodesOf rows).head?) (lookup (entriesOf rows) key) := by
  induction rows generalizing b with
  | nil => exact Returns.of_succ (returns_of_eq fun _ => rfl)
  | cons r rs ih =>
    rw [nodesOf_cons] at h hl ⊢
    have hlk : m.live r.key = true := hl _ List.mem_cons_self
    have hli : m.live r.item = true := hl _ (List.mem_cons_of_mem _ List.mem_cons_self)
    have hnk : m.next r.key = some r.item := h.next_cons
    have hni : m.next r.item = (nodesOf rs).head? := h.2.2.next_cons
    rw [lookup_cons]
    by_cases hr : r.text = key
    · refine Returns.of_succ (returns_of_eq fun fuel => ?_)
      rw [List.head?_cons, findKey, deref_live hlk, if_pos hr]
      simp only [Option.bind_eq_bind, Option.bind_some, hk r List.mem_cons_self,
        nodeNextSibling_live hlk, hnk, hr, if_true]
    · rw [if_neg hr]
      have hrest := ih h.2.2.2.2
        (fun x hx => hl x (List.mem_cons_of_mem _ (List.mem_cons_of_mem _ hx)))
        (fun r' hr' => hk r' (List.mem_cons_of_mem r hr'))
      refine Returns.of_succ (hrest.congr fun fuel => ?_)
      rw [List.head?_cons, findKey, deref_live hlk]
      simp only [Option.bind_eq_bind, Option.bind_some, hk r List.mem_cons_self,
        nodeNextSibling_live hlk, hnk, nodeNextSibling_live hli, hni, Ne.symm hr, if_false]

end Loops

section Tables

variable {m m' : Plist α β} {rows rs as bs : List (Row α)} {r : Row α} {item : α}
  {ht : HashTable (KeyRef α) α}

/-- A table goes by the texts of the keys only. -/
theorem table_congr (h : Indexes (dictKeyHash m) ht (tableOf rows))
    (hk : ∀ r ∈ rows, m.data r.key = some (.key r.text))
    (hk' : ∀ r ∈ rows, m'.data r.key = some (.key r.text)) :
    Indexes (dictKeyHash m') ht (tableOf rows) := by
  refine h.congr fun e he => ?_
  obtain ⟨r, hr, rfl⟩ := List.mem_map.mp he
  rw [dictKeyHash, dictKeyHash, keyText_node (hk r hr), keyText_node (hk' r hr)]

theorem table_append (h : Indexes (dictKeyHash m) ht (tableOf rows))
    (hk : ∀ r ∈ rows, m.data r.key = some (.key r.text)) (hr : m.data r.key = some (.key r.text))
    (hn : ∀ r' ∈ rows, r'.text ≠ r.text) :
    Indexes (dictKeyHash m)
      (hashTableInsert (dictKeyHash m) (dictKeyCompare m) ht (.node r.key) r.item)
      (tableOf (rows ++ [r])) := by
  have hins := h.insert (textual m) r.item (keyText_node hr) fun e he het => by
    obtain ⟨r', hr', rfl⟩ := List.mem_map.mp he
    rw [keyText_node (hk r' hr')] at het
    exact hn r' hr' (Option.some.inj het)
  rw [tableOf, List.map_append]
  exact hins

theorem table_replace (h : Indexes (dictKeyHash m) ht (tableOf (as ++ r :: bs)))
    (hk : ∀ r' ∈ as ++ r :: bs, m.data r'.key = some (.key r'.text))
    (hd : ((as ++ r :: bs).map Row.text).Nodup) :
    Indexes (dictKeyHash m)
      (hashTableInsert (dictKeyHash m) (dictKeyCompare m) ht (.node r.key) item)
      (tableOf (as ++ { r with item := item } :: bs)) := by
  have hdis := distinct hk hd
  have hr := keyText_node (hk r (List.mem_append_right as List.mem_cons_self))
  rw [tableOf, List.map_append, List.map_cons] at h hdis ⊢
  exact h.replace (textual m) hdis hr

theorem table_remove (h : Indexes (dictKeyHash m) ht (tableOf (as ++ r :: bs)))
    (hk : ∀ r' ∈ as ++ r :: bs, m.data r'.key = some (.key r'.text))
    (hd : ((as ++ r :: bs).map Row.text).Nodup) :
    Indexes (dictKeyHash m) (hashTableRemove (dictKeyHash m) (dictKeyCompare m) ht (.node r.key))
      (tableOf (as ++ bs)) := by
  have hdis := distinct hk hd
  have hr := keyText_node (hk r (List.mem_append_right as List.mem_cons_self))
  rw [tableOf, List.map_append, List.map_cons] at h hdis
  rw [tableOf, List.map_append]
  exact h.remove (textual m) hdis hr

theorem insertAll_spec {b : Option α} (rows : List (Row α))
    (h : Linked m.next m.prev b (nodesOf rs) none) (hl : ∀ x ∈ nodesOf rs, m.live x = true)
    (hk : ∀ r ∈ rows ++ rs, m.data r.key = some (.key r.text))
    (hd : ((rows ++ rs).map Row.text).Nodup) (hi : Indexes (dictKeyHash m) ht (tableOf rows)) :
    ∃ ht', Returns (fun fuel => insertAll m fuel (nodesOf rs).head? ht) ht' ∧
      Indexes (dictKeyHash m) ht' (tableOf (rows ++ rs)) := by
  induction rs generalizing b rows ht with
  | nil =>
    refine ⟨ht, Returns.of_succ (returns_of_eq fun _ => rfl), ?_⟩
    rw [List.append_nil]
    exact hi
  | cons r rs ih =>
    rw [nodesOf_cons] at h hl ⊢
    have hlk : m.live r.key = true := hl _ List.mem_cons_self
    have hli : m.live r.item = true := hl _ (List.mem_cons_of_mem _ List.mem_cons_self)
    have hnk : m.next r.key = some r.item := h.next_cons
    have hni : m.next r.item = (nodesOf rs).head? := h.2.2.next_cons
    have hnew : ∀ r' ∈ rows, r'.text ≠ r.text := by
      rw [List.map_append, List.map_cons] at hd
      exact fun r' hr' => (List.nodup_append.mp hd).2.2 r'.text (List.mem_map_of_mem hr') r.text
        List.mem_cons_self
    have hins := table_append hi (fun r' hr' => hk r' (List.mem_append_left _ hr'))
      (hk r (by simp)) hnew
    have happ : rows ++ r :: rs = rows ++ [r] ++ rs := by
      rw [List.append_assoc, List.singleton_append]
    rw [happ] at hk hd ⊢
    obtain ⟨ht', hr, hidx⟩ := ih (rows ++ [r]) h.2.2.2.2
      (fun x hx => hl x (List.mem_cons_of_mem _ (List.mem_cons_of_mem _ hx))) hk hd hins
    refine ⟨ht', Returns.of_succ (hr.congr fun fuel => ?_), hidx⟩
    rw [List.head?_cons, insertAll, nodeNextSibling_live hlk, hnk]
    simp only [Option.bind_eq_bind, Option.bind_some, deref_live hli, nodeNextSibling_live hli, hni]

end Tables

section Reads

variable {m : Plist α β} {s : Values α β} {kids : α → List α} {X Y : Set α} {a d : α}
  {xs ys zs : List α} {rows : List (Row α)} {n : ℕ}

theorem holds_array (h : Holds X Y m s kids) (ha : a ∉ X) (hs : s a = some (.array xs)) :
    m.live a = true ∧ kids a = xs ∧ ∃ hashtable, m.data a = some (.array hashtable) ∧
      ∀ pa, hashtable = some pa → pa.pdata = xs := by
  have hsh := h.content a ha
  rw [hs] at hsh
  generalize hks : kids a = ks at hsh
  cases hsh with
  | array h₁ h₂ h₃ => exact ⟨h₁, rfl, _, h₂, h₃⟩

theorem holds_dict {es : List (CString × α)} (h : Holds X Y m s kids) (hd : d ∉ X)
    (hs : s d = some (.dict es)) :
    m.live d = true ∧ ∃ rows hashtable, es = entriesOf rows ∧ m.data d = some (.dict hashtable) ∧
      Rows m (kids d) rows hashtable := by
  have hsh := h.content d hd
  rw [hs] at hsh
  generalize hks : kids d = ks at hsh ⊢
  cases hsh with
  | dict h₁ h₂ h₃ => exact ⟨h₁, _, _, rfl, h₂, h₃⟩

theorem plistArrayGetSize_spec (h : Holds X Y m s kids) (ha : a ∉ X)
    (hs : s a = some (.array xs)) : plistArrayGetSize a m = some xs.length := by
  obtain ⟨hl, rfl, hashtable, hd, -⟩ := holds_array h ha hs
  rw [plistArrayGetSize, deref_live hl]
  simp only [Option.bind_eq_bind, Option.bind_some, hd, h.forest.count a hl]

theorem plistArrayGetItem_spec (h : Holds X Y m s kids) (ha : a ∉ X)
    (hs : s a = some (.array xs)) (hn : n < intMax) : plistArrayGetItem a n m = some xs[n]? := by
  obtain ⟨hl, rfl, hashtable, hd, hp⟩ := holds_array h ha hs
  rw [plistArrayGetItem, deref_live hl]
  simp only [Option.bind_eq_bind, Option.bind_some, hd, if_pos hn]
  cases hashtable with
  | none => exact nodeNthChild_spec h.forest hl n
  | some pa => exact congrArg (fun l => some l[n]?) (hp pa rfl)

theorem plistDictGetSize_spec {es : List (CString × α)} (h : Holds X Y m s kids) (hd : d ∉ X)
    (hs : s d = some (.dict es)) : plistDictGetSize d m = some es.length := by
  obtain ⟨hl, rows, hashtable, rfl, hda, hr⟩ := holds_dict h hd hs
  have hlen : (kids d).length / 2 = (entriesOf rows).length := by
    rw [hr.kids, length_nodesOf, entriesOf, List.length_map]
    omega
  rw [plistDictGetSize, deref_live hl]
  simp only [Option.bind_eq_bind, Option.bind_some, hda, h.forest.count d hl, hlen]

theorem plistDictGetItem_spec {es : List (CString × α)} (h : Holds X Y m s kids) (hd : d ∉ X)
    (hs : s d = some (.dict es)) (key : CString) :
    Returns (fun fuel => plistDictGetItem fuel d key m) (lookup es key) := by
  obtain ⟨hl, rows, hashtable, rfl, hda, hr⟩ := holds_dict h hd hs
  have hch := h.forest.chained d hl
  cases hashtable with
  | none =>
    have hf := nodeFirstChild_spec h.forest hl
    rw [hr.kids] at hch hf
    refine (findKey_spec hch.linked hch.live hr.keys).congr fun fuel => ?_
    rw [plistDictGetItem, deref_live hl]
    simp only [Option.bind_eq_bind, Option.bind_some, hda, hf]
  | some ht =>
    have hi := hr.table ht rfl
    have htext : keyText m (.stack key) = some key := rfl
    have hlook : hashTableLookup (dictKeyHash m) (dictKeyCompare m) ht (.stack key) =
        lookup (entriesOf rows) key := by
      obtain ⟨as, r, bs, rfl, hrk, has⟩ | hn := rows_cases rows key
      · have hmem : (KeyRef.node r.key, r.item) ∈ tableOf (as ++ r :: bs) :=
          List.mem_map.mpr ⟨r, by simp, rfl⟩
        rw [hi.lookup (textual m) (distinct hr.keys hr.distinct) hmem
          ((keyText_node (hr.keys r (by simp))).trans (congrArg some hrk)) htext,
          lookup_some has hrk]
      · rw [lookup_none hn]
        refine hi.lookup_none (textual m) htext fun e he het => ?_
        obtain ⟨r, hr', rfl⟩ := List.mem_map.mp he
        rw [keyText_node (hr.keys r hr')] at het
        exact hn r hr' (Option.some.inj het)
    refine returns_of_eq fun fuel => ?_
    rw [plistDictGetItem, deref_live hl]
    simp only [Option.bind_eq_bind, Option.bind_some, hda, hlook]

theorem nextItems_spec {rs : List (Row α)} {b : Option α} (hl : m.live d = true)
    {hashtable : Option (HashTable (KeyRef α) α)} (hd : m.data d = some (.dict hashtable))
    (h : Linked m.next m.prev b (nodesOf rs) none) (hlive : ∀ x ∈ nodesOf rs, m.live x = true)
    (hk : ∀ r ∈ rs, m.data r.key = some (.key r.text)) :
    Returns (fun fuel => nextItems d m fuel (nodesOf rs).head?) (entriesOf rs) := by
  induction rs generalizing b with
  | nil =>
    refine Returns.of_succ (returns_of_eq fun fuel => ?_)
    rw [nextItems, plistDictNextItem, deref_live hl]
    simp only [Option.bind_eq_bind, Option.bind_some, hd]
    rfl
  | cons r rs ih =>
    rw [nodesOf_cons] at h hlive ⊢
    have hlk : m.live r.key = true := hlive _ List.mem_cons_self
    have hli : m.live r.item = true := hlive _ (List.mem_cons_of_mem _ List.mem_cons_self)
    have hnk : m.next r.key = some r.item := h.next_cons
    have hni : m.next r.item = (nodesOf rs).head? := h.2.2.next_cons
    have hrest := ih h.2.2.2.2
      (fun x hx => hlive x (List.mem_cons_of_mem _ (List.mem_cons_of_mem _ hx)))
      fun r' hr' => hk r' (List.mem_cons_of_mem _ hr')
    refine Returns.of_succ (hrest.after (returns_of_eq fun _ => rfl) fun fuel hf => ?_)
    have hitem : plistDictNextItem d (some r.key) m =
        some (some r.text, some r.item, (nodesOf rs).head?) := by
      rw [plistDictNextItem, deref_live hl]
      simp only [Option.bind_eq_bind, Option.bind_some, hd, deref_live hlk,
        nodeNextSibling_live hlk, hnk, nodeNextSibling_live hli, hni,
        keyText_node (hk r List.mem_cons_self)]
    rw [List.head?_cons, nextItems, hitem]
    simp only [Option.bind_eq_bind, Option.bind_some, hf]
    rfl

theorem plistDictNewIter_spec {es : List (CString × α)} (h : Holds X Y m s kids) (hd : d ∉ X)
    (hs : s d = some (.dict es)) :
    ∃ iter, plistDictNewIter d m = some iter ∧
      Returns (fun fuel => nextItems d m fuel iter) es := by
  obtain ⟨hl, rows, hashtable, rfl, hda, hr⟩ := holds_dict h hd hs
  have hch := h.forest.chained d hl
  have hf := nodeFirstChild_spec h.forest hl
  rw [hr.kids] at hch hf
  exact ⟨_, hf, nextItems_spec hl hda hch.linked hch.live hr.keys⟩

end Reads

variable [DecidableEq α]

section Writes

variable {m : Plist α β} {s : Values α β} {kids : α → List α} {X Y : Set α} {a c d item p : α}
  {ys zs : List α} {rows : List (Row α)}

theorem plistArrayGetItemIndex_spec {c : α} (h : Holds X Y m s kids) (ha : a ∉ X)
    (hs : s a = some (.array (ys ++ c :: zs))) :
    Returns (fun fuel => plistArrayGetItemIndex fuel c m) (some ys.length) := by
  obtain ⟨hl, hk, hashtable, hd, -⟩ := holds_array h ha hs
  have hc : c ∈ kids a := hk ▸ List.mem_append_right ys List.mem_cons_self
  refine (nodeChildPosition_spec h.forest hl hk).congr fun fuel => ?_
  rw [plistArrayGetItemIndex, deref_live ((h.forest.chained a hl).live c hc)]
  simp only [Option.bind_eq_bind, Option.bind_some, h.forest.parent a hl c hc, deref_live hl, hd]

/-- What has become of the memory when `c` and all that stands below it has been freed. -/
structure Freed (m : Plist α β) (s : Values α β) (kids : α → List α) (c : α) (m' : Plist α β)
    (kids' : α → List α) : Prop where
  survive : ∀ x, m.live x = true → ¬ Below kids c x → m'.live x = true
  same : ∀ x, m'.live x = true →
    m'.data x = m.data x ∧ m'.parent x = m.parent x ∧ discarded s c x = s x
  before : ∀ x, m'.live x = true → m.live x = true
  sub : ∀ q d, d ∈ kids' q → d ∈ kids q

theorem holds_free (h : Holds ∅ ∅ m s kids) (hc : m.live c = true) (hp : m.parent c = none) :
    ∃ m', Returns (fun fuel => plistFreeNode fuel c m) (none, m') ∧
      Holds ∅ ∅ m' (discarded s c) (without kids c) := by
  have hd : Returns (fun fuel => nodeDetach fuel (m.parent c) c m) (none, m) := by
    rw [hp]
    exact returns_of_eq fun _ => rfl
  obtain ⟨m', hr, hcl⟩ := plistFreeNode_spec (h.acyclic c) m m kids none hd h.forest
    (fun _ _ => rfl) hc hc
  exact ⟨m', hr, (h.mono (Set.Subset.refl ∅) (Set.empty_subset {c})).cleared
    (fun x hx => absurd hx (Set.notMem_empty x)) hc (h.root hp) hcl⟩

theorem holds_free_child (h : Holds {a} ∅ m s kids) (ha : m.live a = true)
    (hk : kids a = ys ++ c :: zs) :
    ∃ m' kids', Returns (fun fuel => plistFreeNode fuel c m) (some ys.length, m') ∧
      Holds {a} ∅ m' (discarded s c) kids' ∧ kids' a = ys ++ zs ∧ m'.live a = true ∧
      Freed m s kids c m' kids' := by
  have hc : c ∈ kids a := hk ▸ List.mem_append_right ys List.mem_cons_self
  have hlc : m.live c = true := (h.forest.chained a ha).live c hc
  have hsub := @update_sub α _ kids a c ys zs hk
  have hca : ¬ Below (Function.update kids a (ys ++ zs)) c a := fun hb =>
    not_below (h.acyclic a) hc (below_mono hsub hb)
  have hd := nodeDetach_spec h.forest ha hk
  rw [← h.forest.parent a ha c hc] at hd
  have h₁ := h.orphan ha hk
  obtain ⟨m', hr, hcl⟩ := plistFreeNode_spec (h₁.acyclic c) m _ _ _ hd h₁.forest (fun _ _ => rfl)
    hlc hlc
  have hX : ∀ x ∈ ({a} : Set α), ¬ Below (Function.update kids a (ys ++ zs)) c x := by
    rintro x rfl
    exact hca
  have hf : ∀ q, m.live q = true → c ∉ Function.update kids a (ys ++ zs) q := by
    intro q hq hcq
    by_cases hqa : q = a
    · rw [hqa, Function.update_self] at hcq
      have hn := (h.forest.chained a ha).nodup
      rw [hk] at hn
      exact (List.nodup_cons.mp (List.nodup_middle.mp hn)).1 hcq
    · rw [Function.update_of_ne hqa] at hcq
      exact hqa (h.forest.kids_eq hq ha hcq hc)
  refine ⟨m', _, hr, h₁.cleared hX hlc hf hcl, ?_, ?_, fun x hx hb => ?_, fun x hx => ?_,
    fun x hx => ?_, fun q d hd => hsub q d (without_sub q d hd)⟩
  · rw [without, if_neg hca, Function.update_self]
  · exact (congrArg Cell.live (hcl.kept a hca)).trans ha
  · exact (congrArg Cell.live (hcl.kept x fun hb' => hb (below_mono hsub hb'))).trans hx
  · have hb := hcl.live hx
    refine ⟨congrArg Cell.data (hcl.kept x hb), congrArg Cell.parent (hcl.kept x hb), ?_⟩
    exact discarded_of_not fun hu => hb (h₁.below_of_under hX hu)
  · exact (congrArg Cell.live (hcl.kept x (hcl.live hx))).symm.trans hx

theorem plistFree_returns {m' : Plist α β} {i : Option ℕ}
    (h : Returns (fun fuel => plistFreeNode fuel c m) (i, m')) :
    Returns (fun fuel => plistFree fuel c m) m' := by
  refine h.after (returns_of_eq fun _ => rfl) fun fuel hf => ?_
  rw [plistFree, hf]
  rfl

end Writes

end UnBoxer.PlistCalls
