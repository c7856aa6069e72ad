import UnBoxer.PlistRuns

namespace UnBoxer.PlistKeys

open UnBoxer.Fuel UnBoxer.NodeLists UnBoxer.PlistNodes UnBoxer.HashTables UnBoxer.Plists
open UnBoxer.PlistValues UnBoxer.PlistCalls UnBoxer.PlistEdits UnBoxer.PlistRuns UnBoxer.Runs

variable {α β : Type} [DecidableEq α]

section Keys

variable {m : Plist α β} {s : Values α β} {kids : α → List α} {d k : α} {t val : CString}
  {es : List (CString × α)} {rows as bs : List (Row α)} {r : Row α}
  {ht : HashTable (KeyRef α) α}

omit [DecidableEq α] in
theorem row_of_key {hashtable : Option (HashTable (KeyRef α) α)} (h : Holds ∅ ∅ m s kids)
    (hs : s d = some (.dict (entriesOf rows))) (hr : Rows m (kids d) rows hashtable)
    (hl : m.live k = true) (hp : m.parent k = some d) (hk : m.data k = some (.key t)) :
    ∃ r ∈ rows, r.key = k ∧ r.text = t := by
  obtain ⟨-, hkd⟩ := h.rooted k d (Set.notMem_empty k) hl hp
  rw [hr.kids] at hkd
  obtain ⟨r, hin, rfl | rfl⟩ := mem_nodesOf.mp hkd
  · have hdata := hr.keys r hin
    rw [hk] at hdata
    exact ⟨r, hin, rfl, (Data.key.inj (Option.some.inj hdata)).symm⟩
  · have hnone := (h.content _ (Set.notMem_empty _)).not_key hk
    exact absurd hnone (h.exist d (Set.notMem_empty d) _ hs r.item
      (List.mem_map.mpr ⟨_, List.mem_map.mpr ⟨r, hin, rfl⟩, rfl⟩))

omit [DecidableEq α] in
theorem row_eq (hk : ∀ r ∈ rows, m.data r.key = some (.key r.text))
    (hd : (rows.map Row.text).Nodup) {r r' : Row α} (hr : r ∈ rows) (hr' : r' ∈ rows)
    (h : r'.key = r.key) : r' = r := by
  have hdata := hk r' hr'
  rw [h, hk r hr] at hdata
  exact (List.inj_on_of_nodup_map hd hr hr' (Data.key.inj (Option.some.inj hdata))).symm

theorem data_renamed (hk : ∀ r' ∈ rows, m.data r'.key = some (.key r'.text)) {r' : Row α}
    (hr' : r' ∈ rows) :
    (m.setData r.key (some (.key val))).data r'.key =
      some (.key (if r'.key = r.key then val else r'.text)) := by
  by_cases hkk : r'.key = r.key
  · rw [if_pos hkk, hkk, data_setData, Function.update_self]
  · rw [if_neg hkk, data_setData, Function.update_of_ne hkk, hk r' hr']

/-- What is the same as `u` after the change is the changed key, or another one that was. -/
theorem match_renamed (hr : Rows m (kids d) rows (some ht)) (hin : r ∈ rows) {e : KeyRef α × α}
    (he : e ∈ tableOf rows) {u : CString}
    (hc : dictKeyCompare (m.setData r.key (some (.key val))) e.1 (.stack u) = true) :
    e = (.node r.key, r.item) ∧ u = val ∨ ∃ r' ∈ rows, r'.key ≠ r.key ∧ r'.text = u := by
  obtain ⟨r', hr', rfl⟩ := List.mem_map.mp he
  have ht := ((textual _).compare_text rfl _).mp hc
  rw [keyText_node (data_renamed hr.keys hr')] at ht
  by_cases hkk : r'.key = r.key
  · rw [if_pos hkk] at ht
    rw [row_eq hr.keys hr.distinct hin hr' hkk]
    exact Or.inl ⟨rfl, (Option.some.inj ht).symm⟩
  · rw [if_neg hkk] at ht
    exact Or.inr ⟨r', hr', hkk, Option.some.inj ht⟩

/-- A table finds the changed key only when the new text leads to the chain that the old one led
to, and it finds the old text no more. -/
theorem table_renamed (hr : Rows m (kids d) rows (some ht)) (hin : r ∈ rows)
    (hval : ∀ r' ∈ rows, r'.text ≠ val) :
    hashTableLookup (dictKeyHash (m.setData r.key (some (.key val))))
        (dictKeyCompare (m.setData r.key (some (.key val)))) ht (.stack val) =
      (if idx0 (hashBytes r.text) = idx0 (hashBytes val) then some r.item else none) ∧
    hashTableLookup (dictKeyHash (m.setData r.key (some (.key val))))
        (dictKeyCompare (m.setData r.key (some (.key val)))) ht (.stack r.text) = none := by
  have hidx := hr.table ht rfl
  have hself : dictKeyCompare (m.setData r.key (some (.key val))) (.node r.key) (.stack val) =
      true := by
    refine ((textual _).compare_text rfl _).mpr ?_
    rw [keyText_node (data_renamed hr.keys hin), if_pos rfl]
  have hhash : dictKeyHash m (.node r.key) = hashBytes r.text := by
    rw [dictKeyHash, keyText_node (hr.keys r hin)]
    rfl
  have hval' : dictKeyHash (m.setData r.key (some (.key val))) (.stack val) = hashBytes val := rfl
  have hold : dictKeyHash (m.setData r.key (some (.key val))) (.stack r.text) =
      hashBytes r.text := rfl
  constructor
  · rw [hashTableLookup, hval']
    by_cases hi : idx0 (hashBytes r.text) = idx0 (hashBytes val)
    · rw [if_pos hi]
      have hmem : (KeyRef.node r.key, r.item) ∈ ht.entries (idx0 (hashBytes val)) :=
        (hidx.mem _ _).mpr ⟨List.mem_map.mpr ⟨r, hin, rfl⟩, by rw [hhash, hi]⟩
      cases hg : (ht.entries (idx0 (hashBytes val))).find? (fun e =>
          dictKeyCompare (m.setData r.key (some (.key val))) e.1 (.stack val)) with
      | none =>
        rw [List.find?_eq_none] at hg
        exact absurd hself (hg _ hmem)
      | some e =>
        have he := ((hidx.mem _ e).mp (List.mem_of_find?_eq_some hg)).1
        have hce : dictKeyCompare (m.setData r.key (some (.key val))) e.1 (.stack val) = true :=
          List.find?_some (p := fun e : KeyRef α × α =>
            dictKeyCompare (m.setData r.key (some (.key val))) e.1 (.stack val)) hg
        obtain ⟨rfl, -⟩ | ⟨r', hr', -, ht'⟩ := match_renamed hr hin he hce
        · rfl
        · exact absurd ht' (hval r' hr')
    · rw [if_neg hi, Option.map_eq_none_iff, List.find?_eq_none]
      intro e he hce
      obtain ⟨hmem, hie⟩ := (hidx.mem _ e).mp he
      obtain ⟨rfl, -⟩ | ⟨r', hr', -, ht'⟩ := match_renamed hr hin hmem hce
      · rw [hhash] at hie
        exact hi hie
      · exact hval r' hr' ht'
  · rw [hashTableLookup, Option.map_eq_none_iff, List.find?_eq_none]
    intro e he hce
    obtain ⟨-, hv⟩ | ⟨r', hr', hne, ht'⟩ := match_renamed hr hin ((hidx.mem _ e).mp he).1 hce
    · exact hval r hin hv
    · exact hne (congrArg Row.key (List.inj_on_of_nodup_map hr.distinct hr' hin ht'))

theorem rows_renamed {hashtable : Option (HashTable (KeyRef α) α)}
    (hr : Rows m (kids d) (as ++ r :: bs) hashtable)
    (hval : ∀ r' ∈ as ++ r :: bs, r'.text ≠ val) :
    Rows (m.setData r.key (some (.key val))) (kids d) (as ++ { r with text := val } :: bs)
      none := by
  have hin : r ∈ as ++ r :: bs := List.mem_append_right as List.mem_cons_self
  have hrest : ∀ r' ∈ as ++ bs, r' ∈ as ++ r :: bs := fun r' hr' =>
    List.mem_append.mpr ((List.mem_append.mp hr').imp_right (List.mem_cons_of_mem r))
  have hd := hr.distinct
  rw [List.map_append, List.map_cons, List.nodup_middle, List.nodup_cons, ← List.map_append] at hd
  have hne : ∀ r' ∈ as ++ bs, r'.key ≠ r.key := by
    intro r' hr' hkk
    have heq := row_eq hr.keys hr.distinct hin (hrest r' hr') hkk
    exact hd.1 (heq ▸ List.mem_map_of_mem hr')
  have hother : ∀ r' ∈ as ++ bs,
      (m.setData r.key (some (.key val))).data r'.key = some (.key r'.text) := fun r' hr' => by
    rw [data_renamed hr.keys (hrest r' hr'), if_neg (hne r' hr')]
  refine ⟨?_, fun r' hr' => ?_, ?_, fun ht hht => by cases hht⟩
  · rw [hr.kids, nodesOf_append, nodesOf_append]
    rfl
  · obtain hr' | hr' := List.mem_append.mp hr'
    · exact hother r' (List.mem_append_left bs hr')
    · obtain rfl | hr' := List.mem_cons.mp hr'
      · rw [data_setData, Function.update_self]
      · exact hother r' (List.mem_append_right as hr')
  · rw [List.map_append, List.map_cons, List.nodup_middle, List.nodup_cons, ← List.map_append]
    refine ⟨fun hm => ?_, hd.2⟩
    obtain ⟨r', hr', ht⟩ := List.mem_map.mp hm
    exact hval r' (hrest r' hr') ht

theorem plistSetKeyVal_spec (h : Holds ∅ ∅ m s kids) (hs : s d = some (.dict es))
    (hl : m.live k = true) (hp : m.parent k = some d) (hv : lookup es val = none) :
    Returns (fun fuel => plistSetKeyVal fuel k val m) (m.setData k (some (.key val))) := by
  have hget := plistDictGetItem_spec h (Set.notMem_empty d) hs val
  rw [hv] at hget
  refine hget.after (returns_of_eq fun _ => rfl) fun fuel hg => ?_
  simp only [plistSetKeyVal, deref_live hl, hp, hg, Option.bind_eq_bind, Option.bind_some]

theorem before_text {as bs : List (Row α)} (hd : ((as ++ r :: bs).map Row.text).Nodup) :
    ∀ r' ∈ as, r'.text ≠ r.text := by
  rw [List.map_append, List.map_cons] at hd
  exact fun r' hr' ht => (List.nodup_append.mp hd).2.2 _ (List.mem_map_of_mem hr') _
    List.mem_cons_self ht

theorem lookup_renamed (hr : ((as ++ r :: bs).map Row.text).Nodup)
    (hval : ∀ r' ∈ as ++ r :: bs, r'.text ≠ val) :
    lookup (entriesOf (as ++ { r with text := val } :: bs)) r.text = none ∧
      lookup (entriesOf (as ++ { r with text := val } :: bs)) val = some r.item := by
  refine ⟨lookup_none fun r' hr' => ?_,
    lookup_some (fun r' hr' => hval r' (List.mem_append_left _ hr')) rfl⟩
  obtain hr' | hr' := List.mem_append.mp hr'
  · exact before_text hr r' hr'
  · obtain rfl | hr' := List.mem_cons.mp hr'
    · exact (hval r (List.mem_append_right as List.mem_cons_self)).symm
    · rw [List.map_append, List.map_cons, List.nodup_middle, List.nodup_cons,
        ← List.map_append] at hr
      exact fun ht => hr.1 (ht ▸ List.mem_map_of_mem (List.mem_append_right as hr'))

theorem getItem_renamed (h : Holds ∅ ∅ m s kids) (hl : m.live d = true)
    (hd : m.data d = some (.dict none)) (hk : m.data r.key = some (.key r.text))
    (hr : Rows (m.setData r.key (some (.key val))) (kids d) rows none) (key : CString) :
    Returns (fun fuel => plistDictGetItem fuel d key (m.setData r.key (some (.key val))))
      (lookup (entriesOf rows) key) := by
  have hdk : d ≠ r.key := by
    rintro rfl
    rw [hk] at hd
    cases hd
  have hd' : (m.setData r.key (some (.key val))).data d = some (.dict none) := by
    rw [data_setData, Function.update_of_ne hdk, hd]
  have hl' : (m.setData r.key (some (.key val))).live d = true := hl
  have hforest := h.forest.setData (p := r.key) (d := some (.key val))
  have hch := hforest.chained d hl'
  have hf := nodeFirstChild_spec hforest hl'
  rw [hr.kids] at hch hf
  refine (findKey_spec hch.linked hch.live hr.keys).congr fun fuel => ?_
  rw [plistDictGetItem, deref_live hl']
  simp only [Option.bind_eq_bind, Option.bind_some, hd', hf]

theorem getItem_table (hl : m.live d = true) (hd : m.data d = some (.dict (some ht)))
    (hk : m.data r.key = some (.key r.text)) (key : CString) :
    Returns (fun fuel => plistDictGetItem fuel d key (m.setData r.key (some (.key val))))
      (hashTableLookup (dictKeyHash (m.setData r.key (some (.key val))))
        (dictKeyCompare (m.setData r.key (some (.key val)))) ht (.stack key)) := by
  have hdk : d ≠ r.key := by
    rintro rfl
    rw [hk] at hd
    cases hd
  have hd' : (m.setData r.key (some (.key val))).data d = some (.dict (some ht)) := by
    rw [data_setData, Function.update_of_ne hdk, hd]
  have hl' : (m.setData r.key (some (.key val))).live d = true := hl
  refine returns_of_eq fun fuel => ?_
  rw [plistDictGetItem, deref_live hl']
  simp only [Option.bind_eq_bind, Option.bind_some, hd']

/-- The text of a key is changed where it stands. A dictionary without a table finds the item
under the new text. A table is not told: it finds the item only when the new text happens to lead
to the chain of the old one. -/
theorem key_renamed {cs : List (Call α β)} {st : Plist α β × Values α β}
    (h : Run Step start cs st) (hs : st.2 d = some (.dict es)) (hl : st.1.live k = true)
    (hp : st.1.parent k = some d) (hk : st.1.data k = some (.key t))
    (hv : lookup es val = none) :
    ∃ m', Returns (fun fuel => plistSetKeyVal fuel k val st.1) m' ∧
      Returns (fun fuel => plistDictGetItem fuel d t m') none ∧
      (st.1.data d = some (.dict none) →
        Returns (fun fuel => plistDictGetItem fuel d val m') (lookup es t)) ∧
      ∀ ht, st.1.data d = some (.dict (some ht)) →
        Returns (fun fuel => plistDictGetItem fuel d val m')
          (if idx0 (hashBytes t) = idx0 (hashBytes val) then lookup es t else none) := by
  obtain ⟨kids, hh⟩ := run_represents h
  refine ⟨_, plistSetKeyVal_spec hh hs hl hp hv, ?_⟩
  obtain ⟨hld, rows, hashtable, rfl, hd, hr⟩ := holds_dict hh (Set.notMem_empty d) hs
  obtain ⟨r, hin, rfl, rfl⟩ := row_of_key hh hs hr hl hp hk
  have hval := rows_new hv
  obtain ⟨as, bs, rfl⟩ := List.append_of_mem hin
  rw [lookup_some (before_text hr.distinct) rfl]
  cases hashtable with
  | none =>
    have hfind := getItem_renamed hh hld hd hk (rows_renamed hr hval)
    obtain ⟨hold, hnew⟩ := lookup_renamed hr.distinct hval
    refine ⟨hold ▸ hfind r.text, fun _ => hnew ▸ hfind val, fun ht hht => ?_⟩
    rw [hd] at hht
    cases hht
  | some ht =>
    obtain ⟨hnew, hold⟩ := table_renamed hr hin hval
    have hfind (key : CString) : Returns (fun fuel => plistDictGetItem fuel d key
        (st.1.setData r.key (some (.key val)))) _ := getItem_table hld hd hk key
    refine ⟨hold ▸ hfind r.text, fun hno => ?_, fun ht' hht => hnew ▸ hfind val⟩
    rw [hd] at hno
    cases hno

omit [DecidableEq α] in
theorem exists_key (h : Holds ∅ ∅ m s kids) (hs : s d = some (.dict es)) {x : α}
    (he : (t, x) ∈ es) :
    ∃ k, m.live k = true ∧ m.parent k = some d ∧ m.data k = some (.key t) := by
  obtain ⟨hl, rows, hashtable, rfl, hd, hr⟩ := holds_dict h (Set.notMem_empty d) hs
  obtain ⟨r, hin, heq⟩ := List.mem_map.mp he
  cases heq
  have hk : r.key ∈ kids d := hr.kids ▸ mem_nodesOf.mpr ⟨r, hin, Or.inl rfl⟩
  exact ⟨r.key, (h.forest.chained d hl).live _ hk, h.forest.parent d hl _ hk, hr.keys r hin⟩

end Keys

section Sample

/-- A key of a dictionary with a table gets another text, and its entry is lost. -/
theorem key_renamed_long : ∃ cs st k m', Run Step (start : Plist ℕ Unit × Values ℕ Unit) cs st ∧
    (∃ ht, st.1.data 0 = some (.dict (some ht))) ∧ st.1.data k = some (.key (name 0)) ∧
    Returns (fun fuel => plistSetKeyVal fuel k [98] st.1) m' ∧
    Returns (fun fuel => plistDictGetItem fuel 0 [98] m') none := by
  obtain ⟨cs, st, hrun, hf⟩ := exists_entered 251
  obtain ⟨kids, hh⟩ := run_represents hrun
  have hin : (name 0, 1) ∈ entries 251 := List.mem_map.mpr ⟨0, by decide, rfl⟩
  obtain ⟨k, hl, hp, hk⟩ := exists_key hh hf.dict hin
  have hv : lookup (entries 251) [98] = none := by decide
  obtain ⟨m', hr, -, -, hfound⟩ := key_renamed hrun hf.dict hl hp hk hv
  obtain ⟨ht, hht⟩ := hf.long (by decide)
  have hne : idx0 (hashBytes (name 0)) ≠ idx0 (hashBytes [98]) := by decide
  have hlost := hfound ht hht
  rw [if_neg hne] at hlost
  exact ⟨cs, st, k, m', hrun, ⟨ht, hht⟩, hk, hr, hlost⟩

end Sample

end UnBoxer.PlistKeys
