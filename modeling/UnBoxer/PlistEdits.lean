import UnBoxer.PlistCalls

namespace UnBoxer.PlistEdits

open UnBoxer.Chains UnBoxer.Fuel UnBoxer.NodeLists UnBoxer.PlistNodes UnBoxer.HashTables
open UnBoxer.Plists UnBoxer.PlistValues UnBoxer.PlistCalls

variable {α β : Type}

def Represents (m : Plist α β) (s : Values α β) : Prop := ∃ kids, Holds ∅ ∅ m s kids

/-- A property list that is part of no other. -/
def Root (s : Values α β) (p : α) : Prop := s p ≠ none ∧ ∀ x v, s x = some v → p ∉ v.children

section Lists

variable {xs ys zs : List α} {x y : α} {n : ℕ}

theorem exists_split (h : xs[n]? = some x) : ∃ ys zs, xs = ys ++ x :: zs ∧ ys.length = n := by
  induction xs generalizing n with
  | nil => cases h
  | cons z xs ih =>
    cases n with
    | zero =>
      cases h
      exact ⟨[], xs, rfl, rfl⟩
    | succ n =>
      rw [List.getElem?_cons_succ] at h
      obtain ⟨ys, zs, rfl, hn⟩ := ih h
      exact ⟨z :: ys, zs, rfl, congrArg (· + 1) hn⟩

theorem set_middle : (ys ++ x :: zs).set ys.length y = ys ++ y :: zs := by
  rw [List.set_append_right _ _ (Nat.le_refl _), Nat.sub_self, List.set_cons_zero]

theorem eraseIdx_middle : (ys ++ x :: zs).eraseIdx ys.length = ys ++ zs := by
  rw [List.eraseIdx_append_of_length_le (Nat.le_refl _), Nat.sub_self, List.eraseIdx_cons_zero]

theorem insertIdx_middle : (ys ++ zs).insertIdx ys.length x = ys ++ x :: zs := by
  induction ys with
  | nil => rfl
  | cons y ys ih => rw [List.cons_append, List.length_cons, List.insertIdx_succ_cons, ih]; rfl

theorem pdata_insert (pa : PtrArray α) (i : ℤ) :
    (ptrArrayInsert pa x i).pdata =
      if i < 0 ∨ (pa.pdata.length : ℤ) ≤ i then pa.pdata ++ [x]
      else pa.pdata.insertIdx i.toNat x := rfl

theorem pdata_remove (pa : PtrArray α) (n : ℕ) :
    (ptrArrayRemove pa n).pdata = pa.pdata.eraseIdx n := rfl

theorem pdata_set (pa : PtrArray α) (n : ℕ) : (ptrArraySet pa x n).pdata = pa.pdata.set n x := rfl

theorem pdata_insert_nat (pa : PtrArray α) (n : ℕ) :
    (ptrArrayInsert pa x n).pdata = pa.pdata.take n ++ x :: pa.pdata.drop n := by
  rw [pdata_insert]
  by_cases hlen : pa.pdata.length ≤ n
  · rw [if_pos (Or.inr (by omega)), List.take_of_length_le hlen, List.drop_of_length_le hlen]
  · have htake : (pa.pdata.take n).length = n := by
      rw [List.length_take]
      omega
    have hins := @insertIdx_middle _ (pa.pdata.take n) (pa.pdata.drop n) x
    rw [htake, List.take_append_drop] at hins
    rw [if_neg (by omega), Int.toNat_natCast, hins]

end Lists

section Roots

variable {m : Plist α β} {s : Values α β} {kids : α → List α} {a item : α}

theorem holds_live (h : Holds ∅ ∅ m s kids) (hi : s item ≠ none) : m.live item = true := by
  have hsh := h.content item (Set.notMem_empty item)
  cases hs : s item with
  | none => exact absurd hs hi
  | some v =>
    rw [hs] at hsh
    exact hsh.live

theorem holds_root (h : Holds ∅ ∅ m s kids) (hi : Root s item) : m.parent item = none := by
  cases hp : m.parent item with
  | none => rfl
  | some p =>
    obtain ⟨-, hc⟩ := h.rooted item p (Set.notMem_empty item) (holds_live h hi.1) hp
    obtain ⟨v, hv, hcv | ⟨t, ht⟩⟩ := (h.content p (Set.notMem_empty p)).of_kids hc
    · exact absurd hcv (hi.2 p v hv)
    · exact absurd ((h.content item (Set.notMem_empty item)).not_key ht) hi.1

theorem holds_not_below (h : Holds ∅ ∅ m s kids) (ha : s a ≠ none) (hu : ¬ Under s item a) :
    ¬ Below kids item a := fun hb =>
  hu (h.under_of_below (fun x hx => absurd hx (Set.notMem_empty x)) hb ha)

end Roots

variable [DecidableEq α]

section Arrays

variable {m : Plist α β} {s : Values α β} {kids : α → List α} {a item : α} {xs : List α} {n : ℕ}
  {hashtable : Option (PtrArray α)}

theorem data_setData_self {d : Option (Data α β)} : (m.setData a d).data a = d :=
  Function.update_self ..

theorem setData_self {d : Option (Data α β)} (h : m.data a = d) : m.setData a d = m := by
  rw [Memory.setData, ← h, Function.update_eq_self]

omit [DecidableEq α] in
theorem holds_open (h : Holds ∅ ∅ m s kids) : Holds {a} ∅ m s kids :=
  h.mono (Set.empty_subset {a}) (Set.Subset.refl ∅)

theorem array_done (ht : Option (PtrArray α)) (h : Holds {a} ∅ m s kids) (ha : m.live a = true)
    (hd : m.data a = some (.array hashtable)) (ht' : ∀ pa, ht = some pa → pa.pdata = kids a)
    (hv : ∀ c ∈ kids a, s c ≠ none) :
    Represents (m.setData a (some (.array ht)))
      (Function.update s a (some (.array (kids a)))) := by
  have hk : ∀ t, m.data a ≠ some (.key t) := by
    intro t hk
    rw [hd] at hk
    cases hk
  refine ⟨kids, (h.setData hk).close (.array ha ?_ ht') hv⟩
  rw [data_setData, Function.update_self]

/-- No nodes have come or gone, and a long array has its array by index. -/
structure Indexed (m m' : Plist α β) (a : α) (n : ℕ) : Prop where
  live : m'.live = m.live
  long : 100 < n → ∃ pa, m'.data a = some (.array (some pa))

theorem plistArrayPostInsert_spec (i : ℤ) (h : Holds {a} ∅ m s kids) (ha : m.live a = true)
    (hd : m.data a = some (.array hashtable))
    (hp : ∀ pa, hashtable = some pa → (ptrArrayInsert pa item i).pdata = kids a)
    (hv : ∀ c ∈ kids a, s c ≠ none) :
    ∃ m', Returns (fun fuel => plistArrayPostInsert fuel a item i m) m' ∧
      Represents m' (Function.update s a (some (.array (kids a)))) ∧
      Indexed m m' a (kids a).length := by
  cases hashtable with
  | some pa =>
    refine ⟨_, returns_of_eq fun fuel => ?_,
      array_done (some (ptrArrayInsert pa item i)) h ha hd ?_ hv,
      ⟨rfl, fun _ => ⟨_, data_setData_self⟩⟩⟩
    · rw [plistArrayPostInsert, hd]
    · rintro _ ⟨⟩
      exact hp pa rfl
  | none =>
    by_cases hc : 100 < m.count a
    · have hch := h.forest.chained a ha
      obtain ⟨pa, hr, hpa⟩ := addAll_spec (ptrArrayNew 128 (by decide)) hch.linked hch.live
      refine ⟨_, hr.after (returns_of_eq fun _ => rfl) fun fuel hadd => ?_,
        array_done (some pa) h ha hd ?_ hv, ⟨rfl, fun _ => ⟨pa, data_setData_self⟩⟩⟩
      · rw [plistArrayPostInsert, hd]
        simp only [if_pos hc, nodeFirstChild_spec h.forest ha, hadd, Option.bind_eq_bind,
          Option.bind_some]
      · rintro _ ⟨⟩
        exact hpa
    · have hdone := array_done none h ha hd (fun pa hpa => by cases hpa) hv
      rw [setData_self hd] at hdone
      refine ⟨m, returns_of_eq fun fuel => ?_, hdone, ⟨rfl, fun hlen => ?_⟩⟩
      · rw [plistArrayPostInsert, hd]
        simp only [if_neg hc]
      · rw [h.forest.count a ha] at hc
        exact absurd hlen hc

theorem plistArrayAppendItem_spec (h : Holds ∅ ∅ m s kids) (hs : s a = some (.array xs))
    (hi : Root s item) (hu : ¬ Under s item a) :
    ∃ m', Returns (fun fuel => plistArrayAppendItem fuel a item m) m' ∧
      Represents m' (Function.update s a (some (.array (xs ++ [item])))) ∧
      Indexed m m' a (xs.length + 1) := by
  obtain ⟨ha, rfl, hashtable, hd, hp⟩ := holds_array h (Set.notMem_empty a) hs
  have hlive := holds_live h hi.1
  have hb := holds_not_below h (hs ▸ Option.some_ne_none _) hu
  have h₁ := (holds_open h).adopt ha hlive (holds_root h hi) hb (List.append_nil _).symm
  have hk₁ : Function.update kids a (kids a ++ [item]) a = kids a ++ [item] :=
    Function.update_self ..
  obtain ⟨m', hr, hrep, hidx⟩ := plistArrayPostInsert_spec (-1) h₁ ha hd
    (fun pa hpa => by
      rw [hk₁, pdata_insert, hp pa hpa, if_pos (Or.inl (by omega))])
    (fun c hc => by
      rw [hk₁, List.mem_append, List.mem_singleton] at hc
      obtain hc | rfl := hc
      · exact h.exist a (Set.notMem_empty a) _ hs c hc
      · exact hi.1)
  rw [hk₁] at hrep hidx
  rw [List.length_append, List.length_singleton] at hidx
  refine ⟨m', hr.congr fun fuel => ?_, hrep, hidx.live, hidx.long⟩
  rw [plistArrayAppendItem, deref_live ha]
  simp only [Option.bind_eq_bind, Option.bind_some, hd, nodeAttach_spec h.forest ha hlive]

theorem plistArrayInsertItem_spec (h : Holds ∅ ∅ m s kids) (hs : s a = some (.array xs))
    (hi : Root s item) (hu : ¬ Under s item a) (hn : n < intMax) :
    ∃ m', Returns (fun fuel => plistArrayInsertItem fuel a item n m) m' ∧
      Represents m'
        (Function.update s a (some (.array (xs.take n ++ item :: xs.drop n)))) := by
  obtain ⟨ha, rfl, hashtable, hd, hp⟩ := holds_array h (Set.notMem_empty a) hs
  have hlive := holds_live h hi.1
  have hroot := holds_root h hi
  have hb := holds_not_below h (hs ▸ Option.some_ne_none _) hu
  have hsplit : kids a = (kids a).take n ++ (kids a).drop n := (List.take_append_drop n _).symm
  have h₁ := (holds_open h).adopt ha hlive hroot hb hsplit
  have hk₁ : Function.update kids a ((kids a).take n ++ item :: (kids a).drop n) a =
      (kids a).take n ++ item :: (kids a).drop n := Function.update_self ..
  obtain ⟨m', hr, hrep, -⟩ := plistArrayPostInsert_spec n h₁ ha hd
    (fun pa hpa => by
      rw [hk₁, pdata_insert_nat, hp pa hpa])
    (fun c hc => by
      rw [hk₁, List.mem_append, List.mem_cons] at hc
      obtain hc | rfl | hc := hc
      · exact h.exist a (Set.notMem_empty a) _ hs c (List.mem_of_mem_take hc)
      · exact hi.1
      · exact h.exist a (Set.notMem_empty a) _ hs c (List.mem_of_mem_drop hc))
  rw [hk₁] at hrep
  refine ⟨m', hr.congr fun fuel => ?_, hrep⟩
  have hins := nodeInsert_spec (i := n) h.forest ha hlive hsplit (h.root hroot a ha)
    List.length_take
  rw [plistArrayInsertItem, deref_live ha]
  simp only [Option.bind_eq_bind, Option.bind_some, hd, if_pos hn, hins]

omit [DecidableEq α] in
theorem root_not_below {X Y : Set α} {c : α} (h : Holds X Y m s kids) (hp : m.parent item = none)
    (hc : item ≠ c) : ¬ Below kids c item := by
  intro hb
  obtain hic | ⟨y, -, hiy⟩ := (Relation.ReflTransGen.cases_tail_iff _ _ _).mp hb
  · exact hc hic
  · cases hy : m.live y with
    | false =>
      rw [h.dead y hy] at hiy
      cases hiy
    | true => exact h.root hp y hy hiy

omit [DecidableEq α] in
theorem freed_root {old : α} {m₁ : Plist α β} {kids₁ : α → List α} (h : Holds ∅ ∅ m s kids)
    (ha : s a ≠ none) (hi : Root s item) (hu : ¬ Under s item a) (hold : old ∈ kids a)
    (hf : Freed m s kids old m₁ kids₁) :
    m₁.live item = true ∧ m₁.parent item = none ∧ ¬ Below kids₁ item a := by
  have hroot := holds_root h hi
  have hne : item ≠ old := fun hio => h.root hroot a (holds_live h ha) (hio ▸ hold)
  have hl := hf.survive item (holds_live h hi.1) (root_not_below h hroot hne)
  exact ⟨hl, (hf.same item hl).2.1.trans hroot,
    fun hb => holds_not_below h ha hu (below_mono hf.sub hb)⟩

theorem holds_replace {ys zs : List α} {old : α} (h : Holds ∅ ∅ m s kids) (ha : s a ≠ none)
    (hk : kids a = ys ++ old :: zs) (hi : Root s item) (hu : ¬ Under s item a) :
    ∃ m₁ m₂ kids₂, Returns (fun fuel => plistFreeNode fuel old m) (some ys.length, m₁) ∧
      nodeInsert a ys.length item m₁ = some m₂ ∧ Holds {a} ∅ m₂ (discarded s old) kids₂ ∧
      kids₂ a = ys ++ item :: zs ∧ m₂.live a = true ∧
      ∀ x, m₂.live x = true → m₂.data x = m.data x ∧ discarded s old x = s x := by
  have hold : old ∈ kids a := hk ▸ List.mem_append_right ys List.mem_cons_self
  obtain ⟨m₁, kids₁, hr, h₁, hk₁, ha₁, hf⟩ := holds_free_child (holds_open h) (holds_live h ha) hk
  obtain ⟨hl₁, hp₁, hb₁⟩ := freed_root h ha hi hu hold hf
  have hins : nodeInsert a ys.length item m₁ = some (adopt m₁ a ys item zs) := by
    refine nodeInsert_spec h₁.forest ha₁ hl₁ hk₁ (h₁.root hp₁ a ha₁) ?_
    rw [hk₁, List.length_append]
    omega
  refine ⟨m₁, _, _, hr, hins, h₁.adopt ha₁ hl₁ hp₁ hb₁ hk₁, Function.update_self .., ha₁,
    fun x hx => ?_⟩
  obtain ⟨hd, -, hs⟩ := hf.same x hx
  exact ⟨hd, hs⟩

theorem plistArraySetItem_spec {ys zs : List α} {old : α} (h : Holds ∅ ∅ m s kids)
    (hs : s a = some (.array (ys ++ old :: zs))) (hi : Root s item) (hu : ¬ Under s item a)
    (hn : ys.length < intMax) :
    ∃ m', Returns (fun fuel => plistArraySetItem fuel a item ys.length m) m' ∧
      Represents m' (Function.update (discarded s old) a (some (.array (ys ++ item :: zs)))) := by
  obtain ⟨ha, hk, hashtable, hd, hp⟩ := holds_array h (Set.notMem_empty a) hs
  obtain ⟨m₁, m₂, kids₂, hr, hins, h₂, hk₂, ha₂, hsame⟩ :=
    holds_replace h (hs ▸ Option.some_ne_none _) hk hi hu
  have hd₂ : m₂.data a = some (.array hashtable) := (hsame a ha₂).1.trans hd
  have hdone := array_done (hashtable.map fun pa => ptrArraySet pa item ys.length) h₂ ha₂ hd₂
    (fun pa hpa => by
      obtain ⟨pa₀, hpa₀, rfl⟩ := Option.map_eq_some_iff.mp hpa
      rw [hk₂, pdata_set, hp pa₀ hpa₀, set_middle])
    (fun c hc => by
      rw [(hsame c ((h₂.forest.chained a ha₂).live c hc)).2]
      rw [hk₂, List.mem_append, List.mem_cons] at hc
      obtain hc | rfl | hc := hc
      · exact h.exist a (Set.notMem_empty a) _ hs c (List.mem_append_left _ hc)
      · exact hi.1
      · exact h.exist a (Set.notMem_empty a) _ hs c
          (List.mem_append_right ys (List.mem_cons_of_mem old hc)))
  rw [hk₂] at hdone
  have hget : plistArrayGetItem a ys.length m = some (some old) := by
    rw [plistArrayGetItem_spec h (Set.notMem_empty a) hs hn, List.getElem?_append_right le_rfl,
      Nat.sub_self, List.getElem?_cons_zero]
  refine ⟨_, hr.after (returns_of_eq fun _ => rfl) fun fuel hfree => ?_, hdone⟩
  rw [plistArraySetItem, deref_live ha]
  simp only [Option.bind_eq_bind, Option.bind_some, hd, if_pos hn, hget, hfree, hins, hd₂]
  cases hashtable with
  | none => rw [Option.map_none, setData_self hd₂]
  | some pa => rfl

theorem uncache_eq (hd : m.data a = some (.array hashtable)) :
    uncache a n m = m.setData a (some (.array (hashtable.map fun pa => ptrArrayRemove pa n))) := by
  cases hashtable with
  | none => rw [uncache, hd, Option.map_none, setData_self hd]
  | some pa => rw [uncache, hd]; rfl

theorem plistFree_uncache {ys zs : List α} {old : α} (h : Holds ∅ ∅ m s kids)
    (hs : s a = some (.array (ys ++ old :: zs))) :
    ∃ m', Returns (fun fuel => plistFree fuel old (uncache a ys.length m)) m' ∧
      Represents m' (Function.update (discarded s old) a (some (.array (ys ++ zs)))) := by
  obtain ⟨ha, hk, hashtable, hd, hp⟩ := holds_array h (Set.notMem_empty a) hs
  have hkey : ∀ t, m.data a ≠ some (.key t) := fun t ht => by
    rw [hd] at ht
    cases ht
  rw [uncache_eq hd]
  have h₀ := (holds_open (a := a) h).setData
    (d := some (.array (hashtable.map fun pa => ptrArrayRemove pa ys.length))) hkey
  obtain ⟨m₁, kids₁, hr, h₁, hk₁, ha₁, hf⟩ := holds_free_child h₀ ha hk
  have hd₁ := (hf.same a ha₁).1
  rw [data_setData, Function.update_self] at hd₁
  have hdone := array_done _ h₁ ha₁ hd₁
    (fun pa hpa => by
      obtain ⟨pa₀, hpa₀, rfl⟩ := Option.map_eq_some_iff.mp hpa
      rw [hk₁, pdata_remove, hp pa₀ hpa₀, eraseIdx_middle])
    (fun c hc => by
      rw [(hf.same c ((h₁.forest.chained a ha₁).live c hc)).2.2]
      rw [hk₁, List.mem_append] at hc
      refine h.exist a (Set.notMem_empty a) _ hs c (List.mem_append.mpr ?_)
      exact hc.imp_right (List.mem_cons_of_mem old))
  rw [hk₁, setData_self hd₁] at hdone
  exact ⟨m₁, plistFree_returns hr, hdone⟩

theorem plistArrayRemoveItem_spec {ys zs : List α} {old : α} (h : Holds ∅ ∅ m s kids)
    (hs : s a = some (.array (ys ++ old :: zs))) (hn : ys.length < intMax) :
    ∃ m', Returns (fun fuel => plistArrayRemoveItem fuel a ys.length m) m' ∧
      Represents m' (Function.update (discarded s old) a (some (.array (ys ++ zs)))) := by
  obtain ⟨ha, -, hashtable, hd, -⟩ := holds_array h (Set.notMem_empty a) hs
  obtain ⟨m', hr, hrep⟩ := plistFree_uncache h hs
  have hget : plistArrayGetItem a ys.length m = some (some old) := by
    rw [plistArrayGetItem_spec h (Set.notMem_empty a) hs hn, List.getElem?_append_right le_rfl,
      Nat.sub_self, List.getElem?_cons_zero]
  refine ⟨m', hr.congr fun fuel => ?_, hrep⟩
  rw [plistArrayRemoveItem, deref_live ha]
  simp only [Option.bind_eq_bind, Option.bind_some, hd, if_pos hn, hget]

theorem plistArrayItemRemove_spec {ys zs : List α} {old : α} (h : Holds ∅ ∅ m s kids)
    (hs : s a = some (.array (ys ++ old :: zs))) :
    ∃ m', Returns (fun fuel => plistArrayItemRemove fuel old m) m' ∧
      Represents m' (Function.update (discarded s old) a (some (.array (ys ++ zs)))) := by
  obtain ⟨ha, hk, hashtable, hd, -⟩ := holds_array h (Set.notMem_empty a) hs
  have hold : old ∈ kids a := hk ▸ List.mem_append_right ys List.mem_cons_self
  obtain ⟨m', hr, hrep⟩ := plistFree_uncache h hs
  have hpos := nodeChildPosition_spec h.forest ha hk
  refine ⟨m', hpos.after hr fun fuel hp => ?_, hrep⟩
  rw [plistArrayItemRemove, deref_live ((h.forest.chained a ha).live old hold)]
  simp only [Option.bind_eq_bind, Option.bind_some, h.forest.parent a ha old hold, deref_live ha,
    hd, hp]

end Arrays

section Dicts

variable {m : Plist α β} {s : Values α β} {kids : α → List α} {d item p : α}
  {rows : List (Row α)} {es : List (CString × α)} {key : CString}
  {hashtable : Option (HashTable (KeyRef α) α)}

theorem dict_done (ht : Option (HashTable (KeyRef α) α)) (h : Holds {d} ∅ m s kids)
    (hl : m.live d = true) (hd : m.data d = some (.dict hashtable))
    (hr : Rows m (kids d) rows ht) (hv : ∀ r ∈ rows, s r.item ≠ none) :
    Represents (m.setData d (some (.dict ht)))
      (Function.update s d (some (.dict (entriesOf rows)))) := by
  have hk : ∀ t, m.data d ≠ some (.key t) := by
    intro t hk
    rw [hd] at hk
    cases hk
  refine ⟨kids, (h.setData hk).close (.dict hl ?_ (hr.congr fun k _ t ht => ?_)) fun c hc => ?_⟩
  · rw [data_setData, Function.update_self]
  · have hkd : k ≠ d := fun hkd => hk t (hkd ▸ ht)
    rw [data_setData, Function.update_of_ne hkd, ht]
  · obtain ⟨e, he, rfl⟩ := List.mem_map.mp hc
    obtain ⟨r, hr', rfl⟩ := List.mem_map.mp he
    exact hv r hr'

/-- No nodes have come or gone, and a long dictionary has its table. -/
structure Tabled (m m' : Plist α β) (d : α) (n : ℕ) : Prop where
  live : m'.live = m.live
  long : 500 < n → ∃ ht, m'.data d = some (.dict (some ht))

theorem plistDictPostInsert_spec (h : Holds {d} ∅ m s kids) (hl : m.live d = true)
    (hd : m.data d = some (.dict hashtable)) (hr : Rows m (kids d) rows none)
    (hi : ∀ ht, hashtable = some ht → Indexes (dictKeyHash m)
      (hashTableInsert (dictKeyHash m) (dictKeyCompare m) ht (.node p) item) (tableOf rows))
    (hv : ∀ r ∈ rows, s r.item ≠ none) :
    ∃ m', Returns (fun fuel => plistDictPostInsert fuel d p item m) m' ∧
      Represents m' (Function.update s d (some (.dict (entriesOf rows)))) ∧
      Tabled m m' d (kids d).length := by
  cases hashtable with
  | some ht =>
    refine ⟨_, returns_of_eq fun fuel => ?_, dict_done
      (some (hashTableInsert (dictKeyHash m) (dictKeyCompare m) ht (.node p) item)) h hl hd
      ⟨hr.kids, hr.keys, hr.distinct, ?_⟩ hv, ⟨rfl, fun _ => ⟨_, data_setData_self⟩⟩⟩
    · rw [plistDictPostInsert, hd]
    · rintro _ ⟨⟩
      exact hi ht rfl
  | none =>
    by_cases hc : 500 < m.count d
    · have hch := h.forest.chained d hl
      have hf := nodeFirstChild_spec h.forest hl
      rw [hr.kids] at hch hf
      obtain ⟨ht, hret, hidx⟩ := insertAll_spec [] hch.linked hch.live hr.keys hr.distinct
        indexes_new
      refine ⟨_, hret.after (returns_of_eq fun _ => rfl) fun fuel hall => ?_,
        dict_done (some ht) h hl hd ⟨hr.kids, hr.keys, hr.distinct, ?_⟩ hv,
        ⟨rfl, fun _ => ⟨ht, data_setData_self⟩⟩⟩
      · rw [plistDictPostInsert, hd]
        simp only [if_pos hc, hf, hall, Option.bind_eq_bind, Option.bind_some]
      · rintro _ ⟨⟩
        exact hidx
    · have hdone := dict_done none h hl hd hr hv
      rw [setData_self hd] at hdone
      refine ⟨m, returns_of_eq fun fuel => ?_, hdone, ⟨rfl, fun hlen => ?_⟩⟩
      · rw [plistDictPostInsert, hd]
        simp only [if_neg hc]
      · rw [h.forest.count d hl] at hc
        exact absurd hlen hc

omit [DecidableEq α] in
theorem rows_new (h : lookup (entriesOf rows) key = none) : ∀ r ∈ rows, r.text ≠ key := by
  obtain ⟨as, r, bs, rfl, hk, has⟩ | hn := rows_cases rows key
  · rw [lookup_some has hk] at h
    cases h
  · exact hn

theorem below_update {l : List α} {x : α} (h : Below (Function.update kids d l) x d) :
    Below kids x d := by
  induction h using Relation.ReflTransGen.head_induction_on with
  | refl => exact .refl
  | @head x c hc _ ih =>
    by_cases hx : x = d
    · rw [hx]
      exact .refl
    · rw [Function.update_of_ne hx] at hc
      exact ih.head hc

theorem newKey_live {key : CString} : (plistNewKey p key m).live = Function.update m.live p true := rfl

theorem newKey_data {key : CString} :
    (plistNewKey p key m).data = Function.update m.data p (some (.key key)) :=
  Function.update_idem ..

theorem holds_newKey (h : Holds ∅ ∅ m s kids) (hp : m.live p = false) (key : CString) :
    Holds ∅ ∅ (plistNewKey p key m) s kids := by
  have hself := @cell_new_self α β _ m p (.key key)
  have hnew := h.new (d := .key key) (o := none) hp
    (.key (congrArg Cell.live hself) (congrArg Cell.data hself) rfl) (fun v hv => by cases hv)
  rw [← h.fresh_none hp, Function.update_eq_self] at hnew
  exact hnew

theorem holds_attach (h : Holds ∅ ∅ m s kids) (hd : s d ≠ none) (hi : Root s item)
    (hu : ¬ Under s item d) (hp : m.live p = false) (key : CString) :
    ∃ m₂ m₃ kids₃, nodeAttach d p (plistNewKey p key m) = some m₂ ∧
      nodeAttach d item m₂ = some m₃ ∧ Holds {d} ∅ m₃ s kids₃ ∧ kids₃ d = kids d ++ [p, item] ∧
      m₃.live = Function.update m.live p true ∧
      m₃.data = Function.update m.data p (some (.key key)) := by
  have hl := holds_live h hd
  have hlive := holds_live h hi.1
  have hdp : d ≠ p := fun hdp => by rw [hdp, hp] at hl; cases hl
  have hip : item ≠ p := fun hip => by rw [hip, hp] at hlive; cases hlive
  have h₁ := holds_newKey h hp key
  have hl₁ : (plistNewKey p key m).live d = true := by
    rw [newKey_live, Function.update_of_ne hdp, hl]
  have hlp₁ : (plistNewKey p key m).live p = true := by
    rw [newKey_live, Function.update_self]
  have hli₁ : (plistNewKey p key m).live item = true := by
    rw [newKey_live, Function.update_of_ne hip, hlive]
  have hbp : ¬ Below kids p d := by
    intro hbp
    obtain hdp' | ⟨c, hc, -⟩ := below_iff.mp hbp
    · exact hdp hdp'
    · rw [h.dead p hp] at hc
      cases hc
  have h₂ := (holds_open h₁).adopt hl₁ hlp₁
    (congrArg Cell.parent (@cell_new_self α β _ m p (.key key))) hbp (List.append_nil _).symm
  have hk₂ : Function.update kids d (kids d ++ [p]) d = kids d ++ [p] := Function.update_self ..
  have hpi₁ : (plistNewKey p key m).parent item = m.parent item :=
    congrArg Cell.parent (@cell_new α β _ m p (.key key) item hip)
  have hpi₂ : (adopt (plistNewKey p key m) d (kids d) p []).parent item = none := by
    rw [adopt_parent, Function.update_of_ne hip, hpi₁, holds_root h hi]
  have h₃ := h₂.adopt hl₁ hli₁ hpi₂
    (fun hb => holds_not_below h hd hu (below_update hb)) (hk₂.trans (List.append_nil _).symm)
  have hatt := nodeAttach_spec h₂.forest hl₁ hli₁
  rw [hk₂] at hatt
  refine ⟨_, _, _, nodeAttach_spec h₁.forest hl₁ hlp₁, hatt, h₃, ?_, rfl, newKey_data⟩
  rw [Function.update_self, List.append_assoc]
  rfl

omit [DecidableEq α] in
theorem rows_append {m' : Plist α β} {ks : List α} (hr : Rows m ks rows hashtable)
    (hold : ∀ r ∈ rows, m'.data r.key = some (.key r.text)) (hp : m'.data p = some (.key key))
    (hn : ∀ r ∈ rows, r.text ≠ key) :
    Rows m' (ks ++ [p, item]) (rows ++ [⟨p, key, item⟩]) none := by
  refine ⟨?_, fun r hr' => ?_, ?_, fun ht hht => by cases hht⟩
  · rw [nodesOf_append, ← hr.kids]
    rfl
  · obtain hr' | hr' := List.mem_append.mp hr'
    · exact hold r hr'
    · rw [List.mem_singleton.mp hr']
      exact hp
  · rw [List.map_append]
    refine List.nodup_append.mpr ⟨hr.distinct, List.nodup_singleton _, fun t ht t' ht' => ?_⟩
    obtain ⟨r, hr', rfl⟩ := List.mem_map.mp ht
    rw [List.map_singleton, List.mem_singleton] at ht'
    rw [ht']
    exact hn r hr'

omit [DecidableEq α] in
theorem rows_exist (h : Holds ∅ ∅ m s kids) (hs : s d = some (.dict (entriesOf rows))) {r : Row α}
    (hr : r ∈ rows) : s r.item ≠ none :=
  h.exist d (Set.notMem_empty d) _ hs r.item
    (List.mem_map.mpr ⟨_, List.mem_map.mpr ⟨r, hr, rfl⟩, rfl⟩)

/-- A key that the dictionary does not have comes behind the others, with its item. -/
theorem plistDictSetItem_new (h : Holds ∅ ∅ m s kids) (hs : s d = some (.dict es))
    (hi : Root s item) (hu : ¬ Under s item d) (hp : m.live p = false)
    (hn : lookup es key = none) :
    ∃ m', Returns (fun fuel => plistDictSetItem fuel d key item p m) m' ∧
      Represents m' (Function.update s d (some (.dict (es ++ [(key, item)])))) ∧
      m'.live = Function.update m.live p true ∧
      (500 < 2 * (es.length + 1) → ∃ ht, m'.data d = some (.dict (some ht))) := by
  have hget := plistDictGetItem_spec h (Set.notMem_empty d) hs key
  rw [hn] at hget
  obtain ⟨hl, rows, hashtable, rfl, hd, hr⟩ := holds_dict h (Set.notMem_empty d) hs
  have hnew := rows_new hn
  have hdp : d ≠ p := fun hdp => by rw [hdp, hp] at hl; cases hl
  obtain ⟨m₂, m₃, kids₃, hatt₁, hatt₂, h₃, hk₃, hl₃, hd₃⟩ :=
    holds_attach h (hs ▸ Option.some_ne_none _) hi hu hp key
  have hkey : m₃.data p = some (.key key) := by
    rw [hd₃, Function.update_self]
  have hold : ∀ r ∈ rows, m₃.data r.key = some (.key r.text) := by
    intro r hr'
    have hrp : r.key ≠ p := fun hrp =>
      h.fresh hp (x := d) (hrp ▸ hr.kids ▸ mem_nodesOf.mpr ⟨r, hr', Or.inl rfl⟩)
    rw [hd₃, Function.update_of_ne hrp, hr.keys r hr']
  have hr₃ : Rows m₃ (kids₃ d) (rows ++ [⟨p, key, item⟩]) none :=
    hk₃ ▸ rows_append hr hold hkey hnew
  have hidx : ∀ ht, hashtable = some ht → Indexes (dictKeyHash m₃)
      (hashTableInsert (dictKeyHash m₃) (dictKeyCompare m₃) ht (.node p) item)
      (tableOf (rows ++ [⟨p, key, item⟩])) := fun ht hht =>
    table_append (r := ⟨p, key, item⟩) (table_congr (hr.table ht hht) hr.keys hold) hold hkey hnew
  have hv : ∀ r ∈ rows ++ [⟨p, key, item⟩], s r.item ≠ none := by
    intro r hr'
    obtain hr' | hr' := List.mem_append.mp hr'
    · exact rows_exist h hs hr'
    · obtain rfl := List.mem_singleton.mp hr'
      exact hi.1
  have hld : m₃.live d = true := by rw [hl₃, Function.update_of_ne hdp, hl]
  have hdd : m₃.data d = some (.dict hashtable) := by rw [hd₃, Function.update_of_ne hdp, hd]
  obtain ⟨m', hret, hrep, htab⟩ := plistDictPostInsert_spec h₃ hld hdd hr₃ hidx hv
  rw [entriesOf, List.map_append] at hrep
  refine ⟨m', hget.after hret fun fuel hf => ?_, hrep, htab.live.trans hl₃, fun hlen => htab.long ?_⟩
  · rw [plistDictSetItem, deref_live hl]
    simp only [Option.bind_eq_bind, Option.bind_some, hd, hf, hatt₁, hatt₂]
  · rw [hr₃.kids, length_nodesOf, List.length_append]
    rw [entriesOf, List.length_map] at hlen
    exact hlen

def assign : List (CString × α) → CString → α → List (CString × α)
  | [], key, item => [(key, item)]
  | e :: es, key, item => if e.1 = key then (key, item) :: es else e :: assign es key item

omit [DecidableEq α] in
theorem assign_none (h : lookup es key = none) : assign es key item = es ++ [(key, item)] := by
  induction es with
  | nil => rfl
  | cons e es ih =>
    rw [lookup, Option.map_eq_none_iff, List.find?_eq_none] at h
    have he : ¬ e.1 = key := by simpa using h e List.mem_cons_self
    rw [assign, if_neg he, ih, List.cons_append]
    rw [lookup, Option.map_eq_none_iff, List.find?_eq_none]
    exact fun e' he' => h e' (List.mem_cons_of_mem e he')

omit [DecidableEq α] in
theorem assign_rows {as bs : List (Row α)} {r : Row α} (has : ∀ r' ∈ as, r'.text ≠ key)
    (hk : r.text = key) :
    assign (entriesOf (as ++ r :: bs)) key item =
      entriesOf (as ++ { r with item := item } :: bs) := by
  induction as with
  | nil =>
    refine (if_pos hk).trans ?_
    rw [← hk]
    rfl
  | cons a as ih =>
    refine (if_neg (has a List.mem_cons_self)).trans ?_
    exact congrArg _ (ih fun r' hr' => has r' (List.mem_cons_of_mem a hr'))

omit [DecidableEq α] in
theorem rows_old {old : α} (hr : Rows m (kids d) rows hashtable)
    (hn : lookup (entriesOf rows) key = some old) :
    ∃ as r bs, rows = as ++ r :: bs ∧ r.text = key ∧ (∀ r' ∈ as, r'.text ≠ key) ∧ r.item = old ∧
      kids d = nodesOf as ++ r.key :: r.item :: nodesOf bs := by
  obtain ⟨as, r, bs, rfl, hrk, has⟩ | hno := rows_cases rows key
  · rw [lookup_some has hrk] at hn
    refine ⟨as, r, bs, rfl, hrk, has, Option.some.inj hn, ?_⟩
    rw [hr.kids, nodesOf_append, nodesOf_cons]
  · rw [lookup_none hno] at hn
    cases hn

omit [DecidableEq α] in
theorem prev_child {X Y : Set α} {ys zs : List α} {k c : α} (h : Holds X Y m s kids)
    (hl : m.live d = true) (hk : kids d = ys ++ k :: c :: zs) :
    nodePrevSibling m (some c) = some (some k) := by
  have hch := h.forest.chained d hl
  have hlink := hch.linked
  rw [hk, ← List.singleton_append (x := k), ← List.append_assoc] at hlink
  rw [nodePrevSibling_live (hch.live c (hk ▸ by simp)), hlink.around.1, List.getLast?_concat]
  rfl

omit [DecidableEq α] in
theorem rows_replace {m' : Plist α β} {ks : List α} {as bs : List (Row α)} {r : Row α}
    (hr : Rows m ks (as ++ r :: bs) hashtable)
    (hkey : ∀ r' ∈ as ++ r :: bs, m'.data r'.key = some (.key r'.text)) :
    Rows m' (nodesOf as ++ [r.key] ++ item :: nodesOf bs) (as ++ { r with item := item } :: bs)
      none := by
  refine ⟨?_, fun r' hr' => ?_, ?_, fun ht hht => by cases hht⟩
  · rw [nodesOf_append, nodesOf_cons, List.append_assoc]
    rfl
  · obtain hr' | hr' := List.mem_append.mp hr'
    · exact hkey r' (List.mem_append_left _ hr')
    · obtain rfl | hr' := List.mem_cons.mp hr'
      · exact hkey r (List.mem_append_right as List.mem_cons_self)
      · exact hkey r' (List.mem_append_right as (List.mem_cons_of_mem r hr'))
  · have hd := hr.distinct
    rw [List.map_append, List.map_cons] at hd ⊢
    exact hd

theorem plistDictSetItem_old {old : α} (h : Holds ∅ ∅ m s kids) (hs : s d = some (.dict es))
    (hi : Root s item) (hu : ¬ Under s item d) (hn : lookup es key = some old) :
    ∃ m', Returns (fun fuel => plistDictSetItem fuel d key item p m) m' ∧
      Represents m' (Function.update (discarded s old) d (some (.dict (assign es key item)))) := by
  have hget := plistDictGetItem_spec h (Set.notMem_empty d) hs key
  rw [hn] at hget
  obtain ⟨hl, rows, hashtable, rfl, hd, hr⟩ := holds_dict h (Set.notMem_empty d) hs
  obtain ⟨as, r, bs, rfl, hrk, has, rfl, hk⟩ := rows_old hr hn
  have hk' : kids d = (nodesOf as ++ [r.key]) ++ r.item :: nodesOf bs := by
    rw [hk, List.append_assoc]
    rfl
  obtain ⟨m₁, m₂, kids₂, hfree, hins, h₂, hk₂, hl₂, hsame⟩ :=
    holds_replace h (hs ▸ Option.some_ne_none _) hk' hi hu
  have hch := h₂.forest.chained d hl₂
  have hkl : ∀ r' ∈ as ++ r :: bs, m₂.live r'.key = true := by
    refine fun r' hr' => hch.live _ (hk₂ ▸ ?_)
    rw [List.mem_append, List.mem_append, List.mem_singleton, List.mem_cons, mem_nodesOf,
      mem_nodesOf]
    obtain hr' | hr' := List.mem_append.mp hr'
    · exact Or.inl (Or.inl ⟨r', hr', Or.inl rfl⟩)
    · obtain rfl | hr' := List.mem_cons.mp hr'
      · exact Or.inl (Or.inr rfl)
      · exact Or.inr (Or.inr ⟨r', hr', Or.inl rfl⟩)
  have hkey : ∀ r' ∈ as ++ r :: bs, m₂.data r'.key = some (.key r'.text) := fun r' hr' =>
    (hsame _ (hkl r' hr')).1.trans (hr.keys r' hr')
  have hr₂ : Rows m₂ (kids₂ d) (as ++ { r with item := item } :: bs) none :=
    hk₂ ▸ rows_replace hr hkey
  have hidx : ∀ ht, hashtable = some ht → Indexes (dictKeyHash m₂)
      (hashTableInsert (dictKeyHash m₂) (dictKeyCompare m₂) ht (.node r.key) item)
      (tableOf (as ++ { r with item := item } :: bs)) := fun ht hht =>
    table_replace (table_congr (hr.table ht hht) hr.keys hkey) hkey hr.distinct
  have hv : ∀ r' ∈ as ++ { r with item := item } :: bs, discarded s r.item r'.item ≠ none := by
    intro r' hr'
    have hin : r'.item ∈ kids₂ d := by
      rw [hr₂.kids]
      exact mem_nodesOf.mpr ⟨r', hr', Or.inr rfl⟩
    rw [(hsame _ (hch.live _ hin)).2]
    obtain hr' | hr' := List.mem_append.mp hr'
    · exact rows_exist h hs (List.mem_append_left _ hr')
    · obtain rfl | hr' := List.mem_cons.mp hr'
      · exact hi.1
      · exact rows_exist h hs (List.mem_append_right as (List.mem_cons_of_mem r hr'))
  obtain ⟨m', hret, hrep, -⟩ :=
    plistDictPostInsert_spec h₂ hl₂ ((hsame d hl₂).1.trans hd) hr₂ hidx hv
  rw [← assign_rows has hrk] at hrep
  refine ⟨m', hget.after₂ hfree hret fun fuel hg hfr => ?_, hrep⟩
  have hprev : nodePrevSibling m₂ (some item) = some (some r.key) :=
    prev_child h₂ hl₂ (by rw [hk₂, List.append_assoc]; rfl)
  have hdk : m₂.deref (some r.key) = some r.key :=
    deref_live (hkl r (List.mem_append_right as List.mem_cons_self))
  rw [plistDictSetItem, deref_live hl]
  simp only [Option.bind_eq_bind, Option.bind_some, hd, hg, hfr, hins, hprev, hdk]

def erase (es : List (CString × α)) (key : CString) : List (CString × α) :=
  es.eraseP fun e => e.1 = key

omit [DecidableEq α] in
theorem erase_rows {as bs : List (Row α)} {r : Row α} (has : ∀ r' ∈ as, r'.text ≠ key)
    (hk : r.text = key) : erase (entriesOf (as ++ r :: bs)) key = entriesOf (as ++ bs) := by
  rw [erase, entriesOf, List.map_append, List.map_cons, List.eraseP_append_right,
    List.eraseP_cons_of_pos, entriesOf, List.map_append]
  · simpa using hk
  · intro e he
    obtain ⟨r', hr', rfl⟩ := List.mem_map.mp he
    simpa using has r' hr'

theorem untable_eq {k : α} (hd : m.data d = some (.dict hashtable)) :
    untable d k m = m.setData d (some (.dict (hashtable.map fun ht =>
      hashTableRemove (dictKeyHash m) (dictKeyCompare m) ht (.node k)))) := by
  cases hashtable with
  | none => rw [untable, hd, Option.map_none, setData_self hd]
  | some ht => rw [untable, hd]; rfl

theorem holds_free_row {as bs : List (Row α)} {r : Row α} (h : Holds ∅ ∅ m s kids)
    (hl : m.live d = true) (hd : m.data d = some (.dict hashtable)) (hr : r.key ≠ d)
    (hkey : m.data r.key = some (.key r.text))
    (hk : kids d = nodesOf as ++ r.key :: r.item :: nodesOf bs) :
    ∃ m₁ m₂ kids₂, Returns (fun fuel => plistFree fuel r.key (untable d r.key m)) m₁ ∧
      Returns (fun fuel => plistFree fuel r.item m₁) m₂ ∧
      Holds {d} ∅ m₂ (discarded s r.item) kids₂ ∧ kids₂ d = nodesOf (as ++ bs) ∧
      m₂.live d = true ∧ m₂.data d = some (.dict (hashtable.map fun ht =>
        hashTableRemove (dictKeyHash m) (dictKeyCompare m) ht (.node r.key))) ∧
      ∀ x, m₂.live x = true → (x ≠ d → m₂.data x = m.data x) ∧ discarded s r.item x = s x := by
  have hdk : ∀ t, m.data d ≠ some (.key t) := fun t ht => by
    rw [hd] at ht
    cases ht
  have hsk : s r.key = none := (h.content _ (Set.notMem_empty _)).not_key hkey
  have h₀ := (holds_open (a := d) h).setData (d := some (.dict (hashtable.map fun ht =>
    hashTableRemove (dictKeyHash m) (dictKeyCompare m) ht (.node r.key)))) hdk
  rw [← untable_eq hd] at h₀
  have hl₀ : (untable d r.key m).live = m.live := by rw [untable_eq hd]; rfl
  obtain ⟨m₁, kids₁, hfree₁, h₁, hk₁, hl₁, hf₁⟩ := holds_free_child h₀ (hl₀ ▸ hl) hk
  rw [discarded_none hsk] at h₁
  obtain ⟨m₂, kids₂, hfree₂, h₂, hk₂, hl₂, hf₂⟩ := holds_free_child h₁ hl₁ hk₁
  refine ⟨m₁, m₂, kids₂, plistFree_returns hfree₁, plistFree_returns hfree₂, h₂,
    hk₂.trans nodesOf_append.symm, hl₂, ?_, fun x hx => ⟨fun hxd => ?_, (hf₂.same x hx).2.2⟩⟩
  · rw [(hf₂.same d hl₂).1, (hf₁.same d hl₁).1, untable_eq hd, data_setData, Function.update_self]
  · have hx₁ : m₁.live x = true := hf₂.before x hx
    rw [(hf₂.same x hx).1, (hf₁.same x hx₁).1, untable_eq hd, data_setData,
      Function.update_of_ne hxd]

/-- The key leaves the table, and its node and its item are freed. -/
theorem plistDictRemoveItem_spec {old : α} (h : Holds ∅ ∅ m s kids)
    (hs : s d = some (.dict es)) (hn : lookup es key = some old) :
    ∃ m', Returns (fun fuel => plistDictRemoveItem fuel d key m) m' ∧
      Represents m' (Function.update (discarded s old) d (some (.dict (erase es key)))) := by
  have hget := plistDictGetItem_spec h (Set.notMem_empty d) hs key
  rw [hn] at hget
  obtain ⟨hl, rows, hashtable, rfl, hd, hr⟩ := holds_dict h (Set.notMem_empty d) hs
  obtain ⟨as, r, bs, rfl, hrk, has, rfl, hk⟩ := rows_old hr hn
  have hrin : r ∈ as ++ r :: bs := List.mem_append_right as List.mem_cons_self
  have hkd : ∀ r' ∈ as ++ r :: bs, r'.key ≠ d := fun r' hr' hne => by
    have hkey := hr.keys r' hr'
    rw [hne, hd] at hkey
    cases hkey
  obtain ⟨m₁, m₂, kids₂, hfree₁, hfree₂, h₂, hk₂, hl₂, hd₂, hsame⟩ :=
    holds_free_row h hl hd (hkd r hrin) (hr.keys r hrin) hk
  have hrest : ∀ r' ∈ as ++ bs, r' ∈ as ++ r :: bs := fun r' hr' =>
    List.mem_append.mpr ((List.mem_append.mp hr').imp_right (List.mem_cons_of_mem r))
  have hlive : ∀ x ∈ nodesOf (as ++ bs), m₂.live x = true := fun x hx =>
    (h₂.forest.chained d hl₂).live x (hk₂ ▸ hx)
  have hkey : ∀ r' ∈ as ++ bs, m₂.data r'.key = some (.key r'.text) := by
    intro r' hr'
    have hlk := hlive _ (mem_nodesOf.mpr ⟨r', hr', Or.inl rfl⟩)
    rw [(hsame _ hlk).1 (hkd r' (hrest r' hr')), hr.keys r' (hrest r' hr')]
  have hdis : ((as ++ bs).map Row.text).Nodup := by
    have hd' := hr.distinct
    rw [List.map_append, List.map_cons] at hd'
    rw [List.map_append]
    exact (List.nodup_cons.mp (List.nodup_middle.mp hd')).2
  have htab : ∀ ht, (hashtable.map fun ht =>
      hashTableRemove (dictKeyHash m) (dictKeyCompare m) ht (.node r.key)) = some ht →
      Indexes (dictKeyHash m₂) ht (tableOf (as ++ bs)) := by
    intro ht hht
    obtain ⟨ht₀, hht₀, rfl⟩ := Option.map_eq_some_iff.mp hht
    exact table_congr (table_remove (hr.table ht₀ hht₀) hr.keys hr.distinct)
      (fun r' hr' => hr.keys r' (hrest r' hr')) hkey
  have hv : ∀ r' ∈ as ++ bs, discarded s r.item r'.item ≠ none := fun r' hr' => by
    rw [(hsame _ (hlive _ (mem_nodesOf.mpr ⟨r', hr', Or.inr rfl⟩))).2]
    exact rows_exist h hs (hrest r' hr')
  have hdone := dict_done _ h₂ hl₂ hd₂ ⟨hk₂, hkey, hdis, htab⟩ hv
  rw [setData_self hd₂, ← erase_rows has hrk] at hdone
  have hdk : m.deref (some r.key) = some r.key :=
    deref_live ((h.forest.chained d hl).live _ (by rw [hk]; simp))
  refine ⟨m₂, (hget.after₂ hfree₁ hfree₂ fun fuel hg hf => ?_), hdone⟩
  rw [plistDictRemoveItem, deref_live hl]
  simp only [Option.bind_eq_bind, Option.bind_some, hd, hg, prev_child h hl hk, hdk, hf]

end Dicts

section Roots

variable {m : Plist α β} {s : Values α β} {kids : α → List α} {p : α}

theorem plistFree_spec (h : Holds ∅ ∅ m s kids) (hp : Root s p) :
    ∃ m', Returns (fun fuel => plistFree fuel p m) m' ∧ Represents m' (discarded s p) := by
  obtain ⟨m', hr, hh⟩ := holds_free h (holds_live h hp.1) (holds_root h hp)
  exact ⟨m', plistFree_returns hr, _, hh⟩

theorem plistNewArray_spec (h : Holds ∅ ∅ m s kids) (hp : m.live p = false) :
    Represents (plistNewArray p m) (Function.update s p (some (.array []))) := by
  have hself := @cell_new_self α β _ m p (.array none)
  refine ⟨kids, h.new hp (.array (congrArg Cell.live hself) (congrArg Cell.data hself)
    fun pa hpa => by cases hpa) fun v hv => ?_⟩
  cases hv
  rfl

omit [DecidableEq α] in
theorem rows_nil : Rows m [] [] none where
  kids := rfl
  keys r hr := absurd hr List.not_mem_nil
  distinct := List.nodup_nil
  table _ hht := by cases hht

theorem plistNewDict_spec (h : Holds ∅ ∅ m s kids) (hp : m.live p = false) :
    Represents (plistNewDict p m) (Function.update s p (some (.dict []))) := by
  have hself := @cell_new_self α β _ m p (.dict none)
  refine ⟨kids, h.new hp (.dict (congrArg Cell.live hself) (congrArg Cell.data hself) rows_nil)
    fun v hv => ?_⟩
  cases hv
  rfl

theorem plistNewNode_spec {v : β} (h : Holds ∅ ∅ m s kids) (hp : m.live p = false) :
    Represents (plistNewNode p (.value v) m) (Function.update s p (some (.value v))) := by
  have hself := @cell_new_self α β _ m p (.value v)
  refine ⟨kids, h.new hp (.value (congrArg Cell.live hself) (congrArg Cell.data hself) rfl)
    fun w hw => ?_⟩
  cases hw
  rfl

end Roots

end UnBoxer.PlistEdits
