import UnBoxer.PlistEdits
import UnBoxer.Runs

namespace UnBoxer.PlistRuns

open UnBoxer.Fuel UnBoxer.NodeLists UnBoxer.PlistNodes UnBoxer.Plists UnBoxer.PlistValues
open UnBoxer.PlistCalls UnBoxer.PlistEdits UnBoxer.Runs

variable {α β : Type} [DecidableEq α]

/-- A call of the library. Where it makes a node, `p` is the place that it gets. -/
inductive Call (α β : Type) where
  | newArray (p : α)
  | newDict (p : α)
  | newValue (p : α) (v : β)
  | free (plist : α)
  | append (node item : α)
  | insert (node item : α) (n : ℕ)
  | set (node item : α) (n : ℕ)
  | remove (node : α) (n : ℕ)
  | itemRemove (node : α)
  | setItem (node : α) (key : CString) (item p : α)
  | removeItem (node : α) (key : CString)

def exec (fuel : ℕ) : Call α β → Plist α β → Option (Plist α β)
  | .newArray p, m => some (plistNewArray p m)
  | .newDict p, m => some (plistNewDict p m)
  | .newValue p v, m => some (plistNewNode p (.value v) m)
  | .free plist, m => plistFree fuel plist m
  | .append node item, m => plistArrayAppendItem fuel node item m
  | .insert node item n, m => plistArrayInsertItem fuel node item n m
  | .set node item n, m => plistArraySetItem fuel node item n m
  | .remove node n, m => plistArrayRemoveItem fuel node n m
  | .itemRemove node, m => plistArrayItemRemove fuel node m
  | .setItem node key item p, m => plistDictSetItem fuel node key item p m
  | .removeItem node key, m => plistDictRemoveItem fuel node key m

def Fits (s : Values α β) (node item : α) : Prop :=
  s node ≠ none ∧ Root s item ∧ ¬ Under s item node

/-- What a caller keeps to: a place that a node gets is not in use, no property list becomes part
of two others or of itself, and only what exists is used. -/
def Allowed (m : Plist α β) (s : Values α β) : Call α β → Prop
  | .newArray p => m.live p = false
  | .newDict p => m.live p = false
  | .newValue p _ => m.live p = false
  | .free plist => Root s plist
  | .append node item => Fits s node item
  | .insert node item _ => Fits s node item
  | .set node item _ => Fits s node item
  | .remove node _ => s node ≠ none
  | .itemRemove node => s node ≠ none
  | .setItem node _ item p => Fits s node item ∧ m.live p = false
  | .removeItem node _ => s node ≠ none

open Classical in
noncomputable def leave (s : Values α β) (item : α) : Values α β :=
  if ∃ a xs, s a = some (.array xs) ∧ item ∈ xs then
    fun x =>
      match discarded s item x with
      | some (.array xs) => some (.array (xs.erase item))
      | c => c
  else s

/-- What a call means for the property lists. -/
noncomputable def apply (s : Values α β) : Call α β → Values α β
  | .newArray p => Function.update s p (some (.array []))
  | .newDict p => Function.update s p (some (.dict []))
  | .newValue p v => Function.update s p (some (.value v))
  | .free plist => discarded s plist
  | .append node item =>
    match s node with
    | some (.array xs) => Function.update s node (some (.array (xs ++ [item])))
    | _ => s
  | .insert node item n =>
    match s node with
    | some (.array xs) =>
      if n < intMax then
        Function.update s node (some (.array (xs.take n ++ item :: xs.drop n)))
      else s
    | _ => s
  | .set node item n =>
    match s node with
    | some (.array xs) =>
      match xs[n]? with
      | some old =>
        if n < intMax then
          Function.update (discarded s old) node (some (.array (xs.set n item)))
        else s
      | none => s
    | _ => s
  | .remove node n =>
    match s node with
    | some (.array xs) =>
      match xs[n]? with
      | some old =>
        if n < intMax then
          Function.update (discarded s old) node (some (.array (xs.eraseIdx n)))
        else s
      | none => s
    | _ => s
  | .itemRemove node => leave s node
  | .setItem node key item _ =>
    match s node with
    | some (.dict es) =>
      match lookup es key with
      | some old => Function.update (discarded s old) node (some (.dict (assign es key item)))
      | none => Function.update s node (some (.dict (assign es key item)))
    | _ => s
  | .removeItem node key =>
    match s node with
    | some (.dict es) =>
      match lookup es key with
      | some old => Function.update (discarded s old) node (some (.dict (erase es key)))
      | none => s
    | _ => s

section Calls

variable {m : Plist α β} {s : Values α β} {kids : α → List α} {a d item p : α} {n : ℕ}
  {key : CString} {fuel : ℕ}

omit [DecidableEq α] in
theorem array_or (h : Holds ∅ ∅ m s kids) (ha : s a ≠ none) :
    (∃ xs, s a = some (.array xs)) ∨
      m.live a = true ∧ (∀ ht, m.data a ≠ some (.array ht)) ∧ ∀ xs, s a ≠ some (.array xs) := by
  have hsh := h.content a (Set.notMem_empty a)
  generalize hs : s a = o at hsh ha
  cases hsh with
  | dead h₁ h₂ => exact absurd rfl ha
  | key h₁ h₂ h₃ => exact absurd rfl ha
  | value h₁ h₂ h₃ =>
    refine Or.inr ⟨h₁, fun ht hd => ?_, fun xs hx => by cases hx⟩
    rw [h₂] at hd
    cases hd
  | array h₁ h₂ h₃ => exact Or.inl ⟨_, rfl⟩
  | dict h₁ h₂ h₃ =>
    refine Or.inr ⟨h₁, fun ht hd => ?_, fun xs hx => by cases hx⟩
    rw [h₂] at hd
    cases hd

omit [DecidableEq α] in
theorem dict_or (h : Holds ∅ ∅ m s kids) (ha : s a ≠ none) :
    (∃ es, s a = some (.dict es)) ∨
      m.live a = true ∧ (∀ ht, m.data a ≠ some (.dict ht)) ∧ ∀ es, s a ≠ some (.dict es) := by
  have hsh := h.content a (Set.notMem_empty a)
  generalize hs : s a = o at hsh ha
  cases hsh with
  | dead h₁ h₂ => exact absurd rfl ha
  | key h₁ h₂ h₃ => exact absurd rfl ha
  | value h₁ h₂ h₃ =>
    refine Or.inr ⟨h₁, fun ht hd => ?_, fun xs hx => by cases hx⟩
    rw [h₂] at hd
    cases hd
  | array h₁ h₂ h₃ =>
    refine Or.inr ⟨h₁, fun ht hd => ?_, fun xs hx => by cases hx⟩
    rw [h₂] at hd
    cases hd
  | dict h₁ h₂ h₃ => exact Or.inl ⟨_, rfl⟩

theorem append_spec (h : Holds ∅ ∅ m s kids) (ha : Fits s a item) :
    ∃ m', Returns (fun fuel => exec fuel (.append a item) m) m' ∧
      Represents m' (apply s (.append a item)) := by
  obtain ⟨xs, hs⟩ | ⟨hl, hd, hs⟩ := array_or h ha.1
  · obtain ⟨m', hr, hrep, -⟩ := plistArrayAppendItem_spec h hs ha.2.1 ha.2.2
    refine ⟨m', hr, ?_⟩
    simp only [apply, hs]
    exact hrep
  · refine ⟨m, returns_of_eq fun fuel => ?_, kids, ?_⟩
    · simp only [exec, plistArrayAppendItem, deref_live hl, Option.bind_eq_bind, Option.bind_some]
    · simp only [apply]
      exact h

theorem insert_spec (h : Holds ∅ ∅ m s kids) (ha : Fits s a item) :
    ∃ m', Returns (fun fuel => exec fuel (.insert a item n) m) m' ∧
      Represents m' (apply s (.insert a item n)) := by
  obtain ⟨xs, hs⟩ | ⟨hl, hd, hs⟩ := array_or h ha.1
  · by_cases hn : n < intMax
    · obtain ⟨m', hr, hrep⟩ := plistArrayInsertItem_spec h hs ha.2.1 ha.2.2 hn
      refine ⟨m', hr, ?_⟩
      simp only [apply, hs, if_pos hn]
      exact hrep
    · obtain ⟨hl, -, ht, hd, -⟩ := holds_array h (Set.notMem_empty a) hs
      refine ⟨m, returns_of_eq fun fuel => ?_, kids, ?_⟩
      · simp only [exec, plistArrayInsertItem, deref_live hl, Option.bind_eq_bind,
          Option.bind_some, hd, if_neg hn]
      · simp only [apply, hs, if_neg hn]
        exact h
  · refine ⟨m, returns_of_eq fun fuel => ?_, kids, ?_⟩
    · simp only [exec, plistArrayInsertItem, deref_live hl, Option.bind_eq_bind, Option.bind_some]
    · simp only [apply]
      exact h

theorem set_spec (h : Holds ∅ ∅ m s kids) (ha : Fits s a item) :
    ∃ m', Returns (fun fuel => exec fuel (.set a item n) m) m' ∧
      Represents m' (apply s (.set a item n)) := by
  obtain ⟨xs, hs⟩ | ⟨hl, hd, hs⟩ := array_or h ha.1
  · obtain ⟨hl, -, ht, hd, -⟩ := holds_array h (Set.notMem_empty a) hs
    by_cases hn : n < intMax
    · cases hx : xs[n]? with
      | some old =>
        obtain ⟨ys, zs, rfl, rfl⟩ := exists_split hx
        obtain ⟨m', hr, hrep⟩ := plistArraySetItem_spec h hs ha.2.1 ha.2.2 hn
        refine ⟨m', hr, ?_⟩
        simp only [apply, hs, hx, if_pos hn, set_middle]
        exact hrep
      | none =>
        have hget := plistArrayGetItem_spec h (Set.notMem_empty a) hs hn
        rw [hx] at hget
        refine ⟨m, returns_of_eq fun fuel => ?_, kids, ?_⟩
        · simp only [exec, plistArraySetItem, deref_live hl, Option.bind_eq_bind,
            Option.bind_some, hd, if_pos hn, hget]
        · simp only [apply, hs, hx]
          exact h
    · refine ⟨m, returns_of_eq fun fuel => ?_, kids, ?_⟩
      · simp only [exec, plistArraySetItem, deref_live hl, Option.bind_eq_bind,
          Option.bind_some, hd, if_neg hn]
      · have happ : apply s (.set a item n) = s := by
          cases hx : xs[n]? <;> simp only [apply, hs, hx, if_neg hn]
        rw [happ]
        exact h
  · refine ⟨m, returns_of_eq fun fuel => ?_, kids, ?_⟩
    · simp only [exec, plistArraySetItem, deref_live hl, Option.bind_eq_bind, Option.bind_some]
    · simp only [apply]
      exact h

theorem remove_spec (h : Holds ∅ ∅ m s kids) (ha : s a ≠ none) :
    ∃ m', Returns (fun fuel => exec fuel (.remove a n) m) m' ∧
      Represents m' (apply s (.remove a n)) := by
  obtain ⟨xs, hs⟩ | ⟨hl, hd, hs⟩ := array_or h ha
  · obtain ⟨hl, -, ht, hd, -⟩ := holds_array h (Set.notMem_empty a) hs
    by_cases hn : n < intMax
    · cases hx : xs[n]? with
      | some old =>
        obtain ⟨ys, zs, rfl, rfl⟩ := exists_split hx
        obtain ⟨m', hr, hrep⟩ := plistArrayRemoveItem_spec h hs hn
        refine ⟨m', hr, ?_⟩
        simp only [apply, hs, hx, if_pos hn, eraseIdx_middle]
        exact hrep
      | none =>
        have hget := plistArrayGetItem_spec h (Set.notMem_empty a) hs hn
        rw [hx] at hget
        refine ⟨m, returns_of_eq fun fuel => ?_, kids, ?_⟩
        · simp only [exec, plistArrayRemoveItem, deref_live hl, Option.bind_eq_bind,
            Option.bind_some, hd, if_pos hn, hget]
        · simp only [apply, hs, hx]
          exact h
    · refine ⟨m, returns_of_eq fun fuel => ?_, kids, ?_⟩
      · simp only [exec, plistArrayRemoveItem, deref_live hl, Option.bind_eq_bind,
          Option.bind_some, hd, if_neg hn]
      · have happ : apply s (.remove a n : Call α β) = s := by
          cases hx : xs[n]? <;> simp only [apply, hs, hx, if_neg hn]
        rw [happ]
        exact h
  · refine ⟨m, returns_of_eq fun fuel => ?_, kids, ?_⟩
    · simp only [exec, plistArrayRemoveItem, deref_live hl, Option.bind_eq_bind, Option.bind_some]
    · simp only [apply]
      exact h

theorem leave_eq {ys zs : List α} (h : Holds ∅ ∅ m s kids)
    (hs : s a = some (.array (ys ++ item :: zs))) :
    leave s item = Function.update (discarded s item) a (some (.array (ys ++ zs))) := by
  obtain ⟨hl, hk, -, -, -⟩ := holds_array h (Set.notMem_empty a) hs
  have hin : item ∈ ys ++ item :: zs := List.mem_append_right ys List.mem_cons_self
  have hnd := (h.forest.chained a hl).nodup
  rw [hk] at hnd
  have hys : item ∉ ys := fun hm => (List.nodup_append.mp hnd).2.2 item hm item
    List.mem_cons_self rfl
  have hnot : ¬ Under s item a := fun hu => not_below (h.acyclic a) (hk ▸ hin)
    (h.below_of_under (fun x hx => absurd hx (Set.notMem_empty x)) hu)
  rw [leave, if_pos ⟨a, _, hs, hin⟩]
  funext x
  by_cases hx : x = a
  · rw [hx, Function.update_self, discarded_of_not hnot, hs]
    simp only [List.erase_append_right _ hys, List.erase_cons_head]
  · rw [Function.update_of_ne hx]
    cases hd : discarded s item x with
    | none => rfl
    | some v =>
      have hsx : s x = some v := by
        by_cases hu : Under s item x
        · rw [discarded, if_pos hu] at hd
          cases hd
        · rw [discarded_of_not hu] at hd
          exact hd
      cases v with
      | array xs =>
        obtain ⟨hlx, hkx, -, -, -⟩ := holds_array h (Set.notMem_empty x) hsx
        have hno : item ∉ xs := fun hm =>
          hx (h.forest.kids_eq hlx hl (hkx ▸ hm) (hk ▸ hin))
        simp only [List.erase_of_not_mem hno]
      | dict es => rfl
      | value w => rfl

theorem itemRemove_spec (h : Holds ∅ ∅ m s kids) (hi : s item ≠ none) :
    ∃ m', Returns (fun fuel => exec fuel (.itemRemove item) m) m' ∧
      Represents m' (apply s (.itemRemove item)) := by
  by_cases hex : ∃ a xs, s a = some (.array xs) ∧ item ∈ xs
  · obtain ⟨a, xs, hs, hm⟩ := hex
    obtain ⟨ys, zs, rfl⟩ := List.append_of_mem hm
    obtain ⟨m', hr, hrep⟩ := plistArrayItemRemove_spec h hs
    refine ⟨m', hr, ?_⟩
    rw [apply, leave_eq h hs]
    exact hrep
  · have hleave : leave s item = s := if_neg hex
    refine ⟨m, returns_of_eq fun fuel => ?_, kids, ?_⟩
    · have hl := holds_live h hi
      cases hp : m.parent item with
      | none =>
        simp only [exec, plistArrayItemRemove, deref_live hl, Option.bind_eq_bind,
          Option.bind_some, hp]
      | some q =>
        obtain ⟨hlq, hkq⟩ := h.rooted item q (Set.notMem_empty item) hl hp
        have hdq : ∀ ht, m.data q ≠ some (.array ht) := by
          intro ht hd
          have hsh := h.content q (Set.notMem_empty q)
          generalize hsq : s q = o at hsh
          generalize hks : kids q = ks at hsh
          cases hsh with
          | array h₁ h₂ h₃ => exact hex ⟨q, _, hsq, hks ▸ hkq⟩
          | dead h₁ h₂ => rw [hks, h₂] at hkq; cases hkq
          | key h₁ h₂ h₃ => rw [hks, h₃] at hkq; cases hkq
          | value h₁ h₂ h₃ => rw [hks, h₃] at hkq; cases hkq
          | dict h₁ h₂ h₃ => rw [h₂] at hd; cases hd
        simp only [exec, plistArrayItemRemove, deref_live hl, Option.bind_eq_bind,
          Option.bind_some, hp, deref_live hlq]
    · rw [apply, hleave]
      exact h

theorem setItem_spec (h : Holds ∅ ∅ m s kids) (ha : Fits s d item) (hp : m.live p = false) :
    ∃ m', Returns (fun fuel => exec fuel (.setItem d key item p) m) m' ∧
      Represents m' (apply s (.setItem d key item p)) := by
  obtain ⟨es, hs⟩ | ⟨hl, hd, hs⟩ := dict_or h ha.1
  · cases hn : lookup es key with
    | some old =>
      obtain ⟨m', hr, hrep⟩ := plistDictSetItem_old (p := p) h hs ha.2.1 ha.2.2 hn
      refine ⟨m', hr, ?_⟩
      simp only [apply, hs, hn]
      exact hrep
    | none =>
      obtain ⟨m', hr, hrep, -⟩ := plistDictSetItem_new h hs ha.2.1 ha.2.2 hp hn
      refine ⟨m', hr, ?_⟩
      simp only [apply, hs, hn, assign_none hn]
      exact hrep
  · refine ⟨m, returns_of_eq fun fuel => ?_, kids, ?_⟩
    · simp only [exec, plistDictSetItem, deref_live hl, Option.bind_eq_bind, Option.bind_some]
    · simp only [apply]
      exact h

theorem removeItem_spec (h : Holds ∅ ∅ m s kids) (ha : s d ≠ none) :
    ∃ m', Returns (fun fuel => exec fuel (.removeItem d key) m) m' ∧
      Represents m' (apply s (.removeItem d key)) := by
  obtain ⟨es, hs⟩ | ⟨hl, hd, hs⟩ := dict_or h ha
  · cases hn : lookup es key with
    | some old =>
      obtain ⟨m', hr, hrep⟩ := plistDictRemoveItem_spec h hs hn
      refine ⟨m', hr, ?_⟩
      simp only [apply, hs, hn]
      exact hrep
    | none =>
      have hget := plistDictGetItem_spec h (Set.notMem_empty d) hs key
      rw [hn] at hget
      obtain ⟨hl, rows, ht, rfl, hd, -⟩ := holds_dict h (Set.notMem_empty d) hs
      refine ⟨m, hget.after (returns_of_eq fun _ => rfl) fun fuel hg => ?_, kids, ?_⟩
      · simp only [exec, plistDictRemoveItem, deref_live hl, Option.bind_eq_bind,
          Option.bind_some, hd, hg]
      · simp only [apply, hs, hn]
        exact h
  · refine ⟨m, returns_of_eq fun fuel => ?_, kids, ?_⟩
    · simp only [exec, plistDictRemoveItem, deref_live hl, Option.bind_eq_bind, Option.bind_some]
    · simp only [apply]
      exact h

/-- Every call that a caller may make returns, and does what it means. -/
theorem call_spec {c : Call α β} (h : Represents m s) (hc : Allowed m s c) :
    ∃ m', Returns (fun fuel => exec fuel c m) m' ∧ Represents m' (apply s c) := by
  obtain ⟨kids, h⟩ := h
  cases c with
  | newArray p => exact ⟨_, returns_of_eq fun _ => rfl, plistNewArray_spec h hc⟩
  | newDict p => exact ⟨_, returns_of_eq fun _ => rfl, plistNewDict_spec h hc⟩
  | newValue p v => exact ⟨_, returns_of_eq fun _ => rfl, plistNewNode_spec h hc⟩
  | free plist => exact plistFree_spec h hc
  | append node item => exact append_spec h hc
  | insert node item n => exact insert_spec h hc
  | set node item n => exact set_spec h hc
  | remove node n => exact remove_spec h hc
  | itemRemove node => exact itemRemove_spec h hc
  | setItem node key item p => exact setItem_spec h hc.1 hc.2
  | removeItem node key => exact removeItem_spec h hc

end Calls

section Runs

structure Step (st : Plist α β × Values α β) (c : Call α β) (st' : Plist α β × Values α β) :
    Prop where
  allowed : Allowed st.1 st.2 c
  returns : Returns (fun fuel => exec fuel c st.1) st'.1
  effect : st'.2 = apply st.2 c

def start : Plist α β × Values α β where
  fst :=
    { live := fun _ => false
      next := fun _ => none
      prev := fun _ => none
      count := fun _ => 0
      data := fun _ => none
      parent := fun _ => none
      children := fun _ => none }
  snd := fun _ => none

variable {cs : List (Call α β)} {st : Plist α β × Values α β}

omit [DecidableEq α] in
theorem start_represents : Represents (start : Plist α β × Values α β).1 start.2 := by
  have hdead : ∀ x, (start : Plist α β × Values α β).1.live x ≠ true := fun x => Bool.false_ne_true
  refine ⟨fun _ => [], ⟨fun x hx => absurd hx (hdead x), fun x hx => absurd hx (hdead x),
    fun x hx => absurd hx (hdead x), fun x hx => absurd hx (hdead x)⟩,
    fun c _ _ hc => absurd hc (hdead c), fun p => ⟨p, fun c hc => absurd hc List.not_mem_nil⟩,
    fun _ _ => rfl, fun _ _ => .dead rfl rfl, fun x _ v hv => ?_⟩
  cases hv

/-- After every run the memory holds what the calls mean. -/
theorem run_represents (h : Run Step start cs st) : Represents st.1 st.2 := by
  refine h.invariant (I := fun st => Represents st.1 st.2) start_represents fun st c st' hst hs => ?_
  obtain ⟨m', hr, hrep⟩ := call_spec hst hs.allowed
  rw [hs.returns.unique hr, hs.effect]
  exact hrep

/-- After every run, every call that a caller may make returns: no pointer is followed that is
`NULL` or to a node that has been freed, no assertion fails, and no loop goes on for ever. -/
theorem call_returns (h : Run Step start cs st) {c : Call α β} (hc : Allowed st.1 st.2 c) :
    ∃ st', Step st c st' := by
  obtain ⟨m', hr, -⟩ := call_spec (run_represents h) hc
  exact ⟨(m', apply st.2 c), hc, hr, rfl⟩

/-- After every run, an array is read as the list of its items, with or without its array by
index. -/
theorem array_reads (h : Run Step start cs st) {a : α} {xs : List α}
    (hs : st.2 a = some (.array xs)) :
    plistArrayGetSize a st.1 = some xs.length ∧
      (∀ n, n < intMax → plistArrayGetItem a n st.1 = some xs[n]?) ∧
      ∀ ys c zs, xs = ys ++ c :: zs →
        Returns (fun fuel => plistArrayGetItemIndex fuel c st.1) (some ys.length) := by
  obtain ⟨kids, hh⟩ := run_represents h
  have ha := Set.notMem_empty a
  refine ⟨plistArrayGetSize_spec hh ha hs, fun n hn => plistArrayGetItem_spec hh ha hs hn, ?_⟩
  rintro ys c zs rfl
  exact plistArrayGetItemIndex_spec hh ha hs

/-- After every run, a dictionary is read as the list of its entries: in order by an iterator, and
at every key with or without its table. It has no key twice. -/
theorem dict_reads (h : Run Step start cs st) {d : α} {es : List (CString × α)}
    (hs : st.2 d = some (.dict es)) :
    plistDictGetSize d st.1 = some es.length ∧
      (∃ iter, plistDictNewIter d st.1 = some iter ∧
        Returns (fun fuel => nextItems d st.1 fuel iter) es) ∧
      (∀ key, Returns (fun fuel => plistDictGetItem fuel d key st.1) (lookup es key)) ∧
      (es.map Prod.fst).Nodup := by
  obtain ⟨kids, hh⟩ := run_represents h
  have hd := Set.notMem_empty d
  refine ⟨plistDictGetSize_spec hh hd hs, plistDictNewIter_spec hh hd hs,
    fun key => plistDictGetItem_spec hh hd hs key, ?_⟩
  obtain ⟨-, rows, ht, rfl, -, hr⟩ := holds_dict hh hd hs
  have hm : (entriesOf rows).map Prod.fst = rows.map Row.text := by
    rw [entriesOf, List.map_map]
    rfl
  rw [hm]
  exact hr.distinct

end Runs

section Sample

variable {m : Plist ℕ Unit} {s : Values ℕ Unit} {st : Plist ℕ Unit × Values ℕ Unit}

theorem newValue_fits {p : ℕ} (hp : p ≠ 0) (h₀ : s 0 ≠ none)
    (hpart : ∀ v, s 0 = some v → p ∉ v.children)
    (hother : ∀ x v, x ≠ 0 → s x = some v → v.children = []) :
    Fits (Function.update s p (some (.value ()))) 0 p := by
  have hself : Function.update s p (some (.value ())) p = some (.value ()) := Function.update_self ..
  refine ⟨?_, ⟨by simp, fun x v hx => ?_⟩, fun hu => ?_⟩
  · rwa [Function.update_of_ne hp.symm]
  · by_cases hxp : x = p
    · rw [hxp, hself] at hx
      cases hx
      exact List.not_mem_nil
    · rw [Function.update_of_ne hxp] at hx
      by_cases hx₀ : x = 0
      · exact hpart v (hx₀ ▸ hx)
      · rw [hother x v hx₀ hx]
        exact List.not_mem_nil
  · obtain hp₀ | ⟨c, ⟨v, hv, hc⟩, -⟩ := Relation.ReflTransGen.cases_head_iff.mp hu
    · exact hp hp₀
    · rw [hself] at hv
      cases hv
      cases hc

theorem newValue_other {p : ℕ} (hother : ∀ x v, x ≠ 0 → s x = some v → v.children = []) (x : ℕ)
    (v : Content ℕ Unit) (hx : x ≠ 0)
    (h : Function.update s p (some (.value ())) x = some v) : v.children = [] := by
  by_cases hxp : x = p
  · rw [hxp, Function.update_self] at h
    cases h
    rfl
  · rw [Function.update_of_ne hxp] at h
    exact hother x v hx h

theorem apply_append {a item : ℕ} {xs : List ℕ} (hs : s a = some (.array xs)) :
    apply s (.append a item) = Function.update s a (some (.array (xs ++ [item]))) := by
  simp only [apply, hs]

/-- The property list `0` is an array of the values `1` to `n`, and all later places are free. -/
structure Filled (n : ℕ) (st : Plist ℕ Unit × Values ℕ Unit) : Prop where
  array : st.2 0 = some (.array (List.range' 1 n))
  other : ∀ x v, x ≠ 0 → st.2 x = some v → v.children = []
  fresh : ∀ x, n < x → st.1.live x = false
  long : 100 < n → ∃ pa, st.1.data 0 = some (.array (some pa))

theorem filled_succ {cs : List (Call ℕ Unit)} {n : ℕ} (h : Run Step start cs st)
    (hf : Filled n st) :
    ∃ st', Run Step start (cs ++ [.newValue (n + 1) (), .append 0 (n + 1)]) st' ∧
      Filled (n + 1) st' := by
  have hlive := hf.fresh (n + 1) (by omega)
  have hval : Step st (.newValue (n + 1) ()) (plistNewNode (n + 1) (.value ()) st.1,
      apply st.2 (.newValue (n + 1) ())) := ⟨hlive, returns_of_eq fun _ => rfl, rfl⟩
  have hrun := h.snoc hval
  obtain ⟨kids, hh⟩ := run_represents hrun
  have hfit : Fits (apply st.2 (.newValue (n + 1) ())) 0 (n + 1) := by
    refine newValue_fits (by omega) (by simp [hf.array]) (fun v hv => ?_) hf.other
    rw [hf.array] at hv
    cases hv
    simp [Content.children]
    omega
  have harray : apply st.2 (.newValue (n + 1) ()) 0 = some (.array (List.range' 1 n)) :=
    (Function.update_of_ne (by omega) _ _).trans hf.array
  obtain ⟨m', hr, hrep, hidx⟩ := plistArrayAppendItem_spec hh harray hfit.2.1 hfit.2.2
  have hrange : List.range' 1 n ++ [n + 1] = List.range' 1 (n + 1) := by
    rw [List.range'_concat, Nat.one_mul, Nat.add_comm 1 n]
  have hstep : Step (plistNewNode (n + 1) (.value ()) st.1, apply st.2 (.newValue (n + 1) ()))
      (.append 0 (n + 1)) (m', Function.update (apply st.2 (.newValue (n + 1) ())) 0
        (some (.array (List.range' 1 (n + 1))))) := by
    exact ⟨hfit, hr, hrange ▸ (apply_append harray).symm⟩
  refine ⟨_, List.append_assoc cs [_] [_] ▸ hrun.snoc hstep, ?_, fun x v hx hxv => ?_,
    fun x hx => ?_, fun hlong => hidx.long (by simpa using hlong)⟩
  · simp
  · exact newValue_other hf.other x v hx ((Function.update_of_ne hx _ _).symm.trans hxv)
  · rw [hidx.live]
    exact (Function.update_of_ne (by omega) _ _).trans (hf.fresh x (by omega))

theorem exists_filled (n : ℕ) : ∃ cs st, Run Step start cs st ∧ Filled n st := by
  induction n with
  | zero =>
    have hstep : Step (start : Plist ℕ Unit × Values ℕ Unit) (.newArray 0)
        (plistNewArray 0 start.1, apply start.2 (.newArray 0)) :=
      ⟨rfl, returns_of_eq fun _ => rfl, rfl⟩
    refine ⟨_, _, Run.nil.snoc hstep, rfl, fun x v hx hxv => ?_, fun x hx => ?_, fun h => ?_⟩
    · cases (Function.update_of_ne hx _ _).symm.trans hxv
    · exact Function.update_of_ne (by omega) _ _
    · omega
  | succ n ih =>
    obtain ⟨cs, st, hrun, hf⟩ := ih
    obtain ⟨st', hrun', hf'⟩ := filled_succ hrun hf
    exact ⟨_, st', hrun', hf'⟩

/-- An item is taken out of an array that has an array by index. -/
theorem call_returns_long : ∃ cs st, Run Step (start : Plist ℕ Unit × Values ℕ Unit) cs st ∧
    (∃ pa, st.1.data 0 = some (.array (some pa))) ∧ ∃ st', Step st (.remove 0 50) st' := by
  obtain ⟨cs, st, hrun, hf⟩ := exists_filled 101
  have hc : Allowed st.1 st.2 (.remove 0 50) := by simp [Allowed, hf.array]
  exact ⟨cs, st, hrun, hf.long (by decide), call_returns hrun hc⟩

theorem array_reads_long : ∃ cs st, Run Step (start : Plist ℕ Unit × Values ℕ Unit) cs st ∧
    (∃ pa, st.1.data 0 = some (.array (some pa))) ∧
    plistArrayGetItem 0 50 st.1 = some (some 51) := by
  obtain ⟨cs, st, hrun, hf⟩ := exists_filled 101
  have hitem : (List.range' 1 101)[50]? = some 51 := by decide
  exact ⟨cs, st, hrun, hf.long (by decide), hitem ▸ (array_reads hrun hf.array).2.1 50 (by decide)⟩

def name (i : ℕ) : CString := List.replicate (i + 1) 97

def entries (n : ℕ) : List (CString × ℕ) := (List.range n).map fun i => (name i, 2 * i + 1)

theorem lookup_entries (n : ℕ) : lookup (entries n) (name n) = none := by
  rw [lookup, Option.map_eq_none_iff, List.find?_eq_none]
  intro e he heq
  obtain ⟨i, hi, rfl⟩ := List.mem_map.mp he
  have hlen := congrArg List.length (of_decide_eq_true heq)
  simp only [name, List.length_replicate] at hlen
  rw [List.mem_range] at hi
  omega

theorem apply_setItem {d item p : ℕ} {key : CString} {es : List (CString × ℕ)}
    (hs : s d = some (.dict es)) (hn : lookup es key = none) :
    apply s (.setItem d key item p) =
      Function.update s d (some (.dict (es ++ [(key, item)]))) := by
  simp only [apply, hs, hn, assign_none hn]

/-- The property list `0` is a dictionary with `n` entries, and all later places are free. -/
structure Entered (n : ℕ) (st : Plist ℕ Unit × Values ℕ Unit) : Prop where
  dict : st.2 0 = some (.dict (entries n))
  other : ∀ x v, x ≠ 0 → st.2 x = some v → v.children = []
  fresh : ∀ x, 2 * n < x → st.1.live x = false
  long : 500 < 2 * n → ∃ ht, st.1.data 0 = some (.dict (some ht))

theorem entered_succ {cs : List (Call ℕ Unit)} {n : ℕ} (h : Run Step start cs st)
    (hf : Entered n st) :
    ∃ st', Run Step start (cs ++ [.newValue (2 * n + 1) (),
      .setItem 0 (name n) (2 * n + 1) (2 * n + 2)]) st' ∧ Entered (n + 1) st' := by
  have hval : Step st (.newValue (2 * n + 1) ()) (plistNewNode (2 * n + 1) (.value ()) st.1,
      apply st.2 (.newValue (2 * n + 1) ())) :=
    ⟨hf.fresh _ (by omega), returns_of_eq fun _ => rfl, rfl⟩
  have hrun := h.snoc hval
  obtain ⟨kids, hh⟩ := run_represents hrun
  have hfit : Fits (apply st.2 (.newValue (2 * n + 1) ())) 0 (2 * n + 1) := by
    refine newValue_fits (by omega) (by simp [hf.dict]) (fun v hv => ?_) hf.other
    rw [hf.dict] at hv
    cases hv
    simp only [Content.children, entries, List.map_map, List.mem_map, List.mem_range,
      Function.comp_apply, not_exists, not_and]
    exact fun i hi hin => absurd hin (by omega)
  have hlive : (plistNewNode (2 * n + 1) (.value ()) st.1).live (2 * n + 2) = false :=
    (Function.update_of_ne (by omega) _ _).trans (hf.fresh _ (by omega))
  have hdict : apply st.2 (.newValue (2 * n + 1) ()) 0 = some (.dict (entries n)) :=
    (Function.update_of_ne (by omega) _ _).trans hf.dict
  obtain ⟨m', hr, hrep, hl, hlong⟩ :=
    plistDictSetItem_new hh hdict hfit.2.1 hfit.2.2 hlive (lookup_entries n)
  have hentries : entries n ++ [(name n, 2 * n + 1)] = entries (n + 1) := by
    rw [entries, entries, List.range_succ, List.map_append, List.map_singleton]
  have hstep : Step
      (plistNewNode (2 * n + 1) (.value ()) st.1, apply st.2 (.newValue (2 * n + 1) ()))
      (.setItem 0 (name n) (2 * n + 1) (2 * n + 2))
      (m', Function.update (apply st.2 (.newValue (2 * n + 1) ())) 0
        (some (.dict (entries (n + 1))))) :=
    ⟨⟨hfit, hlive⟩, hr, hentries ▸ (apply_setItem hdict (lookup_entries n)).symm⟩
  refine ⟨_, List.append_assoc cs [_] [_] ▸ hrun.snoc hstep, ?_, fun x v hx hxv => ?_,
    fun x hx => ?_, fun h500 => hlong ?_⟩
  · simp
  · exact newValue_other hf.other x v hx ((Function.update_of_ne hx _ _).symm.trans hxv)
  · rw [hl, Function.update_of_ne (by omega)]
    exact (Function.update_of_ne (by omega) _ _).trans (hf.fresh x (by omega))
  · rw [entries, List.length_map, List.length_range]
    exact h500

theorem exists_entered (n : ℕ) : ∃ cs st, Run Step start cs st ∧ Entered n st := by
  induction n with
  | zero =>
    have hstep : Step (start : Plist ℕ Unit × Values ℕ Unit) (.newDict 0)
        (plistNewDict 0 start.1, apply start.2 (.newDict 0)) :=
      ⟨rfl, returns_of_eq fun _ => rfl, rfl⟩
    refine ⟨_, _, Run.nil.snoc hstep, rfl, fun x v hx hxv => ?_, fun x hx => ?_, fun h => ?_⟩
    · cases (Function.update_of_ne hx _ _).symm.trans hxv
    · exact Function.update_of_ne (by omega) _ _
    · omega
  | succ n ih =>
    obtain ⟨cs, st, hrun, hf⟩ := ih
    obtain ⟨st', hrun', hf'⟩ := entered_succ hrun hf
    exact ⟨_, st', hrun', hf'⟩

/-- A dictionary that has a table. -/
theorem dict_reads_long : ∃ cs st, Run Step (start : Plist ℕ Unit × Values ℕ Unit) cs st ∧
    (∃ ht, st.1.data 0 = some (.dict (some ht))) ∧
    (∃ iter, plistDictNewIter 0 st.1 = some iter ∧
      Returns (fun fuel => nextItems 0 st.1 fuel iter) (entries 251)) ∧
    Returns (fun fuel => plistDictGetItem fuel 0 (name 2) st.1) (some 5) := by
  obtain ⟨cs, st, hrun, hf⟩ := exists_entered 251
  obtain ⟨_, hiter, hget, _⟩ := dict_reads hrun hf.dict
  have hitem : lookup (entries 251) (name 2) = some 5 := by decide
  exact ⟨cs, st, hrun, hf.long (by decide), hiter, hitem ▸ hget (name 2)⟩

end Sample

end UnBoxer.PlistRuns
