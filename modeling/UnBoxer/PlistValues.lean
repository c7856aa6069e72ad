import UnBoxer.Plists

namespace UnBoxer.PlistValues

open UnBoxer.Chains UnBoxer.Fuel UnBoxer.NodeLists UnBoxer.PlistNodes UnBoxer.HashTables
open UnBoxer.Plists

/-- What a property list is to those who use it: where its items are, not how they are found. -/
inductive Content (α β : Type) where
  | array (items : List α)
  | dict (entries : List (CString × α))
  | value (v : β)

variable {α β : Type}

def Content.children : Content α β → List α
  | .array items => items
  | .dict entries => entries.map Prod.snd
  | .value _ => []

/-- The property lists there are. -/
abbrev Values (α β : Type) := α → Option (Content α β)

def Under (s : Values α β) (p x : α) : Prop :=
  Relation.ReflTransGen (fun q c => ∃ v, s q = some v ∧ c ∈ v.children) p x

open Classical in
/-- A property list is gone with all its parts. -/
noncomputable def discarded (s : Values α β) (p : α) : Values α β :=
  fun x => if Under s p x then none else s x

/-- An entry of a dictionary as it is stored: its key node, the text of that, and the item. -/
structure Row (α : Type) where
  key : α
  text : CString
  item : α

def nodesOf (rows : List (Row α)) : List α := rows.flatMap fun r => [r.key, r.item]

def entriesOf (rows : List (Row α)) : List (CString × α) := rows.map fun r => (r.text, r.item)

def tableOf (rows : List (Row α)) : List (KeyRef α × α) := rows.map fun r => (.node r.key, r.item)

/-- The children of a dictionary are these rows, and its table, if it has one, finds them. -/
structure Rows (m : Plist α β) (kids : List α) (rows : List (Row α))
    (hashtable : Option (HashTable (KeyRef α) α)) : Prop where
  kids : kids = nodesOf rows
  keys : ∀ r ∈ rows, m.data r.key = some (.key r.text)
  distinct : (rows.map Row.text).Nodup
  table : ∀ ht, hashtable = some ht → Indexes (dictKeyHash m) ht (tableOf rows)

/-- The node `x` with these children is what the contents say. A key is not a property list. -/
inductive Shows (m : Plist α β) (kids : List α) (x : α) : Option (Content α β) → Prop
  | dead : m.live x = false → kids = [] → Shows m kids x none
  | key {t : CString} : m.live x = true → m.data x = some (.key t) → kids = [] → Shows m kids x none
  | value {v : β} : m.live x = true → m.data x = some (.value v) → kids = [] →
      Shows m kids x (some (.value v))
  | array {hashtable : Option (PtrArray α)} : m.live x = true →
      m.data x = some (.array hashtable) → (∀ pa, hashtable = some pa → pa.pdata = kids) →
      Shows m kids x (some (.array kids))
  | dict {rows : List (Row α)} {hashtable : Option (HashTable (KeyRef α) α)} :
      m.live x = true → m.data x = some (.dict hashtable) → Rows m kids rows hashtable →
      Shows m kids x (some (.dict (entriesOf rows)))

/-- The memory holds the property lists, but for what is said of the nodes in `X`, and but for
the nodes in `Y`, which their parents may have lost. -/
structure Holds (X Y : Set α) (m : Plist α β) (s : Values α β) (kids : α → List α) : Prop where
  forest : Forest m kids
  rooted : ∀ c p, c ∉ Y → m.live c = true → m.parent c = some p →
    m.live p = true ∧ c ∈ kids p
  acyclic : ∀ p, Acc (fun c q => c ∈ kids q) p
  dead : ∀ x, m.live x = false → kids x = []
  content : ∀ x, x ∉ X → Shows m (kids x) x (s x)
  exist : ∀ x, x ∉ X → ∀ v, s x = some v → ∀ c ∈ v.children, s c ≠ none

section Contents

variable {m m' : Plist α β} {ks : List α} {kids : α → List α} {s : Values α β} {X Y : Set α}
  {c p x y : α} {rows : List (Row α)} {hashtable : Option (HashTable (KeyRef α) α)}
  {o : Option (Content α β)} {v : Content α β}

theorem mem_nodesOf : x ∈ nodesOf rows ↔ ∃ r ∈ rows, x = r.key ∨ x = r.item := by
  simp [nodesOf]

theorem keyText_node {t : CString} (h : m.data p = some (.key t)) :
    keyText m (.node p) = some t := by
  rw [keyText, h]

theorem Rows.congr (h : Rows m ks rows hashtable)
    (hd : ∀ k ∈ ks, ∀ t, m.data k = some (.key t) → m'.data k = some (.key t)) :
    Rows m' ks rows hashtable := by
  have hkeys : ∀ r ∈ rows, m'.data r.key = some (.key r.text) := fun r hr =>
    hd r.key (h.kids ▸ mem_nodesOf.mpr ⟨r, hr, Or.inl rfl⟩) r.text (h.keys r hr)
  refine ⟨h.kids, hkeys, h.distinct, fun ht hht => (h.table ht hht).congr fun e he => ?_⟩
  obtain ⟨r, hr, rfl⟩ := List.mem_map.mp he
  rw [dictKeyHash, dictKeyHash, keyText_node (hkeys r hr), keyText_node (h.keys r hr)]

theorem Shows.congr (h : Shows m ks x o) (hl : m'.live x = m.live x) (hx : m'.data x = m.data x)
    (hd : ∀ k ∈ ks, ∀ t, m.data k = some (.key t) → m'.data k = some (.key t)) :
    Shows m' ks x o := by
  cases h with
  | dead h₁ h₂ => exact .dead (hl.trans h₁) h₂
  | key h₁ h₂ h₃ => exact .key (hl.trans h₁) (hx.trans h₂) h₃
  | value h₁ h₂ h₃ => exact .value (hl.trans h₁) (hx.trans h₂) h₃
  | array h₁ h₂ h₃ => exact .array (hl.trans h₁) (hx.trans h₂) h₃
  | dict h₁ h₂ h₃ => exact .dict (hl.trans h₁) (hx.trans h₂) (h₃.congr hd)

theorem Shows.live (h : Shows m ks x (some v)) : m.live x = true := by
  cases h <;> assumption

theorem Shows.children (h : Shows m ks x (some v)) (hc : c ∈ v.children) : c ∈ ks := by
  cases h with
  | value h₁ h₂ h₃ => cases hc
  | array h₁ h₂ h₃ => exact hc
  | dict h₁ h₂ h₃ =>
    obtain ⟨e, he, rfl⟩ := List.mem_map.mp hc
    obtain ⟨r, hr, rfl⟩ := List.mem_map.mp he
    rw [h₃.kids]
    exact mem_nodesOf.mpr ⟨r, hr, Or.inr rfl⟩

theorem Shows.of_kids (h : Shows m ks x o) (hc : c ∈ ks) :
    ∃ v, o = some v ∧ (c ∈ v.children ∨ ∃ t, m.data c = some (.key t)) := by
  cases h with
  | dead h₁ h₂ => rw [h₂] at hc; cases hc
  | key h₁ h₂ h₃ => rw [h₃] at hc; cases hc
  | value h₁ h₂ h₃ => rw [h₃] at hc; cases hc
  | array h₁ h₂ h₃ => exact ⟨_, rfl, Or.inl hc⟩
  | dict h₁ h₂ h₃ =>
    refine ⟨_, rfl, ?_⟩
    rw [h₃.kids] at hc
    obtain ⟨r, hr, rfl | rfl⟩ := mem_nodesOf.mp hc
    · exact Or.inr ⟨_, h₃.keys r hr⟩
    · exact Or.inl (List.mem_map.mpr ⟨_, List.mem_map.mpr ⟨r, hr, rfl⟩, rfl⟩)

theorem Shows.not_key {t : CString} (h : Shows m ks x o) (hd : m.data x = some (.key t)) :
    o = none := by
  cases h with
  | dead h₁ h₂ => rfl
  | key h₁ h₂ h₃ => rfl
  | value h₁ h₂ h₃ => rw [hd] at h₂; cases h₂
  | array h₁ h₂ h₃ => rw [hd] at h₂; cases h₂
  | dict h₁ h₂ h₃ => rw [hd] at h₂; cases h₂

theorem discarded_of_not (h : ¬ Under s p x) : discarded s p x = s x := if_neg h

theorem discarded_none (h : s p = none) : discarded s p = s := by
  funext x
  by_cases hu : Under s p x
  · rw [discarded, if_pos hu]
    obtain rfl | ⟨c, ⟨v, hv, -⟩, -⟩ := (Relation.ReflTransGen.cases_head_iff).mp hu
    · exact h.symm
    · rw [h] at hv
      cases hv
  · exact discarded_of_not hu

theorem Holds.below_of_under (h : Holds X Y m s kids) (hX : ∀ x ∈ X, ¬ Below kids p x)
    (hu : Under s p x) : Below kids p x := by
  induction hu with
  | refl => exact .refl
  | tail hu hc ih =>
    obtain ⟨v, hv, hcv⟩ := hc
    have hsh := h.content _ fun hx => hX _ hx ih
    rw [hv] at hsh
    exact ih.tail (hsh.children hcv)

theorem Holds.under_of_below (h : Holds X Y m s kids) (hX : ∀ x ∈ X, ¬ Below kids p x)
    (hb : Below kids p x) (hx : s x ≠ none) : Under s p x := by
  induction hb with
  | refl => exact .refl
  | @tail y x hb hc ih =>
    obtain ⟨v, hv, hcv | ⟨t, ht⟩⟩ := (h.content y fun hy => hX y hy hb).of_kids hc
    · exact (ih (by rw [hv]; exact Option.some_ne_none v)).tail ⟨v, hv, hcv⟩
    · exact absurd ((h.content x fun hx' => hX x hx' (hb.tail hc)).not_key ht) hx

theorem Holds.mono {X' Y' : Set α} (h : Holds X Y m s kids) (hX : X ⊆ X') (hY : Y ⊆ Y') :
    Holds X' Y' m s kids where
  forest := h.forest
  rooted c p hc := h.rooted c p fun hm => hc (hY hm)
  acyclic := h.acyclic
  dead := h.dead
  content x hx := h.content x fun hm => hx (hX hm)
  exist x hx := h.exist x fun hm => hx (hX hm)

end Contents

section Changes

variable [DecidableEq α] {m m' : Plist α β} {kids : α → List α} {s : Values α β} {a c p : α}
  {ys zs : List α} {v : Content α β}

theorem update_sub (hk : kids a = ys ++ c :: zs) (q d : α)
    (hd : d ∈ Function.update kids a (ys ++ zs) q) : d ∈ kids q := by
  by_cases hq : q = a
  · rw [hq, Function.update_self] at hd
    rw [hq, hk]
    exact List.mem_append.mpr ((List.mem_append.mp hd).imp_right (List.mem_cons_of_mem c))
  · rw [Function.update_of_ne hq] at hd
    exact hd

theorem Holds.orphan (h : Holds {a} ∅ m s kids) (ha : m.live a = true)
    (hk : kids a = ys ++ c :: zs) :
    Holds {a} {c} (orphan m a ys zs) s (Function.update kids a (ys ++ zs)) := by
  refine ⟨h.forest.orphan ha hk, fun d p hd hl hp => ?_, fun p => ?_, fun x hx => ?_,
    fun x hx => ?_, h.exist⟩
  · obtain ⟨hlp, hdp⟩ := h.rooted d p (Set.notMem_empty d) hl hp
    refine ⟨hlp, ?_⟩
    by_cases hq : p = a
    · rw [hq, Function.update_self]
      rw [hq, hk] at hdp
      have hdc : d ≠ c := hd
      simpa [hdc] using hdp
    · rw [Function.update_of_ne hq]
      exact hdp
  · exact Subrelation.accessible (fun {d q} hd => update_sub hk q d hd) (h.acyclic p)
  · have hxa : x ≠ a := by
      rintro rfl
      rw [orphan_live, ha] at hx
      cases hx
    rw [Function.update_of_ne hxa]
    exact h.dead x hx
  · have hxa : x ≠ a := hx
    rw [Function.update_of_ne hxa]
    exact (h.content x hx).congr rfl rfl fun _ _ _ ht => ht

open Classical in
noncomputable def without (kids : α → List α) (c : α) : α → List α :=
  fun x => if Below kids c x then [] else kids x

omit [DecidableEq α] in
theorem without_sub (q d : α) (h : d ∈ without kids c q) : d ∈ kids q := by
  rw [without] at h
  split at h
  · cases h
  · exact h

omit [DecidableEq α] in
theorem Holds.cleared {X : Set α} (h : Holds X {c} m s kids) (hX : ∀ x ∈ X, ¬ Below kids c x)
    (hc : m.live c = true) (hf : ∀ q, m.live q = true → c ∉ kids q)
    (hcl : Cleared {x | Below kids c x} m m') : Holds X ∅ m' (discarded s c) (without kids c) := by
  have hlive : ∀ x, m'.live x = true → ¬ Below kids c x ∧ m.live x = true := fun x hx =>
    ⟨hcl.live hx, (congrArg Cell.live (hcl.kept x (hcl.live hx))).symm.trans hx⟩
  have hkid : ∀ x, m.live x = true → ¬ Below kids c x → ∀ d ∈ kids x, ¬ Below kids c d :=
    fun x hx hb d hd => not_below_kid h.forest (fun _ _ => rfl) hc hx (hf x hx) hb hd
  have hwith : ∀ x, ¬ Below kids c x → without kids c x = kids x := fun x hx => if_neg hx
  refine ⟨?_, fun d p _ hl hp => ?_, fun p => ?_, fun x hx => ?_, fun x hx => ?_,
    fun x hx v hv d hd => ?_⟩
  · refine forest_congr (forest_restrict h.forest (fun x hx => hcl.kept x (hcl.live hx))
      fun x hx d hd => ?_) fun x hx => hwith x (hcl.live hx)
    obtain ⟨hb, hlx⟩ := hlive x hx
    exact (congrArg Cell.live (hcl.kept d (hkid x hlx hb d hd))).trans
      ((h.forest.chained x hlx).live d hd)
  · obtain ⟨hb, hld⟩ := hlive d hl
    have hdc : d ≠ c := fun hdc => hb (hdc ▸ .refl)
    have hp' : m.parent d = some p := (congrArg Cell.parent (hcl.kept d hb)).symm.trans hp
    obtain ⟨hlp, hdp⟩ := h.rooted d p hdc hld hp'
    have hbp : ¬ Below kids c p := fun hbp => hb (hbp.tail hdp)
    rw [hwith p hbp]
    exact ⟨(congrArg Cell.live (hcl.kept p hbp)).trans hlp, hdp⟩
  · exact Subrelation.accessible (fun {d q} hd => without_sub q d hd) (h.acyclic p)
  · by_cases hb : Below kids c x
    · exact if_pos hb
    · rw [hwith x hb]
      exact h.dead x ((congrArg Cell.live (hcl.kept x hb)).symm.trans hx)
  · by_cases hb : Below kids c x
    · have hn : discarded s c x = none := by
        by_cases hs : s x = none
        · rw [discarded, hs, ite_self]
        · exact if_pos (h.under_of_below hX hb hs)
      rw [hn, without, if_pos hb]
      exact .dead (hcl.gone x hb) rfl
    · have hs : discarded s c x = s x := discarded_of_not fun hu => hb (h.below_of_under hX hu)
      have hcell := hcl.kept x hb
      rw [hs, hwith x hb]
      refine (h.content x hx).congr (congrArg Cell.live hcell) (congrArg Cell.data hcell)
        fun k hk t ht => ?_
      cases hl : m.live x with
      | false =>
        rw [h.dead x hl] at hk
        cases hk
      | true => exact (congrArg Cell.data (hcl.kept k (hkid x hl hb k hk))).trans ht
  · have hu : ¬ Under s c x := fun hu => by
      rw [discarded, if_pos hu] at hv
      cases hv
    rw [discarded_of_not hu] at hv
    have hsh := h.content x hx
    rw [hv] at hsh
    have hb : ¬ Below kids c x := fun hb =>
      hu (h.under_of_below hX hb (by rw [hv]; exact Option.some_ne_none v))
    have hud : ¬ Under s c d := fun hud =>
      hkid x hsh.live hb d (hsh.children hd) (h.below_of_under hX hud)
    rw [discarded_of_not hud]
    exact h.exist x hx v hv d hd

theorem acc_insert (h : ∀ p, Acc (fun c q => c ∈ kids q) p) (hk : kids a = ys ++ zs)
    (hb : ¬ Below kids c a) (p : α) :
    Acc (fun d q => d ∈ Function.update kids a (ys ++ c :: zs) q) p := by
  have hoff : ∀ q, ¬ Below kids q a →
      Acc (fun d q => d ∈ Function.update kids a (ys ++ c :: zs) q) q := by
    intro q
    induction h q with
    | intro q _ ih =>
      intro hq
      have hqa : q ≠ a := fun hqa => hq (hqa ▸ .refl)
      refine ⟨q, fun d hd => ?_⟩
      rw [Function.update_of_ne hqa] at hd
      exact ih d hd fun hda => hq (hda.head hd)
  induction h p with
  | intro p _ ih =>
    refine ⟨p, fun d hd => ?_⟩
    by_cases hpa : p = a
    · rw [hpa, Function.update_self] at hd
      by_cases hdc : d = c
      · exact hdc ▸ hoff c hb
      · refine ih d ?_
        rw [hpa, hk]
        simpa [hdc] using hd
    · rw [Function.update_of_ne hpa] at hd
      exact ih d hd

omit [DecidableEq α] in
theorem Holds.root {X Y : Set α} (h : Holds X Y m s kids) (hp : m.parent c = none) (q : α)
    (hq : m.live q = true) : c ∉ kids q := by
  intro hc
  rw [h.forest.parent q hq c hc] at hp
  cases hp

theorem Holds.adopt (h : Holds {a} ∅ m s kids) (ha : m.live a = true) (hc : m.live c = true)
    (hp : m.parent c = none) (hb : ¬ Below kids c a) (hk : kids a = ys ++ zs) :
    Holds {a} ∅ (adopt m a ys c zs) s (Function.update kids a (ys ++ c :: zs)) := by
  refine ⟨h.forest.adopt ha hc hk (h.root hp), fun d p _ hl hdp => ?_,
    acc_insert h.acyclic hk hb, fun x hx => ?_, fun x hx => ?_, h.exist⟩
  · rw [adopt_parent] at hdp
    by_cases hdc : d = c
    · rw [hdc, Function.update_self] at hdp
      cases hdp
      rw [Function.update_self]
      exact ⟨ha, hdc ▸ List.mem_append_right ys List.mem_cons_self⟩
    · rw [Function.update_of_ne hdc] at hdp
      obtain ⟨hlp, hd⟩ := h.rooted d p (Set.notMem_empty d) hl hdp
      refine ⟨hlp, ?_⟩
      by_cases hpa : p = a
      · rw [hpa, Function.update_self]
        rw [hpa, hk] at hd
        exact List.mem_append.mpr ((List.mem_append.mp hd).imp_right (List.mem_cons_of_mem c))
      · rw [Function.update_of_ne hpa]
        exact hd
  · have hxa : x ≠ a := by
      rintro rfl
      rw [adopt_live, ha] at hx
      cases hx
    rw [Function.update_of_ne hxa]
    exact h.dead x hx
  · have hxa : x ≠ a := hx
    rw [Function.update_of_ne hxa]
    exact (h.content x hx).congr rfl rfl fun _ _ _ ht => ht

theorem Holds.setData {d : Option (Data α β)} (h : Holds {a} ∅ m s kids)
    (hk : ∀ t, m.data a ≠ some (.key t)) : Holds {a} ∅ (m.setData a d) s kids where
  forest := h.forest.setData
  rooted := h.rooted
  acyclic := h.acyclic
  dead := h.dead
  exist := h.exist
  content x hx := by
    have hxa : x ≠ a := hx
    refine (h.content x hx).congr rfl ?_ fun k _ t ht => ?_
    · rw [data_setData, Function.update_of_ne hxa]
    · have hka : k ≠ a := fun hka => hk t (hka ▸ ht)
      rw [data_setData, Function.update_of_ne hka, ht]

/-- All is said again once the contents of the node are. -/
theorem Holds.close (h : Holds {a} ∅ m s kids) (hs : Shows m (kids a) a (some v))
    (hv : ∀ c ∈ v.children, s c ≠ none) :
    Holds ∅ ∅ m (Function.update s a (some v)) kids := by
  have hsome : ∀ c, s c ≠ none → Function.update s a (some v) c ≠ none := by
    intro c hc
    by_cases hca : c = a
    · rw [hca, Function.update_self]
      exact Option.some_ne_none v
    · rw [Function.update_of_ne hca]
      exact hc
  refine ⟨h.forest, h.rooted, h.acyclic, h.dead, fun x _ => ?_, fun x _ w hw c hc => ?_⟩
  · by_cases hxa : x = a
    · rw [hxa, Function.update_self]
      exact hs
    · rw [Function.update_of_ne hxa]
      exact h.content x hxa
  · refine hsome c ?_
    by_cases hxa : x = a
    · rw [hxa, Function.update_self] at hw
      cases hw
      exact hv c hc
    · rw [Function.update_of_ne hxa] at hw
      exact h.exist x hxa w hw c hc

section New

variable {d : Data α β}

theorem cell_new {x : α} (hx : x ≠ p) : cell (plistNewNode p d m) x = cell m x := by
  simp only [cell, plistNewNode, nodeCreate, Memory.setData, Memory.calloc,
    Function.update_of_ne hx]

theorem cell_new_self :
    cell (plistNewNode p d m) p = ⟨true, none, none, 0, some d, none, none⟩ := by
  simp only [cell, plistNewNode, nodeCreate, Memory.setData, Memory.calloc, Function.update_self]

omit [DecidableEq α] in
theorem Holds.fresh {X Y : Set α} (h : Holds X Y m s kids) (hp : m.live p = false) {x : α} :
    p ∉ kids x := by
  intro hpx
  cases hx : m.live x with
  | false =>
    rw [h.dead x hx] at hpx
    cases hpx
  | true =>
    rw [(h.forest.chained x hx).live p hpx] at hp
    cases hp

omit [DecidableEq α] in
theorem Holds.fresh_none {Y : Set α} (h : Holds ∅ Y m s kids) (hp : m.live p = false) :
    s p = none := by
  cases hs : s p with
  | none => rfl
  | some v =>
    have hsh := h.content p (Set.notMem_empty p)
    rw [hs] at hsh
    rw [hsh.live] at hp
    cases hp

theorem forest_new (h : Forest m kids) (hkp : kids p = []) (hp : ∀ x c, c ∈ kids x → c ≠ p) :
    Forest (plistNewNode p d m) kids := by
  have hself := @cell_new_self α β _ m p d
  have hne : ∀ {x c}, c ∈ kids x → c ≠ p := fun hc => hp _ _ hc
  have hcell : ∀ {x}, x ≠ p → cell (plistNewNode p d m) x = cell m x := fun hx => cell_new hx
  have hlive : ∀ {x}, x ≠ p → (plistNewNode p d m).live x = m.live x := fun hx =>
    congrArg Cell.live (hcell hx)
  constructor
  · intro x hx
    by_cases hxp : x = p
    · rw [hxp, hkp]
      exact ⟨trivial, List.nodup_nil, fun y hy => absurd hy List.not_mem_nil⟩
    · have hch := h.chained x ((hlive hxp).symm.trans hx)
      exact ⟨hch.linked.congr (fun c hc => congrArg Cell.next (hcell (hne hc)))
        (fun c hc => congrArg Cell.prev (hcell (hne hc))), hch.nodup,
        fun c hc => (hlive (hne hc)).trans (hch.live c hc)⟩
  · intro x hx c hc
    have hxp : x ≠ p := by
      rintro rfl
      rw [hkp] at hc
      cases hc
    exact (congrArg Cell.parent (hcell (hne hc))).trans
      (h.parent x ((hlive hxp).symm.trans hx) c hc)
  · intro x hx
    by_cases hxp : x = p
    · rw [hxp, hkp, childrenOf, show (plistNewNode p d m).children p = none from
        congrArg Cell.children hself]
      rfl
    · rw [childrenOf, show (plistNewNode p d m).children x = m.children x from
        congrArg Cell.children (hcell hxp)]
      exact h.list x ((hlive hxp).symm.trans hx)
  · intro x hx
    by_cases hxp : x = p
    · rw [hxp, hkp]
      exact congrArg Cell.count hself
    · exact (congrArg Cell.count (hcell hxp)).trans
        (h.count x ((hlive hxp).symm.trans hx))

theorem Holds.new {o : Option (Content α β)} (h : Holds ∅ ∅ m s kids) (hp : m.live p = false)
    (hs : Shows (plistNewNode p d m) [] p o) (ho : ∀ v, o = some v → v.children = []) :
    Holds ∅ ∅ (plistNewNode p d m) (Function.update s p o) kids := by
  have hkp := h.dead p hp
  have hsp := h.fresh_none hp
  have hself := @cell_new_self α β _ m p d
  have hne : ∀ {x c}, c ∈ kids x → c ≠ p := fun hc hcp => h.fresh hp (hcp ▸ hc)
  have hcell : ∀ {x}, x ≠ p → cell (plistNewNode p d m) x = cell m x := fun hx => cell_new hx
  have hlive : ∀ {x}, x ≠ p → (plistNewNode p d m).live x = m.live x := fun hx =>
    congrArg Cell.live (hcell hx)
  refine ⟨forest_new h.forest hkp fun x c => hne, fun c q _ hc hq => ?_, h.acyclic, fun x hx => ?_, fun x _ => ?_,
    fun x _ v hv c hc => ?_⟩
  · by_cases hcp : c = p
    · rw [hcp, show (plistNewNode p d m).parent p = none from congrArg Cell.parent hself] at hq
      cases hq
    · obtain ⟨hlq, hcq⟩ := h.rooted c q (Set.notMem_empty c) ((hlive hcp).symm.trans hc)
        ((congrArg Cell.parent (hcell hcp)).symm.trans hq)
      have hqp : q ≠ p := by
        rintro rfl
        rw [hlq] at hp
        cases hp
      exact ⟨(hlive hqp).trans hlq, hcq⟩
  · by_cases hxp : x = p
    · rw [hxp, hkp]
    · exact h.dead x ((hlive hxp).symm.trans hx)
  · by_cases hxp : x = p
    · rw [hxp, Function.update_self, hkp]
      exact hs
    · rw [Function.update_of_ne hxp]
      exact (h.content x (Set.notMem_empty x)).congr (hlive hxp)
        (congrArg Cell.data (hcell hxp)) fun k hk t ht =>
          (congrArg Cell.data (hcell (hne hk))).trans ht
  · by_cases hxp : x = p
    · rw [hxp, Function.update_self] at hv
      rw [ho v hv] at hc
      cases hc
    · rw [Function.update_of_ne hxp] at hv
      have hsc := h.exist x (Set.notMem_empty x) v hv c hc
      have hcp : c ≠ p := fun hcp => hsc (hcp ▸ hsp)
      rw [Function.update_of_ne hcp]
      exact hsc

end New

end Changes

end UnBoxer.PlistValues
