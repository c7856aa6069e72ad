import UnBoxer.NodeLists
import Mathlib.Logic.Relation
import Mathlib.Data.Set.Basic

namespace UnBoxer.PlistNodes

open UnBoxer.Chains UnBoxer.Fuel UnBoxer.NodeLists

variable {α δ : Type} [DecidableEq α]

mutual

/-- `plist_free_node`: the index that the node had in its parent, or nothing (`-1`). -/
def plistFreeNode : ℕ → α → Memory α δ → Option (Option ℕ × Memory α δ)
  | 0, _, _ => none
  | fuel + 1, node, m => do
    let node ← m.deref (some node)
    let (nodeIndex, m) ← nodeDetach fuel (m.parent node) node m
    let m := m.setData node none
    let ch ← nodeFirstChild m node
    let m ← freeChildren fuel ch m
    let m ← nodeDestroy fuel node m
    some (nodeIndex, m)

/-- The loop of `plist_free_node`, from the child `ch` on. -/
def freeChildren : ℕ → Option α → Memory α δ → Option (Memory α δ)
  | 0, _, _ => none
  | _ + 1, none, m => some m
  | fuel + 1, some ch, m => do
    let next ← nodeNextSibling m (some ch)
    let (_, m) ← plistFreeNode fuel ch m
    freeChildren fuel next m

end

structure Cell (α δ : Type) where
  live : Bool
  next : Option α
  prev : Option α
  count : ℕ
  data : Option δ
  parent : Option α
  children : Option (NodeList α)

def cell (m : Memory α δ) (x : α) : Cell α δ :=
  ⟨m.live x, m.next x, m.prev x, m.count x, m.data x, m.parent x, m.children x⟩

section Cells

variable {m m' m'' : Memory α δ} {kids kids' : α → List α} {S T : Set α} {p q c x : α}

/-- The nodes in `S` are gone, and nothing else has changed. -/
structure Cleared (S : Set α) (m m' : Memory α δ) : Prop where
  gone : ∀ x ∈ S, m'.live x = false
  kept : ∀ x ∉ S, cell m' x = cell m x

omit [DecidableEq α] in
theorem forest_restrict (h : Forest m kids) (hl : ∀ x, m'.live x = true → cell m' x = cell m x)
    (hk : ∀ x, m'.live x = true → ∀ c ∈ kids x, m'.live c = true) : Forest m' kids := by
  have hlive : ∀ x, m'.live x = true → m.live x = true := fun x hx =>
    (congrArg Cell.live (hl x hx)).symm.trans hx
  constructor
  · intro x hx
    have hch := h.chained x (hlive x hx)
    refine ⟨hch.linked.congr (fun c hc => ?_) (fun c hc => ?_), hch.nodup, hk x hx⟩
    · exact congrArg Cell.next (hl c (hk x hx c hc))
    · exact congrArg Cell.prev (hl c (hk x hx c hc))
  · intro x hx c hc
    exact (congrArg Cell.parent (hl c (hk x hx c hc))).trans (h.parent x (hlive x hx) c hc)
  · intro x hx
    have hc : m'.children x = m.children x := congrArg Cell.children (hl x hx)
    rw [childrenOf, hc]
    exact h.list x (hlive x hx)
  · intro x hx
    exact (congrArg Cell.count (hl x hx)).trans (h.count x (hlive x hx))

omit [DecidableEq α] in
theorem Cleared.live (h : Cleared S m m') (hx : m'.live x = true) : x ∉ S := by
  intro hS
  rw [h.gone x hS] at hx
  cases hx

def Below (kids : α → List α) (p x : α) : Prop :=
  Relation.ReflTransGen (fun q c => c ∈ kids q) p x

omit [DecidableEq α] in
theorem below_iff : Below kids p x ↔ x = p ∨ ∃ c ∈ kids p, Below kids c x := by
  rw [Below, Relation.ReflTransGen.cases_head_iff]
  exact or_congr eq_comm Iff.rfl

omit [DecidableEq α] in
theorem below_mono (h : ∀ q d, d ∈ kids' q → d ∈ kids q) (hb : Below kids' c x) :
    Below kids c x :=
  Relation.ReflTransGen.mono h _ _ hb

omit [DecidableEq α] in
theorem not_below (ha : Acc (fun c q => c ∈ kids q) p) (hc : c ∈ kids p) : ¬ Below kids c p := by
  induction ha generalizing c with
  | intro p _ ih =>
    intro hb
    obtain rfl | ⟨d, hd, hdp⟩ := below_iff.mp hb
    · exact ih p hc hc .refl
    · exact ih c hc hd (hdp.tail hc)

omit [DecidableEq α] in
theorem live_below (h : Forest m kids') (hk : ∀ x, Below kids p x → kids' x = kids x)
    (hp : m.live p = true) (hx : Below kids p x) : m.live x = true := by
  induction hx with
  | refl => exact hp
  | tail hb hc ih =>
    rw [← hk _ hb] at hc
    exact (h.chained _ ih).live _ hc

omit [DecidableEq α] in
theorem not_below_kid (h : Forest m kids') (hk : ∀ x, Below kids p x → kids' x = kids x)
    (hp : m.live p = true) (hq : m.live q = true) (hpq : p ∉ kids' q) (hb : ¬ Below kids p q)
    (hc : c ∈ kids' q) : ¬ Below kids p c := by
  intro hpc
  obtain rfl | ⟨y, hpy, hcy⟩ := (Relation.ReflTransGen.cases_tail_iff _ _ _).mp hpc
  · exact hpq hc
  · rw [← hk y hpy] at hcy
    exact hb (h.kids_eq hq (live_below h hk hp hpy) hc hcy ▸ hpy)

omit [DecidableEq α] in
theorem forest_congr (h : Forest m kids) (hk : ∀ x, m.live x = true → kids' x = kids x) :
    Forest m kids' := by
  constructor
  · exact fun x hx => (hk x hx).symm ▸ h.chained x hx
  · exact fun x hx => (hk x hx).symm ▸ h.parent x hx
  · exact fun x hx => (hk x hx).symm ▸ h.list x hx
  · exact fun x hx => (hk x hx).symm ▸ h.count x hx

theorem cell_orphan {ys zs : List α} (hp : x ≠ p)
    (hy : ys.getLast? ≠ some x) (hz : zs.head? ≠ some x) :
    cell (orphan m p ys zs) x = cell m x := by
  have hn : (orphan m p ys zs).next x = m.next x :=
    relink_of_ne fun y hy' hxy => hy (hxy ▸ hy')
  have hv : (orphan m p ys zs).prev x = m.prev x :=
    relink_of_ne fun z hz' hxz => hz (hxz ▸ hz')
  simp only [cell, hn, hv, orphan_live, orphan_count, orphan_data, orphan_parent, orphan_children,
    Function.update_of_ne hp]

end Cells

section Free

variable {m m₁ : Memory α δ} {kids kids₁ : α → List α} {p : α}

/-- Freeing the children of `p`, when each of them can be freed. -/
theorem freeChildren_spec (ha : Acc (fun c q => c ∈ kids q) p)
    (ih : ∀ c ∈ kids p, ∀ (m m₁ : Memory α δ) (kids₁ : α → List α) (i : Option ℕ),
      Returns (fun fuel => nodeDetach fuel (m.parent c) c m) (i, m₁) → Forest m₁ kids₁ →
      (∀ x, Below kids c x → kids₁ x = kids x) → m₁.live c = true → m.live c = true →
      ∃ m', Returns (fun fuel => plistFreeNode fuel c m) (i, m') ∧
        Cleared {x | Below kids c x} m₁ m')
    (cs : List α) (hcs : ∀ c ∈ cs, c ∈ kids p) (hf : Forest m kids₁) (hp : m.live p = true)
    (hkp : kids₁ p = cs) (hk : ∀ c ∈ cs, ∀ x, Below kids c x → kids₁ x = kids x) :
    ∃ m', Returns (fun fuel => freeChildren fuel cs.head? m) m' ∧
      (∀ c ∈ cs, ∀ x, Below kids c x → m'.live x = false) ∧
      (∀ x, x ≠ p → (∀ c ∈ cs, ¬ Below kids c x) → cell m' x = cell m x) ∧
      m'.live p = true ∧ Forest m' (Function.update kids₁ p []) := by
  induction cs generalizing m kids₁ with
  | nil =>
    refine ⟨m, Returns.of_succ (returns_of_eq fun _ => rfl), by simp, fun _ _ _ => rfl, hp, ?_⟩
    rw [← hkp, Function.update_eq_self]
    exact hf
  | cons c cs hrest =>
    have hc : c ∈ kids p := hcs c List.mem_cons_self
    have hcs' : ∀ d ∈ cs, d ∈ kids p := fun d hd => hcs d (List.mem_cons_of_mem c hd)
    have hch := hf.chained p hp
    rw [hkp] at hch
    have hlc : m.live c = true := hch.live c List.mem_cons_self
    have hpar : m.parent c = some p := hf.parent p hp c (hkp ▸ List.mem_cons_self)
    have hpc : ¬ Below kids c p := not_below ha hc
    -- the child leaves the list before its own children are freed
    have hd := @nodeDetach_spec _ _ _ m kids₁ p c [] cs hf hp hkp
    rw [← hpar] at hd
    have hf₁ : Forest (orphan m p [] cs) (Function.update kids₁ p cs) :=
      @Forest.orphan _ _ _ m kids₁ p c [] cs hf hp hkp
    have hk₁ : ∀ d, ¬ Below kids d p → ∀ x, Below kids d x →
        Function.update kids₁ p cs x = kids₁ x := by
      intro d hd x hx
      have hxp : x ≠ p := fun hxp => hd (hxp ▸ hx)
      exact Function.update_of_ne hxp cs kids₁
    have hkc : ∀ x, Below kids c x → Function.update kids₁ p cs x = kids x := fun x hx =>
      (hk₁ c hpc x hx).trans (hk c List.mem_cons_self x hx)
    obtain ⟨m₂, hr, hcl⟩ := ih c hc m _ _ _ hd hf₁ hkc hlc hlc
    have hlive : ∀ x, m₂.live x = true → m.live x = true := fun x hx =>
      (congrArg Cell.live (hcl.kept x (hcl.live hx))).symm.trans hx
    have hf₂ : Forest m₂ (Function.update kids₁ p cs) := by
      refine forest_restrict hf₁ (fun x hx => hcl.kept x (hcl.live hx)) fun x hx d hdx => ?_
      have hcx : c ∉ Function.update kids₁ p cs x := by
        by_cases hxp : x = p
        · rw [hxp, Function.update_self]
          exact (List.nodup_cons.mp hch.nodup).1
        · rw [Function.update_of_ne hxp]
          exact fun hin => hxp (hf.kids_eq (hlive x hx) hp hin (hkp ▸ List.mem_cons_self))
      have hcd := not_below_kid hf₁ hkc hlc (hlive x hx) hcx (hcl.live hx) hdx
      exact (congrArg Cell.live (hcl.kept d hcd)).trans ((hf₁.chained x (hlive x hx)).live d hdx)
    have hp₂ : m₂.live p = true := (congrArg Cell.live (hcl.kept p hpc)).trans hp
    obtain ⟨m', hr', hgone, hkept, hp', hf'⟩ := hrest hcs' hf₂ hp₂ (Function.update_self p cs kids₁)
      (fun d hd x hx => (hk₁ d (not_below ha (hcs' d hd)) x hx).trans
        (hk d (List.mem_cons_of_mem c hd) x hx))
    refine ⟨m', ?_, ?_, ?_, hp', ?_⟩
    · refine Returns.of_succ ((hr.bind (g := fun fuel r => freeChildren fuel cs.head? r.2) hr').congr
        fun fuel => ?_)
      rw [List.head?_cons, freeChildren, nodeNextSibling_live hlc, hch.linked.next_cons]
      rfl
    · intro d hd x hx
      by_cases hin : ∃ e ∈ cs, Below kids e x
      · obtain ⟨e, he, hex⟩ := hin
        exact hgone e he x hex
      · obtain rfl | hd := List.mem_cons.mp hd
        · have hxp : x ≠ p := fun hxp => hpc (hxp ▸ hx)
          have hcell := hkept x hxp fun e he hex => hin ⟨e, he, hex⟩
          exact (congrArg Cell.live hcell).trans (hcl.gone x hx)
        · exact absurd ⟨d, hd, hx⟩ hin
    · intro x hxp hx
      have hxc : x ∉ cs := fun hm => hx x (List.mem_cons_of_mem c hm) .refl
      rw [hkept x hxp fun d hd => hx d (List.mem_cons_of_mem c hd),
        hcl.kept x (hx c List.mem_cons_self)]
      exact cell_orphan hxp (Option.some_ne_none x).symm fun hz => hxc (List.mem_of_head? hz)
    · rw [Function.update_idem] at hf'
      exact hf'

theorem nodeDestroy_spec (hp : m.live p = true) (hl : childrenOf m p = listOf []) :
    Returns (fun fuel => nodeDestroy fuel p m) ((m.setChildren p none).free p) := by
  refine Returns.of_succ (returns_of_eq fun fuel => ?_)
  rw [childrenOf] at hl
  cases hm : m.children p with
  | none =>
    rw [nodeDestroy, deref_live hp]
    simp [hm]
  | some l =>
    rw [hm] at hl
    have hc : ¬ 0 < l.count := by
      rw [Option.getD_some] at hl
      rw [hl]
      exact Nat.lt_irrefl 0
    rw [nodeDestroy, deref_live hp]
    simp [hm, hc]

/-- Once a node has left its parent, it is freed with all that stands below it, and nothing else
changes. -/
theorem plistFreeNode_spec (ha : Acc (fun c q => c ∈ kids q) p) :
    ∀ (m m₁ : Memory α δ) (kids₁ : α → List α) (i : Option ℕ),
      Returns (fun fuel => nodeDetach fuel (m.parent p) p m) (i, m₁) → Forest m₁ kids₁ →
      (∀ x, Below kids p x → kids₁ x = kids x) → m₁.live p = true → m.live p = true →
      ∃ m', Returns (fun fuel => plistFreeNode fuel p m) (i, m') ∧
        Cleared {x | Below kids p x} m₁ m' := by
  induction ha with
  | intro p ha ih =>
    intro m m₁ kids₁ i hd hf hk hp₁ hp
    have hacc : Acc (fun c q => c ∈ kids q) p := ⟨p, ha⟩
    have hf' : Forest (m₁.setData p none) kids₁ := hf.setData
    have hkp : kids₁ p = kids p := hk p .refl
    obtain ⟨m₂, hr, hgone, hkept, hp₂, hf₂⟩ := freeChildren_spec hacc ih (kids p) (fun _ h => h) hf'
      hp₁ hkp (fun c hc x hx => hk x (hx.head hc))
    have hl₂ : childrenOf m₂ p = listOf [] := by
      have hl := hf₂.list p hp₂
      rw [Function.update_self] at hl
      exact hl
    have hdes := nodeDestroy_spec hp₂ hl₂
    refine ⟨(m₂.setChildren p none).free p, ?_, ?_, ?_⟩
    · have hfirst : nodeFirstChild (m₁.setData p none) p = some (kids p).head? := by
        rw [nodeFirstChild_spec hf' hp₁, hkp]
      have hrest : Returns (fun fuel => (freeChildren fuel (kids p).head?
          (m₁.setData p none)).bind fun m => (nodeDestroy fuel p m).bind fun m => some (i, m))
          (i, (m₂.setChildren p none).free p) :=
        hr.bind (hdes.bind (g := fun _ m => some (i, m)) (returns_of_eq fun _ => rfl))
      refine Returns.of_succ (hd.after hrest fun fuel hdf => ?_)
      rw [plistFreeNode, deref_live hp]
      simp only [Option.bind_eq_bind, Option.bind_some, hdf, hfirst]
    · intro x hx
      by_cases hxp : x = p
      · rw [hxp]
        exact Function.update_self p false m₂.live
      · obtain rfl | ⟨c, hc, hcx⟩ := below_iff.mp hx
        · exact absurd rfl hxp
        · exact (Function.update_of_ne hxp false m₂.live).trans (hgone c hc x hcx)
    · intro x hx
      have hxp : x ≠ p := fun hxp => hx (hxp ▸ .refl)
      have hcell := hkept x hxp fun c hc hcx => hx (hcx.head hc)
      have h₁ : cell ((m₂.setChildren p none).free p) x = cell m₂ x := by
        simp only [cell, Memory.free, Memory.setChildren, Function.update_of_ne hxp]
      have h₂ : cell (m₁.setData p none) x = cell m₁ x := by
        simp only [cell, Memory.setData, Function.update_of_ne hxp]
      rw [h₁, hcell, h₂]

end Free

end UnBoxer.PlistNodes
