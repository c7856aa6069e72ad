import UnBoxer.Chains
import UnBoxer.Fuel

namespace UnBoxer.NodeLists

open UnBoxer.Chains UnBoxer.Fuel

/-- A list of nodes: `begin` and `end` of the source are `first` and `last` here. -/
structure NodeList (α : Type) where
  first : Option α
  last : Option α
  count : ℕ

/-- The memory that holds the nodes, one function for each field of theirs. A list of nodes
belongs to one node and is kept with it. -/
structure Memory (α δ : Type) where
  live : α → Bool
  next : α → Option α
  prev : α → Option α
  count : α → ℕ
  data : α → Option δ
  parent : α → Option α
  children : α → Option (NodeList α)

variable {α δ : Type} [DecidableEq α]

namespace Memory

/-- The node behind a pointer. There is none behind `NULL`, nor where it has been freed. -/
def deref (m : Memory α δ) : Option α → Option α
  | none => none
  | some p => if m.live p then some p else none

def setNext (m : Memory α δ) (p : α) (q : Option α) : Memory α δ :=
  { m with next := Function.update m.next p q }

def setPrev (m : Memory α δ) (p : α) (q : Option α) : Memory α δ :=
  { m with prev := Function.update m.prev p q }

def setCount (m : Memory α δ) (p : α) (n : ℕ) : Memory α δ :=
  { m with count := Function.update m.count p n }

def setData (m : Memory α δ) (p : α) (d : Option δ) : Memory α δ :=
  { m with data := Function.update m.data p d }

def setParent (m : Memory α δ) (p : α) (q : Option α) : Memory α δ :=
  { m with parent := Function.update m.parent p q }

def setChildren (m : Memory α δ) (p : α) (l : Option (NodeList α)) : Memory α δ :=
  { m with children := Function.update m.children p l }

def calloc (m : Memory α δ) (p : α) : Memory α δ where
  live := Function.update m.live p true
  next := Function.update m.next p none
  prev := Function.update m.prev p none
  count := Function.update m.count p 0
  data := Function.update m.data p none
  parent := Function.update m.parent p none
  children := Function.update m.children p none

def free (m : Memory α δ) (p : α) : Memory α δ :=
  { m with live := Function.update m.live p false }

end Memory

def nodeListCreate : NodeList α := ⟨none, none, 0⟩

def nodeListAdd (list : NodeList α) (node : α) (m : Memory α δ) :
    Option (NodeList α × Memory α δ) := do
  let node ← m.deref (some node)
  let m := (m.setNext node none).setPrev node list.last
  match list.last with
  | some last =>
    let last ← m.deref (some last)
    some (⟨list.first, some node, list.count + 1⟩, m.setNext last (some node))
  | none => some (⟨some node, some node, list.count + 1⟩, m)

/-- The loop of `node_list_insert`: `prev` and `cur` after so many steps. -/
def walk (m : Memory α δ) : ℕ → Option α → Option α → Option (Option α × Option α)
  | 0, prev, cur => some (prev, cur)
  | pos + 1, _, cur => do
    let c ← m.deref cur
    walk m pos (some c) (m.next c)

def nodeListInsert (list : NodeList α) (nodeIndex : ℕ) (node : α) (m : Memory α δ) :
    Option (NodeList α × Memory α δ) := do
  if list.count ≤ nodeIndex then
    nodeListAdd list node m
  else
    let (prev, _) ← walk m nodeIndex none list.first
    let node ← m.deref (some node)
    let (list, m) ← match prev with
      | some prev => do
        let prev ← m.deref (some prev)
        let m := m.setPrev node (some prev)
        let m := m.setNext node (m.next prev)
        some (list, m.setNext prev (some node))
      | none =>
        let m := m.setPrev node none
        some ({ list with first := some node }, m.setNext node list.first)
    let (list, m) ← match m.next node with
      | none => some ({ list with last := some node }, m)
      | some next => do
        let next ← m.deref (some next)
        some (list, m.setPrev next (some node))
    some ({ list with count := list.count + 1 }, m)

/-- What `node_list_remove` does once it has found the node. -/
def unlink (list : NodeList α) (node : α) (m : Memory α δ) :
    Option (NodeList α × Memory α δ) := do
  let newnode := m.next node
  let (list, m) ← match m.prev node with
    | some prev => do
      let prev ← m.deref (some prev)
      let m := m.setNext prev newnode
      match newnode with
      | some newnode => do
        let newnode ← m.deref (some newnode)
        some (list, m.setPrev newnode (some prev))
      | none => some ({ list with last := some prev }, m)
    | none => do
      match newnode with
      | some newnode => do
        let newnode ← m.deref (some newnode)
        some ({ list with first := some newnode }, m.setPrev newnode none)
      | none => some ({ list with first := none, last := none }, m)
  some ({ list with count := list.count - 1 }, m)

/-- The loop of `node_list_remove`, at the node `n`. -/
def removeFrom (list : NodeList α) (node : α) (m : Memory α δ) :
    ℕ → Option α → ℕ → Option (Option ℕ × NodeList α × Memory α δ)
  | 0, _, _ => none
  | _ + 1, none, _ => some (none, list, m)
  | fuel + 1, some n, nodeIndex => do
    let n ← m.deref (some n)
    if node = n then
      let (list, m) ← unlink list node m
      some (some nodeIndex, list, m)
    else
      removeFrom list node m fuel (m.next n) (nodeIndex + 1)

/-- The index that the node had, or nothing (`-1`) where the list does not hold it. -/
def nodeListRemove (fuel : ℕ) (list : NodeList α) (node : α) (m : Memory α δ) :
    Option (Option ℕ × NodeList α × Memory α δ) :=
  if list.count = 0 then some (none, list, m) else removeFrom list node m fuel list.first 0

def nodeCreate (p : α) (data : Option δ) (m : Memory α δ) : Memory α δ :=
  (m.calloc p).setData p data

/-- The list of the parent, which is made when it has none. -/
def childrenOf (m : Memory α δ) (parent : α) : NodeList α :=
  (m.children parent).getD nodeListCreate

def nodeAttach (parent child : α) (m : Memory α δ) : Option (Memory α δ) := do
  let child ← m.deref (some child)
  let m := m.setParent child (some parent)
  let parent ← m.deref (some parent)
  let (list, m) ← nodeListAdd (childrenOf m parent) child m
  let m := m.setChildren parent (some list)
  some (m.setCount parent (m.count parent + 1))

def nodeInsert (parent : α) (nodeIndex : ℕ) (child : α) (m : Memory α δ) :
    Option (Memory α δ) := do
  let child ← m.deref (some child)
  let m := m.setParent child (some parent)
  let parent ← m.deref (some parent)
  let (list, m) ← nodeListInsert (childrenOf m parent) nodeIndex child m
  let m := m.setChildren parent (some list)
  some (m.setCount parent (m.count parent + 1))

def nodeDetach (fuel : ℕ) (parent : Option α) (child : α) (m : Memory α δ) :
    Option (Option ℕ × Memory α δ) := do
  match parent with
  | none => some (none, m)
  | some parent =>
    let parent ← m.deref (some parent)
    match m.children parent with
    | none => some (none, m)
    | some list =>
      let (nodeIndex, list, m) ← nodeListRemove fuel list child m
      let m := m.setChildren parent (some list)
      match nodeIndex with
      | none => some (none, m)
      | some i => some (some i, m.setCount parent (m.count parent - 1))

mutual

def nodeDestroy : ℕ → α → Memory α δ → Option (Memory α δ)
  | 0, _, _ => none
  | fuel + 1, node, m => do
    let node ← m.deref (some node)
    let m ← match m.children node with
      | none => some m
      | some list => if 0 < list.count then destroyChildren fuel node m else some m
    some ((m.setChildren node none).free node)

/-- The loop of `node_destroy`. -/
def destroyChildren : ℕ → α → Memory α δ → Option (Memory α δ)
  | 0, _, _ => none
  | fuel + 1, node, m => do
    let list ← m.children node
    match list.first with
    | none => some m
    | some ch =>
      let (_, list, m) ← nodeListRemove fuel list ch m
      let m ← nodeDestroy fuel ch (m.setChildren node (some list))
      destroyChildren fuel node m

end

def nodeFirstChild (m : Memory α δ) (node : α) : Option (Option α) := do
  let node ← m.deref (some node)
  some ((m.children node).bind NodeList.first)

def nodeNextSibling (m : Memory α δ) : Option α → Option (Option α)
  | none => some none
  | some node => do
    let node ← m.deref (some node)
    some (m.next node)

def nodePrevSibling (m : Memory α δ) : Option α → Option (Option α)
  | none => some none
  | some node => do
    let node ← m.deref (some node)
    some (m.prev node)

/-- The loop of `node_nth_child`, with so many nodes still to pass. -/
def nthFrom (m : Memory α δ) : ℕ → Option α → Option (Option α)
  | _, none => some none
  | 0, some ch => some (some ch)
  | n + 1, some ch => do
    let next ← nodeNextSibling m (some ch)
    nthFrom m n next

def nodeNthChild (m : Memory α δ) (node : α) (n : ℕ) : Option (Option α) := do
  let ch ← nodeFirstChild m node
  nthFrom m n ch

/-- The loop of `node_child_position`. -/
def positionFrom (m : Memory α δ) (child : α) : ℕ → Option α → ℕ → Option (Option ℕ)
  | 0, _, _ => none
  | _ + 1, none, _ => some none
  | fuel + 1, some ch, nodeIndex =>
    if ch = child then
      some (some nodeIndex)
    else do
      let next ← nodeNextSibling m (some ch)
      positionFrom m child fuel next (nodeIndex + 1)

def nodeChildPosition (fuel : ℕ) (m : Memory α δ) (parent child : α) : Option (Option ℕ) := do
  let ch ← nodeFirstChild m parent
  positionFrom m child fuel ch 0

section Lists

variable {m : Memory α δ} {xs ys zs : List α} {c x : α}

def listOf (xs : List α) : NodeList α := ⟨xs.head?, xs.getLast?, xs.length⟩

structure Chained (m : Memory α δ) (xs : List α) : Prop where
  linked : Linked m.next m.prev none xs none
  nodup : xs.Nodup
  live : ∀ x ∈ xs, m.live x = true

def splice (m : Memory α δ) (ys : List α) (c : α) (zs : List α) : Memory α δ :=
  { m with
    next := relink (Function.update m.next c zs.head?) ys.getLast? (some c)
    prev := relink (Function.update m.prev c ys.getLast?) zs.head? (some c) }

def unsplice (m : Memory α δ) (ys zs : List α) : Memory α δ :=
  { m with
    next := relink m.next ys.getLast? zs.head?
    prev := relink m.prev zs.head? ys.getLast? }

omit [DecidableEq α] in
theorem deref_live (h : m.live x = true) : m.deref (some x) = some x := if_pos h

@[simp]
theorem deref_setNext (p : α) (q r : Option α) : (m.setNext p q).deref r = m.deref r := rfl

@[simp]
theorem deref_setPrev (p : α) (q r : Option α) : (m.setPrev p q).deref r = m.deref r := rfl

@[simp]
theorem next_setNext (p : α) (q : Option α) :
    (m.setNext p q).next = Function.update m.next p q := rfl

@[simp]
theorem next_setPrev (p : α) (q : Option α) : (m.setPrev p q).next = m.next := rfl

@[simp]
theorem data_setData (p : α) (d : Option δ) :
    (m.setData p d).data = Function.update m.data p d := rfl

@[simp]
theorem live_setData (p : α) (d : Option δ) : (m.setData p d).live = m.live := rfl

theorem Chained.splice (h : Chained m (ys ++ zs)) (hc : c ∉ ys ++ zs) (hl : m.live c = true) :
    Chained (splice m ys c zs) (ys ++ c :: zs) where
  linked := by
    have hi := h.linked.insert h.nodup hc
    rw [Option.or_none, Option.or_none] at hi
    exact hi
  nodup := List.nodup_middle.mpr (List.nodup_cons.mpr ⟨hc, h.nodup⟩)
  live y hy := by
    obtain hy | hy := List.mem_append.mp hy
    · exact h.live y (List.mem_append_left zs hy)
    · obtain rfl | hy := List.mem_cons.mp hy
      · exact hl
      · exact h.live y (List.mem_append_right ys hy)

theorem Chained.unsplice (h : Chained m (ys ++ x :: zs)) :
    Chained (unsplice m ys zs) (ys ++ zs) where
  linked := by
    have hr := h.linked.remove h.nodup
    rw [Option.or_none, Option.or_none] at hr
    exact hr
  nodup := (List.nodup_cons.mp (List.nodup_middle.mp h.nodup)).2
  live y hy := h.live y (List.mem_append.mpr
    ((List.mem_append.mp hy).imp_right (List.mem_cons_of_mem x)))

theorem nodeListAdd_spec (h : Chained m xs) (hc : m.live c = true) :
    nodeListAdd (listOf xs) c m = some (listOf (xs ++ [c]), splice m xs c []) := by
  cases xs using List.reverseRecOn with
  | nil =>
    simp [nodeListAdd, deref_live hc, listOf]
    rfl
  | append_singleton xs l =>
    have hl : m.live l = true := h.live l (by simp)
    simp [nodeListAdd, deref_live hc, deref_live hl, listOf, List.head?_append]
    simp [splice, relink, Memory.setNext, Memory.setPrev]

omit [DecidableEq α] in
theorem walk_linked {b : Option α} (h : Linked m.next m.prev b (ys ++ zs) none)
    (hl : ∀ y ∈ ys, m.live y = true) :
    walk m ys.length b (ys ++ zs).head? = some (ys.getLast?.or b, zs.head?) := by
  induction ys generalizing b with
  | nil => rfl
  | cons y ys ih =>
    have hy := deref_live (hl y List.mem_cons_self)
    have ht := ih h.2.2 (fun y' hy' => hl y' (List.mem_cons_of_mem y hy'))
    have hb : (y :: ys).getLast?.or b = ys.getLast?.or (some y) := by
      rw [List.getLast?_cons]
      cases ys.getLast? <;> rfl
    have hn : m.next y = (ys ++ zs).head? := Linked.next_cons h
    rw [List.cons_append, List.length_cons, List.head?_cons, walk, hy, Option.bind_eq_bind,
      Option.bind_some, hn, ht, hb]

theorem nodeListInsert_middle {z : α} (h : Chained m (ys ++ z :: zs)) (hc : m.live c = true)
    (hm : c ∉ ys ++ z :: zs) :
    nodeListInsert (listOf (ys ++ z :: zs)) ys.length c m =
      some (listOf (ys ++ c :: z :: zs), splice m ys c (z :: zs)) := by
  have hw := walk_linked h.linked (fun y hy => h.live y (List.mem_append_left _ hy))
  have hlt : ¬ (listOf (ys ++ z :: zs)).count ≤ ys.length := by simp [listOf]
  have hz : m.live z = true := h.live z (by simp)
  rw [nodeListInsert, if_neg hlt]
  cases ys using List.reverseRecOn with
  | nil =>
    have hzc : z ≠ c := fun hzc => hm (by simp [hzc])
    simp [walk, deref_live hc, deref_live hz, listOf, List.getLast?_cons]
    rfl
  | append_singleton ys l =>
    have hl : m.live l = true := h.live l (by simp)
    have hlc : c ≠ l := fun hlc => hm (by simp [hlc])
    have hn : m.next l = some z := by
      have ha := h.linked
      rw [List.append_assoc] at ha
      exact ha.around.2
    simp at hw
    simp [hw, hn, hlc, deref_live hc, deref_live hz, deref_live hl, listOf, List.getLast?_cons]
    simp [splice, relink, Memory.setNext, Memory.setPrev]
    omega

theorem nodeListInsert_spec {i : ℕ} (h : Chained m (ys ++ zs)) (hc : m.live c = true)
    (hm : c ∉ ys ++ zs) (hi : ys.length = min i (ys ++ zs).length) :
    nodeListInsert (listOf (ys ++ zs)) i c m = some (listOf (ys ++ c :: zs), splice m ys c zs) := by
  cases zs with
  | nil =>
    have hle : (listOf (ys ++ [])).count ≤ i := by
      simp only [listOf, List.append_nil] at hi ⊢
      omega
    rw [nodeListInsert, if_pos hle, nodeListAdd_spec h hc, List.append_nil]
  | cons z zs =>
    have heq : i = ys.length := by
      simp only [List.length_append, List.length_cons] at hi
      omega
    rw [heq]
    exact nodeListInsert_middle h hc hm

theorem unlink_spec (h : Chained m (ys ++ x :: zs)) :
    unlink (listOf (ys ++ x :: zs)) x m = some (listOf (ys ++ zs), unsplice m ys zs) := by
  obtain ⟨hp, hn⟩ := h.linked.around
  rw [Option.or_none] at hp hn
  cases ys using List.reverseRecOn with
  | nil =>
    cases zs with
    | nil => 
      simp [unlink, hp, hn, listOf]
      rfl
    | cons z zs =>
      have hz : m.live z = true := h.live z (by simp)
      simp [unlink, hp, hn, listOf, deref_live hz, List.getLast?_cons]
      rfl
  | append_singleton ys l =>
    have hl : m.live l = true := h.live l (by simp)
    cases zs with
    | nil =>
      simp [unlink, hp, hn, listOf, deref_live hl, List.head?_append]
      simp [unsplice, relink, Memory.setNext]
    | cons z zs =>
      have hz : m.live z = true := h.live z (by simp)
      simp [unlink, hp, hn, listOf, deref_live hl, deref_live hz, List.head?_append,
        List.getLast?_append, List.getLast?_cons]
      simp [unsplice, relink, Memory.setNext, Memory.setPrev]

theorem removeFrom_linked {list l : NodeList α} {m' : Memory α δ} {b : Option α} {i : ℕ}
    (h : Linked m.next m.prev b (ys ++ x :: zs) none) (hl : ∀ y ∈ ys ++ [x], m.live y = true)
    (hx : x ∉ ys) (hu : unlink list x m = some (l, m')) :
    Returns (fun fuel => removeFrom list x m fuel (ys ++ x :: zs).head? i)
      (some (i + ys.length), l, m') := by
  induction ys generalizing b i with
  | nil =>
    refine Returns.of_succ (returns_of_eq fun fuel => ?_)
    have hd := deref_live (hl x (by simp))
    simp [removeFrom, hd, hu]
  | cons y ys ih =>
    have hd := deref_live (hl y (by simp))
    have hy : x ≠ y := fun hxy => hx (hxy ▸ List.mem_cons_self)
    have hn : m.next y = (ys ++ x :: zs).head? := Linked.next_cons h
    have hr := @ih (some y) (i + 1) h.2.2 (fun y' hy' => hl y' (List.mem_cons_of_mem y hy'))
      (fun hm => hx (List.mem_cons_of_mem y hm))
    rw [List.length_cons, ← Nat.add_assoc, Nat.add_right_comm]
    refine Returns.of_succ (hr.congr fun fuel => ?_)
    rw [List.cons_append, List.head?_cons, removeFrom, hd, Option.bind_eq_bind, Option.bind_some,
      if_neg hy, hn]

theorem nodeListRemove_spec (h : Chained m (ys ++ x :: zs)) :
    Returns (fun fuel => nodeListRemove fuel (listOf (ys ++ x :: zs)) x m)
      (some ys.length, listOf (ys ++ zs), unsplice m ys zs) := by
  have hx : x ∉ ys := fun hx => (List.nodup_append.mp h.nodup).2.2 x hx x (by simp) rfl
  have hl : ∀ y ∈ ys ++ [x], m.live y = true := fun y hy =>
    h.live y (by simp only [List.mem_append, List.mem_cons, List.not_mem_nil, or_false] at hy ⊢; tauto)
  have hr := @removeFrom_linked _ _ _ m ys zs x (listOf (ys ++ x :: zs)) _ _ none 0 h.linked hl hx
    (unlink_spec h)
  rw [Nat.zero_add] at hr
  have hc : ¬ (listOf (ys ++ x :: zs)).count = 0 := by simp [listOf]
  exact hr.congr fun fuel => if_neg hc

omit [DecidableEq α] in
theorem nodeNextSibling_live (h : m.live x = true) :
    nodeNextSibling m (some x) = some (m.next x) := by
  rw [nodeNextSibling, deref_live h]
  rfl

omit [DecidableEq α] in
theorem nodePrevSibling_live (h : m.live x = true) :
    nodePrevSibling m (some x) = some (m.prev x) := by
  rw [nodePrevSibling, deref_live h]
  rfl

omit [DecidableEq α] in
theorem nthFrom_linked {b : Option α} {n : ℕ} (h : Linked m.next m.prev b xs none)
    (hl : ∀ x ∈ xs, m.live x = true) : nthFrom m n xs.head? = some xs[n]? := by
  induction xs generalizing b n with
  | nil => cases n <;> rfl
  | cons x xs ih =>
    cases n with
    | zero => rfl
    | succ n =>
      have hn : nodeNextSibling m (some x) = some xs.head? := by
        rw [nodeNextSibling_live (hl x List.mem_cons_self), h.next_cons]
      rw [List.head?_cons, nthFrom, hn, Option.bind_eq_bind, Option.bind_some,
        List.getElem?_cons_succ]
      exact ih h.2.2 (fun y hy => hl y (List.mem_cons_of_mem x hy))

theorem positionFrom_linked {b : Option α} {i : ℕ} (h : Linked m.next m.prev b (ys ++ x :: zs) none)
    (hl : ∀ y ∈ ys, m.live y = true) (hx : x ∉ ys) :
    Returns (fun fuel => positionFrom m x fuel (ys ++ x :: zs).head? i) (some (i + ys.length)) := by
  induction ys generalizing b i with
  | nil => exact Returns.of_succ (returns_of_eq fun fuel => if_pos rfl)
  | cons y ys ih =>
    have hy : ¬ y = x := fun hyx => hx (hyx ▸ List.mem_cons_self)
    have hn : m.next y = (ys ++ x :: zs).head? := Linked.next_cons h
    have hr := @ih (some y) (i + 1) h.2.2 (fun y' hy' => hl y' (List.mem_cons_of_mem y hy'))
      (fun hm => hx (List.mem_cons_of_mem y hm))
    rw [List.length_cons, ← Nat.add_assoc, Nat.add_right_comm]
    refine Returns.of_succ (hr.congr fun fuel => ?_)
    rw [List.cons_append, List.head?_cons, positionFrom, if_neg hy,
      nodeNextSibling_live (hl y List.mem_cons_self), hn]
    rfl

end Lists

section Forests

/-- The memory holds a forest: `kids` are the children of each node, in their order. -/
structure Forest (m : Memory α δ) (kids : α → List α) : Prop where
  chained : ∀ p, m.live p = true → Chained m (kids p)
  parent : ∀ p, m.live p = true → ∀ c ∈ kids p, m.parent c = some p
  list : ∀ p, m.live p = true → childrenOf m p = listOf (kids p)
  count : ∀ p, m.live p = true → m.count p = (kids p).length

def adopt (m : Memory α δ) (p : α) (ys : List α) (c : α) (zs : List α) : Memory α δ :=
  { splice m ys c zs with
    parent := Function.update m.parent c (some p)
    children := Function.update m.children p (some (listOf (ys ++ c :: zs)))
    count := Function.update m.count p (m.count p + 1) }

def orphan (m : Memory α δ) (p : α) (ys zs : List α) : Memory α δ :=
  { unsplice m ys zs with
    children := Function.update m.children p (some (listOf (ys ++ zs)))
    count := Function.update m.count p (m.count p - 1) }

variable {m : Memory α δ} {kids : α → List α} {p c x : α} {ys zs : List α}

omit [DecidableEq α] in
theorem Forest.kids_eq (h : Forest m kids) {q : α} (hp : m.live p = true) (hq : m.live q = true)
    (hcp : c ∈ kids p) (hcq : c ∈ kids q) : p = q := by
  have h₁ := h.parent p hp c hcp
  rw [h.parent q hq c hcq] at h₁
  exact (Option.some.inj h₁).symm

theorem Forest.setData {d : Option δ} (h : Forest m kids) : Forest (m.setData p d) kids where
  chained x hx := ⟨(h.chained x hx).linked, (h.chained x hx).nodup, (h.chained x hx).live⟩
  parent := h.parent
  list := h.list
  count := h.count

@[simp]
theorem adopt_children :
    (adopt m p ys c zs).children =
      Function.update m.children p (some (listOf (ys ++ c :: zs))) := rfl

@[simp]
theorem adopt_count :
    (adopt m p ys c zs).count = Function.update m.count p (m.count p + 1) := rfl

@[simp]
theorem adopt_parent : (adopt m p ys c zs).parent = Function.update m.parent c (some p) := rfl

@[simp]
theorem adopt_live : (adopt m p ys c zs).live = m.live := rfl

@[simp]
theorem adopt_data : (adopt m p ys c zs).data = m.data := rfl

@[simp]
theorem orphan_children :
    (orphan m p ys zs).children = Function.update m.children p (some (listOf (ys ++ zs))) := rfl

@[simp]
theorem orphan_count :
    (orphan m p ys zs).count = Function.update m.count p (m.count p - 1) := rfl

@[simp]
theorem orphan_parent : (orphan m p ys zs).parent = m.parent := rfl

@[simp]
theorem orphan_live : (orphan m p ys zs).live = m.live := rfl

@[simp]
theorem orphan_data : (orphan m p ys zs).data = m.data := rfl

theorem Forest.adopt (h : Forest m kids) (hp : m.live p = true) (hc : m.live c = true)
    (hk : kids p = ys ++ zs) (hf : ∀ q, m.live q = true → c ∉ kids q) :
    Forest (adopt m p ys c zs) (Function.update kids p (ys ++ c :: zs)) := by
  have hch := h.chained p hp
  have hcp := hf p hp
  rw [hk] at hch hcp
  have hs := hch.splice hcp hc
  have hother : ∀ q, q ≠ p → m.live q = true → ∀ x ∈ kids q, x ∉ ys ++ zs :=
    fun q hqp hq x hx hm => hqp (h.kids_eq hq hp hx (hk ▸ hm))
  constructor
  · intro q hq
    by_cases hqp : q = p
    · rw [hqp, Function.update_self]
      exact ⟨hs.linked, hs.nodup, hs.live⟩
    · rw [Function.update_of_ne hqp]
      refine ⟨?_, (h.chained q hq).nodup, (h.chained q hq).live⟩
      refine ((h.chained q hq).linked.update_off (hf q hq)).relink_off (fun x hx hl => ?_)
        (fun x hx hz => ?_)
      · exact hother q hqp hq x hx (List.mem_append_left zs (List.mem_of_getLast? hl))
      · exact hother q hqp hq x hx (List.mem_append_right ys (List.mem_of_head? hz))
  · intro q hq x hx
    rw [adopt_parent]
    by_cases hqp : q = p
    · rw [hqp, Function.update_self] at hx
      rw [hqp]
      by_cases hxc : x = c
      · rw [hxc, Function.update_self]
      · rw [Function.update_of_ne hxc]
        refine h.parent p hp x ?_
        rw [hk]
        simpa [hxc] using hx
    · rw [Function.update_of_ne hqp] at hx
      rw [Function.update_of_ne (ne_of_mem_of_not_mem hx (hf q hq))]
      exact h.parent q hq x hx
  · intro q hq
    rw [childrenOf, adopt_children]
    by_cases hqp : q = p
    · rw [hqp, Function.update_self, Function.update_self, Option.getD_some]
    · rw [Function.update_of_ne hqp, Function.update_of_ne hqp]
      exact h.list q hq
  · intro q hq
    rw [adopt_count]
    by_cases hqp : q = p
    · rw [hqp, Function.update_self, Function.update_self, h.count p hp, hk,
        List.length_append, List.length_append, List.length_cons, Nat.add_assoc]
    · rw [Function.update_of_ne hqp, Function.update_of_ne hqp]
      exact h.count q hq

theorem Forest.orphan (h : Forest m kids) (hp : m.live p = true) (hk : kids p = ys ++ c :: zs) :
    Forest (orphan m p ys zs) (Function.update kids p (ys ++ zs)) := by
  have hch := h.chained p hp
  rw [hk] at hch
  have hs := hch.unsplice
  have hmem : ∀ x ∈ ys ++ zs, x ∈ kids p := by
    intro x hx
    rw [hk]
    exact List.mem_append.mpr ((List.mem_append.mp hx).imp_right (List.mem_cons_of_mem c))
  have hother : ∀ q, q ≠ p → m.live q = true → ∀ x ∈ kids q, x ∉ ys ++ zs :=
    fun q hqp hq x hx hm => hqp (h.kids_eq hq hp hx (hmem x hm))
  constructor
  · intro q hq
    by_cases hqp : q = p
    · rw [hqp, Function.update_self]
      exact ⟨hs.linked, hs.nodup, hs.live⟩
    · rw [Function.update_of_ne hqp]
      refine ⟨?_, (h.chained q hq).nodup, (h.chained q hq).live⟩
      refine (h.chained q hq).linked.relink_off (fun x hx hl => ?_) (fun x hx hz => ?_)
      · exact hother q hqp hq x hx (List.mem_append_left zs (List.mem_of_getLast? hl))
      · exact hother q hqp hq x hx (List.mem_append_right ys (List.mem_of_head? hz))
  · intro q hq x hx
    by_cases hqp : q = p
    · rw [hqp, Function.update_self] at hx
      rw [hqp]
      exact h.parent p hp x (hmem x hx)
    · rw [Function.update_of_ne hqp] at hx
      exact h.parent q hq x hx
  · intro q hq
    rw [childrenOf, orphan_children]
    by_cases hqp : q = p
    · rw [hqp, Function.update_self, Function.update_self, Option.getD_some]
    · rw [Function.update_of_ne hqp, Function.update_of_ne hqp]
      exact h.list q hq
  · intro q hq
    rw [orphan_count]
    by_cases hqp : q = p
    · rw [hqp, Function.update_self, Function.update_self, h.count p hp, hk,
        List.length_append, List.length_append, List.length_cons, ← Nat.add_assoc,
        Nat.add_sub_cancel]
    · rw [Function.update_of_ne hqp, Function.update_of_ne hqp]
      exact h.count q hq

theorem nodeInsert_spec {i : ℕ} (h : Forest m kids) (hp : m.live p = true) (hc : m.live c = true)
    (hk : kids p = ys ++ zs) (hf : c ∉ kids p) (hi : ys.length = min i (kids p).length) :
    nodeInsert p i c m = some (adopt m p ys c zs) := by
  have hch := h.chained p hp
  rw [hk] at hch hf hi
  have hl := h.list p hp
  rw [hk] at hl
  have hs : nodeListInsert (listOf (ys ++ zs)) i c (m.setParent c (some p)) =
      some (listOf (ys ++ c :: zs), splice (m.setParent c (some p)) ys c zs) :=
    nodeListInsert_spec ⟨hch.linked, hch.nodup, hch.live⟩ hc hf hi
  have hl' : childrenOf (m.setParent c (some p)) p = listOf (ys ++ zs) := hl
  have hd : (m.setParent c (some p)).deref (some p) = some p := deref_live hp
  simp only [nodeInsert, deref_live hc, hd, hl', hs, Option.bind_eq_bind, Option.bind_some]
  rfl

theorem nodeAttach_spec (h : Forest m kids) (hp : m.live p = true) (hc : m.live c = true) :
    nodeAttach p c m = some (adopt m p (kids p) c []) := by
  have hch := h.chained p hp
  have hs : nodeListAdd (listOf (kids p)) c (m.setParent c (some p)) =
      some (listOf (kids p ++ [c]), splice (m.setParent c (some p)) (kids p) c []) :=
    nodeListAdd_spec ⟨hch.linked, hch.nodup, hch.live⟩ hc
  have hl : childrenOf (m.setParent c (some p)) p = listOf (kids p) := h.list p hp
  have hd : (m.setParent c (some p)).deref (some p) = some p := deref_live hp
  simp only [nodeAttach, deref_live hc, hd, hl, hs, Option.bind_eq_bind, Option.bind_some]
  rfl

omit [DecidableEq α] in
theorem Forest.children (h : Forest m kids) (hp : m.live p = true) (hk : kids p = ys ++ c :: zs) :
    m.children p = some (listOf (kids p)) := by
  have hl := h.list p hp
  rw [childrenOf] at hl
  cases hm : m.children p with
  | none =>
    rw [hm, hk] at hl
    have hcount := congrArg NodeList.count hl
    simp [nodeListCreate, listOf] at hcount
  | some l =>
    rw [hm] at hl
    exact congrArg some hl

theorem nodeDetach_spec (h : Forest m kids) (hp : m.live p = true) (hk : kids p = ys ++ c :: zs) :
    Returns (fun fuel => nodeDetach fuel (some p) c m) (some ys.length, orphan m p ys zs) := by
  have hch := h.chained p hp
  have hl := h.children hp hk
  rw [hk] at hch hl
  have hr := (nodeListRemove_spec hch).bind (g := fun _ r =>
    match r with
    | (nodeIndex, list, m') =>
      match nodeIndex with
      | none => some (none, m'.setChildren p (some list))
      | some i => some (some i, (m'.setChildren p (some list)).setCount p (m'.count p - 1)))
    (c := (some ys.length, NodeLists.orphan m p ys zs)) (returns_of_eq fun _ => rfl)
  refine hr.congr fun fuel => ?_
  simp only [nodeDetach, deref_live hp, hl, Option.bind_eq_bind, Option.bind_some]
  congr 1

omit [DecidableEq α] in
theorem nodeFirstChild_spec (h : Forest m kids) (hp : m.live p = true) :
    nodeFirstChild m p = some (kids p).head? := by
  have hl : (m.children p).bind NodeList.first = (childrenOf m p).first := by
    rw [childrenOf]
    cases m.children p <;> rfl
  rw [nodeFirstChild, deref_live hp]
  exact congrArg some (hl.trans (congrArg NodeList.first (h.list p hp)))

omit [DecidableEq α] in
theorem nodeNthChild_spec (h : Forest m kids) (hp : m.live p = true) (n : ℕ) :
    nodeNthChild m p n = some (kids p)[n]? := by
  have hch := h.chained p hp
  rw [nodeNthChild, nodeFirstChild_spec h hp]
  exact nthFrom_linked hch.linked hch.live

theorem nodeChildPosition_spec (h : Forest m kids) (hp : m.live p = true)
    (hk : kids p = ys ++ c :: zs) :
    Returns (fun fuel => nodeChildPosition fuel m p c) (some ys.length) := by
  have hch := h.chained p hp
  have hf := nodeFirstChild_spec h hp
  rw [hk] at hch hf
  have hc : c ∉ ys := fun hc => (List.nodup_append.mp hch.nodup).2.2 c hc c (by simp) rfl
  have hr := @positionFrom_linked _ _ _ m ys zs c none 0 hch.linked
    (fun y hy => hch.live y (List.mem_append_left _ hy)) hc
  rw [Nat.zero_add] at hr
  refine hr.congr fun fuel => ?_
  rw [nodeChildPosition, hf]
  rfl

end Forests

end UnBoxer.NodeLists
