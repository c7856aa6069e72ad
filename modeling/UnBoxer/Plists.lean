import UnBoxer.HashTables
import UnBoxer.PlistNodes

namespace UnBoxer.Plists

open UnBoxer.Fuel UnBoxer.NodeLists UnBoxer.PlistNodes UnBoxer.HashTables

abbrev CString := List UInt8

/-- The array of an array's items, for access by index. -/
structure PtrArray (α : Type) where
  pdata : List α
  capacity : ℕ
  capacityStep : ℕ
  fits : pdata.length ≤ capacity
  step_pos : 0 < capacityStep

section Arrays

variable {α : Type}

def ptrArrayNew (capacity : ℕ) (h : 0 < capacity) : PtrArray α where
  pdata := []
  capacity := capacity
  capacityStep := if 4096 < capacity then 4096 else capacity
  fits := Nat.zero_le _
  step_pos := by split <;> omega

def ptrArrayInsert (pa : PtrArray α) (data : α) (arrayIndex : ℤ) : PtrArray α where
  pdata :=
    if arrayIndex < 0 ∨ (pa.pdata.length : ℤ) ≤ arrayIndex then pa.pdata ++ [data]
    else pa.pdata.insertIdx arrayIndex.toNat data
  capacity :=
    if pa.capacity - pa.pdata.length = 0 then pa.capacity + pa.capacityStep else pa.capacity
  capacityStep := pa.capacityStep
  fits := by
    have hf := pa.fits
    have hs := pa.step_pos
    have hl : ((if arrayIndex < 0 ∨ (pa.pdata.length : ℤ) ≤ arrayIndex then pa.pdata ++ [data]
        else pa.pdata.insertIdx arrayIndex.toNat data)).length ≤ pa.pdata.length + 1 := by
      split
      · simp
      · rw [List.length_insertIdx]
        split <;> omega
    refine Nat.le_trans hl ?_
    split <;> omega
  step_pos := pa.step_pos

def ptrArrayAdd (pa : PtrArray α) (data : α) : PtrArray α := ptrArrayInsert pa data (-1)

def ptrArrayRemove (pa : PtrArray α) (arrayIndex : ℕ) : PtrArray α :=
  { pa with
    pdata := pa.pdata.eraseIdx arrayIndex
    fits := Nat.le_trans (List.length_eraseIdx_le _ _) pa.fits }

def ptrArraySet (pa : PtrArray α) (data : α) (arrayIndex : ℕ) : PtrArray α :=
  { pa with
    pdata := pa.pdata.set arrayIndex data
    fits := by
      rw [List.length_set]
      exact pa.fits }

def ptrArrayIndex (pa : PtrArray α) (arrayIndex : ℕ) : Option α := pa.pdata[arrayIndex]?

end Arrays

/-- What a key of a table points to: the data of a key node, or a string to look up. -/
inductive KeyRef (α : Type) where
  | node (p : α)
  | stack (strval : CString)
deriving DecidableEq

/-- The data of a node. Of the data of strings, numbers and the like nothing is said. -/
inductive Data (α β : Type) where
  | key (strval : CString)
  | array (hashtable : Option (PtrArray α))
  | dict (hashtable : Option (HashTable (KeyRef α) α))
  | value (v : β)

abbrev Plist (α β : Type) := Memory α (Data α β)

variable {α β : Type} [DecidableEq α]

def intMax : ℕ := 2147483647

section Keys

/-- A byte as a signed `char`, widened to 32 bits. -/
def signExtend (c : UInt8) : UInt32 := if c < 128 then c.toUInt32 else c.toUInt32 - 256

def hashBytes (s : CString) : UInt32 :=
  s.foldl (fun hash c => ((hash <<< 5) + hash) + signExtend c) 5381

def keyText (m : Plist α β) : KeyRef α → Option CString
  | .stack s => some s
  | .node p =>
    match m.data p with
    | some (.key s) => some s
    | _ => none

def dictKeyHash (m : Plist α β) (k : KeyRef α) : UInt32 := hashBytes ((keyText m k).getD [])

def dictKeyCompare (m : Plist α β) (a b : KeyRef α) : Bool :=
  match keyText m a, keyText m b with
  | some s, some t => if s.length = t.length then s == t else false
  | _, _ => false

end Keys

section Creation

def plistNewNode (p : α) (d : Data α β) (m : Plist α β) : Plist α β := nodeCreate p (some d) m

def plistNewDict (p : α) (m : Plist α β) : Plist α β := plistNewNode p (.dict none) m

def plistNewArray (p : α) (m : Plist α β) : Plist α β := plistNewNode p (.array none) m

def plistNewKey (p : α) (val : CString) (m : Plist α β) : Plist α β := plistNewNode p (.key val) m

def plistFree (fuel : ℕ) (plist : α) (m : Plist α β) : Option (Plist α β) := do
  let (_, m) ← plistFreeNode fuel plist m
  some m

end Creation

section ArrayCalls

def plistArrayGetSize (node : α) (m : Plist α β) : Option ℕ := do
  let node ← m.deref (some node)
  match m.data node with
  | some (.array _) => some (m.count node)
  | _ => some 0

def plistArrayGetItem (node : α) (n : ℕ) (m : Plist α β) : Option (Option α) := do
  let node ← m.deref (some node)
  match m.data node with
  | some (.array hashtable) =>
    if n < intMax then
      match hashtable with
      | some pa => some (ptrArrayIndex pa n)
      | none => nodeNthChild m node n
    else some none
  | _ => some none

/-- The loop of `_plist_array_post_insert`. -/
def addAll (m : Plist α β) : ℕ → Option α → PtrArray α → Option (PtrArray α)
  | 0, _, _ => none
  | _ + 1, none, pa => some pa
  | fuel + 1, some current, pa => do
    let next ← nodeNextSibling m (some current)
    addAll m fuel next (ptrArrayAdd pa current)

def plistArrayPostInsert (fuel : ℕ) (node item : α) (n : ℤ) (m : Plist α β) :
    Option (Plist α β) := do
  match m.data node with
  | some (.array (some pa)) =>
    some (m.setData node (some (.array (some (ptrArrayInsert pa item n)))))
  | some (.array none) =>
    if 100 < m.count node then
      let first ← nodeFirstChild m node
      let pa ← addAll m fuel first (ptrArrayNew 128 (by decide))
      some (m.setData node (some (.array (some pa))))
    else some m
  | _ => some m

def plistArraySetItem (fuel : ℕ) (node item : α) (n : ℕ) (m : Plist α β) :
    Option (Plist α β) := do
  let node ← m.deref (some node)
  match m.data node with
  | some (.array _) =>
    if n < intMax then
      match ← plistArrayGetItem node n m with
      | none => some m
      | some oldItem =>
        let (idx, m) ← plistFreeNode fuel oldItem m
        -- `assert(idx >= 0)`
        let idx ← idx
        let m ← nodeInsert node idx item m
        match m.data node with
        | some (.array (some pa)) =>
          some (m.setData node (some (.array (some (ptrArraySet pa item idx)))))
        | _ => some m
    else some m
  | _ => some m

def plistArrayAppendItem (fuel : ℕ) (node item : α) (m : Plist α β) : Option (Plist α β) := do
  let node ← m.deref (some node)
  match m.data node with
  | some (.array _) =>
    let m ← nodeAttach node item m
    plistArrayPostInsert fuel node item (-1) m
  | _ => some m

def plistArrayInsertItem (fuel : ℕ) (node item : α) (n : ℕ) (m : Plist α β) :
    Option (Plist α β) := do
  let node ← m.deref (some node)
  match m.data node with
  | some (.array _) =>
    if n < intMax then
      let m ← nodeInsert node n item m
      plistArrayPostInsert fuel node item n m
    else some m
  | _ => some m

def uncache (node : α) (n : ℕ) (m : Plist α β) : Plist α β :=
  match m.data node with
  | some (.array (some pa)) => m.setData node (some (.array (some (ptrArrayRemove pa n))))
  | _ => m

def plistArrayRemoveItem (fuel : ℕ) (node : α) (n : ℕ) (m : Plist α β) :
    Option (Plist α β) := do
  let node ← m.deref (some node)
  match m.data node with
  | some (.array _) =>
    if n < intMax then
      match ← plistArrayGetItem node n m with
      | none => some m
      | some oldItem => plistFree fuel oldItem (uncache node n m)
    else some m
  | _ => some m

def plistArrayGetItemIndex (fuel : ℕ) (node : α) (m : Plist α β) : Option (Option ℕ) := do
  let node ← m.deref (some node)
  match m.parent node with
  | none => some none
  | some father =>
    let father ← m.deref (some father)
    match m.data father with
    | some (.array _) => nodeChildPosition fuel m father node
    | _ => some none

def plistArrayItemRemove (fuel : ℕ) (node : α) (m : Plist α β) : Option (Plist α β) := do
  let node ← m.deref (some node)
  match m.parent node with
  | none => some m
  | some father =>
    let father ← m.deref (some father)
    match m.data father with
    | some (.array _) =>
      match ← nodeChildPosition fuel m father node with
      | none => some m
      | some n => plistFree fuel node (uncache father n m)
    | _ => some m

end ArrayCalls

section DictCalls

def plistDictGetSize (node : α) (m : Plist α β) : Option ℕ := do
  let node ← m.deref (some node)
  match m.data node with
  | some (.dict _) => some (m.count node / 2)
  | _ => some 0

/-- The loop of `plist_dict_get_item`. -/
def findKey (m : Plist α β) (key : CString) : ℕ → Option α → Option (Option α)
  | 0, _ => none
  | _ + 1, none => some none
  | fuel + 1, some current => do
    let current ← m.deref (some current)
    match m.data current with
    | some (.key strval) =>
      let value ← nodeNextSibling m (some current)
      if key = strval then
        some value
      else
        let next ← nodeNextSibling m value
        findKey m key fuel next
    -- `assert(PLIST_KEY == plist_get_node_type(current))`
    | _ => none

def plistDictGetItem (fuel : ℕ) (node : α) (key : CString) (m : Plist α β) :
    Option (Option α) := do
  let node ← m.deref (some node)
  match m.data node with
  | some (.dict (some ht)) =>
    some (hashTableLookup (dictKeyHash m) (dictKeyCompare m) ht (.stack key))
  | some (.dict none) =>
    let first ← nodeFirstChild m node
    findKey m key fuel first
  | _ => some none

def plistDictNewIter (node : α) (m : Plist α β) : Option (Option α) := nodeFirstChild m node

/-- The key and the item that the iterator stands at, and the iterator moved on. -/
def plistDictNextItem (node : α) (iter : Option α) (m : Plist α β) :
    Option (Option CString × Option α × Option α) := do
  let node ← m.deref (some node)
  match m.data node, iter with
  | some (.dict _), some current =>
    let current ← m.deref (some current)
    let value ← nodeNextSibling m (some current)
    let next ← nodeNextSibling m value
    some (keyText m (.node current), value, next)
  | _, iter => some (none, none, iter)

/-- The loop of `plist_dict_merge` over the entries of its source. -/
def nextItems (node : α) (m : Plist α β) : ℕ → Option α → Option (List (CString × α))
  | 0, _ => none
  | fuel + 1, iter => do
    let (key, subnode, iter) ← plistDictNextItem node iter m
    match key with
    | none => some []
    | some key =>
      let subnode ← subnode
      let rest ← nextItems node m fuel iter
      some ((key, subnode) :: rest)

/-- The loop of `plist_dict_set_item` over the entries there are. -/
def insertAll (m : Plist α β) :
    ℕ → Option α → HashTable (KeyRef α) α → Option (HashTable (KeyRef α) α)
  | 0, _, _ => none
  | _ + 1, none, ht => some ht
  | fuel + 1, some current, ht => do
    let value ← nodeNextSibling m (some current)
    let v ← m.deref value
    let next ← nodeNextSibling m value
    insertAll m fuel next
      (hashTableInsert (dictKeyHash m) (dictKeyCompare m) ht (.node current) v)

/-- What `plist_dict_set_item` does once the item is in its place. -/
def plistDictPostInsert (fuel : ℕ) (node keyNode item : α) (m : Plist α β) :
    Option (Plist α β) := do
  match m.data node with
  | some (.dict (some ht)) =>
    some (m.setData node (some (.dict (some
      (hashTableInsert (dictKeyHash m) (dictKeyCompare m) ht (.node keyNode) item)))))
  | some (.dict none) =>
    if 500 < m.count node then
      let first ← nodeFirstChild m node
      let ht ← insertAll m fuel first hashTableNew
      some (m.setData node (some (.dict (some ht))))
    else some m
  | _ => some m

/-- `p` is where the key node is made, when one is needed. -/
def plistDictSetItem (fuel : ℕ) (node : α) (key : CString) (item p : α) (m : Plist α β) :
    Option (Plist α β) := do
  let node ← m.deref (some node)
  match m.data node with
  | some (.dict _) =>
    match ← plistDictGetItem fuel node key m with
    | some oldItem =>
      let (idx, m) ← plistFreeNode fuel oldItem m
      -- `assert(idx >= 0)`
      let idx ← idx
      let m ← nodeInsert node idx item m
      let keyNode ← nodePrevSibling m (some item)
      let keyNode ← m.deref keyNode
      plistDictPostInsert fuel node keyNode item m
    | none =>
      let m := plistNewKey p key m
      let m ← nodeAttach node p m
      let m ← nodeAttach node item m
      plistDictPostInsert fuel node p item m
  | _ => some m

/-- The dictionary without a key in its table. -/
def untable (node keyNode : α) (m : Plist α β) : Plist α β :=
  match m.data node with
  | some (.dict (some ht)) =>
    m.setData node (some (.dict (some
      (hashTableRemove (dictKeyHash m) (dictKeyCompare m) ht (.node keyNode)))))
  | _ => m

def plistDictRemoveItem (fuel : ℕ) (node : α) (key : CString) (m : Plist α β) :
    Option (Plist α β) := do
  let node ← m.deref (some node)
  match m.data node with
  | some (.dict _) =>
    match ← plistDictGetItem fuel node key m with
    | none => some m
    | some oldItem =>
      let keyNode ← nodePrevSibling m (some oldItem)
      let keyNode ← m.deref keyNode
      let m ← plistFree fuel keyNode (untable node keyNode m)
      plistFree fuel oldItem m
  | _ => some m

/-- `plist_set_key_val`, for a key: its text is changed where it stands. -/
def plistSetKeyVal (fuel : ℕ) (node : α) (val : CString) (m : Plist α β) :
    Option (Plist α β) := do
  let node ← m.deref (some node)
  let item ← match m.parent node with
    | none => some none
    | some father => plistDictGetItem fuel father val m
  match item with
  | some _ => some m
  | none => some (m.setData node (some (.key val)))

end DictCalls

end UnBoxer.Plists
