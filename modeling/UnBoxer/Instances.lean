import UnBoxer.BackupEngine
import UnBoxer.Codes
import UnBoxer.DeviceTrees

namespace UnBoxer.Instances

open UnBoxer.Trees UnBoxer.Programs UnBoxer.PathText UnBoxer.Archives UnBoxer.Codes
open UnBoxer.EscapeJson UnBoxer.TryBackup UnBoxer.RustIdevice UnBoxer.BackupEngine
open UnBoxer.DeviceTrees

def char : Code Char :=
  (Code.pair .byte (.pair .byte .byte)).map
    (fun (a, b, d) => Char.ofNat (a.toNat * 65536 + b.toNat * 256 + d.toNat))
    (fun c => (UInt8.ofNat (c.toNat / 65536), UInt8.ofNat (c.toNat / 256), UInt8.ofNat c.toNat))
    (by
      intro c
      have hc : c.toNat < 0x110000 := by
        obtain h | ⟨_, h⟩ := c.valid
        · exact Nat.lt_trans h (by decide)
        · exact h
      have hsum : c.toNat / 65536 % 256 * 65536 + c.toNat / 256 % 256 * 256 + c.toNat % 256 =
          c.toNat := by omega
      simp only [UInt8.toNat_ofNat']
      rw [show (2 : Nat) ^ 8 = 256 from rfl, hsum, Char.ofNat_toNat])

def text : Code Text := .list char

def record : Code Record :=
  (Code.pair text (.list .byte)).map (fun (n, d) => ⟨n, d⟩) (fun r => (r.name, r.data)) fun _ => rfl

def archive : Code (List Record) := .list record

def errnoText : Errno → Text
  | .notFound => "No such file or directory (os error 2)".toList
  | .notADirectory => "Not a directory (os error 20)".toList
  | .isADirectory => "Is a directory (os error 21)".toList
  | .alreadyExists => "File exists (os error 17)".toList
  | .failed => "Input/output error (os error 5)".toList

def dirName (n : Text) : Text := if DirMark n then n else n ++ ['/']

def refuse (rs : List Record) (n : Text) : Option Text :=
  if rs.any (fun r => decide (r.name = n)) then
    some "invalid Zip archive: Duplicate filename".toList
  else none

def crates : Crates where
  dirName := dirName
  isDir n := decide (DirMark n)
  reject rs
    | .addDirectory n => refuse rs (dirName n)
    | .startFile n => refuse rs n
    | _ => none
  progress rs := rs.flatMap fun r => 1 :: record.put r
  finished := archive.put
  dropped := archive.put
  parse data :=
    match archive.decode data with
    | some rs => .ok rs
    | none => .error "invalid Zip archive: Could not find EOCD".toList
  debug s := '"' :: (s ++ ['"'])
  osError := errnoText
  zipError := errnoText

theorem crates_documented : crates.Documented where
  dirName_eq _ := rfl
  isDir_iff n := decide_eq_true_iff
  parse_finished rs _ := by simp only [crates, archive.decode_put]

/-- A directory, a file in it, and a file that is named through it but goes beside it. -/
def roundabout : List Record :=
  [⟨['d', '/'], []⟩, ⟨['d', '/', 'a'], [7]⟩, ⟨['d', '/', '.', '.', '/', 'b'], [8]⟩]

theorem parse_roundabout : ∃ data, crates.parse data = .ok roundabout :=
  ⟨archive.put roundabout, by simp only [crates, archive.decode_put]⟩

def int64 : Code Int64 := Code.int.map Int64.ofInt Int64.toInt Int64.ofInt_toInt

def backupEntry : Code BackupEntry :=
  (Code.pair .nat (.pair text (.pair text (.pair text (.pair .int (.pair int64
    (.pair text .bool))))))).map
    (fun (id, app, bundle, version, date, size, rel, docs) =>
      ⟨id, app, bundle, version, date, size, rel, docs⟩)
    (fun e => (e.id, e.appName, e.bundleID, e.version, e.date, e.totalSize, e.relativePath,
      e.isDocumentsOnly))
    fun _ => rfl

def stamp (t : Int) : Text :=
  let s := (t / 1000 % 60).toNat
  "1970-01-01T00:00:".toList ++ [(s / 10).digitChar, (s % 10).digitChar, 'Z']

def foundation : Foundation where
  documents := ["Documents".toList]
  legal := by decide
  parseError _ := "The data is not in the correct format.".toList
  fileError _ := "The file could not be saved.".toList
  iso8601 := stamp
  encode e := .ok (backupEntry.put e)
  decode := backupEntry.decode

theorem digitChar_plain (n : Nat) : n.digitChar ≠ '/' ∧ n.digitChar ≠ nul := by
  by_cases hn : n < 16
  · interval_cases n <;> decide
  · have h : n.digitChar = '*' := by
      unfold Nat.digitChar
      repeat rw [if_neg (by omega)]
    rw [h]
    decide

theorem foundation_documented : foundation.Documented where
  parseError_clean _ := by
    change Clean "The data is not in the correct format.".toList
    decide
  iso8601_plain t := by
    obtain ⟨h₁, h₂⟩ := digitChar_plain ((t / 1000 % 60).toNat / 10)
    obtain ⟨h₃, h₄⟩ := digitChar_plain ((t / 1000 % 60).toNat % 10)
    have hs : '/' ∉ "1970-01-01T00:00:".toList ∧ nul ∉ "1970-01-01T00:00:".toList := by decide
    have hz : '/' ≠ 'Z' ∧ nul ≠ 'Z' := by decide
    change '/' ∉ stamp t ∧ nul ∉ stamp t
    unfold stamp
    simp only [List.mem_append, List.mem_cons, List.not_mem_nil, or_false, not_or]
    exact ⟨⟨hs.1, h₁.symm, h₃.symm, hz.1⟩, ⟨hs.2, h₂.symm, h₄.symm, hz.2⟩⟩
  encode_ne_nil e h := by
    have hne : backupEntry.put e ≠ [] := by simp [backupEntry, Code.map, Code.pair, Code.nat,
      Code.list, Code.putList]
    exact hne (Except.ok.inj h)
  decode_encode e data h := by
    cases h
    exact backupEntry.decode_put e
  decode_prefix e data s h hs hne := by
    cases h
    exact backupEntry.decode_prefix hs hne

def emptyTree {β : Type} : Tree Text β where
  node p := if p = [] then some .dir else none
  root := rfl
  parent p n h := by simp at h
  finite := (Set.finite_singleton []).subset fun p hp => by
    by_contra hne
    simp_all

def emptyDisk : Disk Text UInt8 := ⟨emptyTree, [], []⟩

def fileDisk (n : Text) (data : Bytes) (faults : List (Option Nat)) : Disk Text UInt8 where
  tree := emptyTree.put [] n (.file data) emptyTree.root (by simp [emptyTree])
  faults := faults
  touched := []

def unreachable (e : Text) : HouseArrest := ⟨.error e, .error e, .error e, .error e⟩

def emptyAfc : Afc where
  listDir _ path := if path = [] then .ok [['.'], ['.', '.']] else .error "Object not found".toList
  getFileInfo _ _ := .error "Object not found".toList
  openFile _ _ := .error "Object not found".toList

def oneFileAfc (n : Text) (data : Bytes) : Afc where
  listDir _ path := if path = [] then .ok [n] else .error "Object not found".toList
  getFileInfo _ path :=
    if path = n then .ok "S_IFREG".toList else .error "Object not found".toList
  openFile _ path :=
    if path = n then .ok [.ok data] else .error "Object not found".toList

theorem put_emptyTree_node (n : Text) (leaf : Leaf) (q : List Text) :
    (emptyTree.put [] n (.file leaf) emptyTree.root (by simp [emptyTree])).node q =
      if q = [n] then some (.file leaf) else if q = [] then some .dir else none := by
  rw [Tree.put_node, Function.update_apply]
  rfl

def oneFile (n : Text) (hn : Legal n) (data : Bytes) : Device where
  tree := emptyTree.put [] n (.file (.regular data)) emptyTree.root (by simp [emptyTree])
  legal p m h := by
    rw [put_emptyTree_node] at h
    by_cases hp : p ++ [m] = [n]
    · obtain ⟨_, hm⟩ := List.append_inj' (hp.trans (List.nil_append [n]).symm) rfl
      rw [List.singleton_inj.mp hm]
      exact hn
    · simp [hp] at h
  special p f h := by
    rw [put_emptyTree_node] at h
    split at h
    · cases h
    split at h <;> cases h

theorem oneFile_node {n : Text} (hn : Legal n) (data : Bytes) (q : List Text) :
    (oneFile n hn data).tree.node q =
      if q = [n] then some (.file (.regular data)) else if q = [] then some .dir else none :=
  put_emptyTree_node n _ q

theorem oneFile_serves {n : Text} (hn : Legal n) {data : Bytes} (hd : data ≠ []) :
    Serves (oneFile n hn data) (fun _ _ => False) (oneFileAfc n data) where
  list_refused _ _ _ h := h.elim
  info_refused _ _ _ _ h := h.elim
  open_refused _ _ _ _ h := h.elim
  list_ok _ p hp _ := by
    have hp' : p = [] := by
      rw [oneFile_node] at hp
      by_contra hne
      split at hp
      · cases hp
      · cases hp
    subst hp'
    refine ⟨[n], rfl, (List.nodup_singleton n).filter _, fun m _ => ?_⟩
    rw [oneFile_node]
    simp
  info_ok _ p v hne hv _ := by
    rw [oneFile_node] at hv
    split at hv
    · rename_i h
      subst h
      cases hv
      exact if_pos (by simp [path, List.intercalate])
    · cases hv
  open_ok := by
    intro _ p d hp _
    rw [oneFile_node] at hp
    split at hp
    · rename_i h
      subst h
      cases hp
      exact ⟨[data], if_pos (by simp [path, List.intercalate]), by simpa using hd, by simp⟩
    · split at hp <;> cases hp

def vending (afc : Afc) : HouseArrest := ⟨.ok (), .ok afc, .ok (), .ok afc⟩

def firstOrder : Order := ⟨['b'], ['B'], ['1'], 0, 0, 0⟩

def secondOrder : Order := { firstOrder with started := 1000, finished := 1000, id := 1 }

def firstBackup : Disk Text UInt8 :=
  ((BackupEngine.backupApp foundation crates 3 (vending (oneFileAfc ['a'] [7])) firstOrder).run
    emptyDisk).2

def firstEntry : BackupEntry := newEntry foundation firstOrder 0 false

end UnBoxer.Instances
