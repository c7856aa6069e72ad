import UnBoxer.BackupPaths
import UnBoxer.BackupWrites
import UnBoxer.Responses

namespace UnBoxer.BackupFrame

open UnBoxer.Trees UnBoxer.Programs UnBoxer.DirAll UnBoxer.Effects UnBoxer.PathText
open UnBoxer.Archives UnBoxer.EscapeJson UnBoxer.TryBackup UnBoxer.RustIdevice
open UnBoxer.BackupEngine UnBoxer.BackupPaths UnBoxer.BackupWalk UnBoxer.BackupWrites
open UnBoxer.Responses UnBoxer.Instances

def zipFile (F : Foundation) (o : Order) : List Text :=
  backupDir F o ++ [o.bundleID ++ ".zip".toList]

section Names

variable {F : Foundation} {o : Order}

theorem mem_replace {c x : Char} {new s : Text} (h : x ∈ replace c new s) : x ∈ new ∨ x ∈ s := by
  obtain ⟨y, hy, hx⟩ := List.mem_flatMap.mp h
  by_cases hc : y = c
  · rw [if_pos hc] at hx
    exact .inl hx
  · rw [if_neg hc] at hx
    exact .inr (List.mem_singleton.mp hx ▸ hy)

theorem fileName_relPath (hF : F.Documented) (hs : '/' ∉ o.bundleID) (hn : nul ∉ o.bundleID) :
    FileName (relPath F o) := by
  obtain ⟨hs', hn'⟩ := hF.iso8601_plain o.started
  have hmark : '_' ∈ relPath F o := by simp [relPath]
  have hout : ∀ x, x ∉ o.bundleID → x ≠ '_' → x ≠ '-' → x ∉ F.iso8601 o.started →
      x ∉ relPath F o := by
    intro x hb hu hd hi h
    obtain h | h := List.mem_append.mp h
    · exact hb h
    obtain h | h := List.mem_cons.mp h
    · exact hu h
    obtain h | h := mem_replace h
    · exact hd (List.mem_singleton.mp h)
    · exact hi h
  refine ⟨⟨?_, hout '/' hs (by decide) (by decide) hs', ?_, ?_⟩,
    hout nul hn (by decide) (by decide) hn'⟩
  all_goals
    intro he
    rw [he] at hmark
    revert hmark
    decide

theorem fileName_zip {n : Text} (hs : '/' ∉ n) (hn : nul ∉ n) : FileName (n ++ ".zip".toList) := by
  have hz : 'z' ∈ n ++ ".zip".toList := List.mem_append_right _ (by decide)
  have hout : ∀ x, x ∉ n → x ∉ ".zip".toList → x ∉ n ++ ".zip".toList :=
    fun x hb hx h => (List.mem_append.mp h).elim hb hx
  refine ⟨⟨?_, hout '/' hs (by decide), ?_, ?_⟩, hout nul hn (by decide)⟩
  all_goals
    intro he
    rw [he] at hz
    revert hz
    decide

theorem located_newEntry (hF : F.Documented) (hs : '/' ∉ o.bundleID) (hn : nul ∉ o.bundleID)
    (size : Int64) (docs : Bool) : Located (newEntry F o size docs) :=
  ⟨fileName_relPath hF hs hn, fileName_zip hs hn⟩

theorem fileName_backupDir (hF : F.Documented) (hs : '/' ∉ o.bundleID) (hn : nul ∉ o.bundleID) :
    ∀ n ∈ backupDir F o, FileName n := by
  intro n hm
  obtain h | h := List.mem_append.mp hm
  · exact fileName_backups F n h
  · rw [List.mem_singleton.mp h]
    exact fileName_relPath hF hs hn

theorem pieces_zipPath (hF : F.Documented) (hs : '/' ∉ o.bundleID) (hn : nul ∉ o.bundleID) :
    pieces (zipPath o.bundleID (absolute (backupDir F o))) = (zipFile F o).map .down := by
  have hz := (fileName_zip hs hn).1
  unfold zipPath
  rw [pieces_join hz.head, pieces_absolute (fileName_backupDir hF hs hn), pieces_legal hz, zipFile,
    List.map_append, List.map_singleton]

theorem fileName_metadataFile (hF : F.Documented) (hs : '/' ∉ o.bundleID) (hn : nul ∉ o.bundleID) :
    ∀ n ∈ metadataFile F o, FileName n := by
  have hj : FileName "metadata.json".toList := by decide
  intro n hm
  obtain h | h := List.mem_append.mp hm
  · exact fileName_backupDir hF hs hn n h
  · rwa [List.mem_singleton.mp h]

theorem zipFile_ne : zipFile F o ≠ metadataFile F o := by
  intro h
  have hl : o.bundleID ++ ".zip".toList = "metadata.json".toList :=
    List.singleton_inj.mp (List.append_cancel_left h)
  have hlast := congrArg List.getLast? hl
  rw [List.getLast?_append_of_ne_nil _ (by decide)] at hlast
  revert hlast
  decide

end Names

section Stages

variable {F : Foundation} {o : Order} {c : Crates} {fuel : Nat} {house : HouseArrest}

def Zipped (F : Foundation) (o : Order) (d d' : Disk Text UInt8) : Prop :=
  ∃ d₁, Led (backupDir F o) d d₁ ∧ Same (· = zipFile F o) d₁ d' ∧
    ∃ data, d'.tree.node (zipFile F o) = some (.file data)

def Tried (F : Foundation) (house : HouseArrest) (o : Order) (d d' : Disk Text UInt8) : Prop :=
  Led (backupDir F o) d d' ∨ (vend house o.bundleID).isOk ∧ Zipped F o d d'

theorem tryBackup_frame (hF : F.Documented) (hs : '/' ∉ o.bundleID) (hn : nul ∉ o.bundleID)
    (d : Disk Text UInt8) :
    Triple (Led (backupDir F o) d)
      (tryBackup c fuel house o.bundleID (absolute (backupDir F o)))
      (fun _ => Zipped F o d) (fun _ => Tried F house o d) := by
  unfold tryBackup Tried
  cases hv : vend house o.bundleID with
  | error e => exact Triple.error fun _ h => .inl h
  | ok p =>
    obtain ⟨afc, backupType⟩ := p
    have hmake : Triple (Led (backupDir F o) d)
        (createDirAll (pieces (absolute (backupDir F o)))) (fun _ => Led (backupDir F o) d)
        (fun (_ : Errno) => Led (backupDir F o) d) := by
      rw [pieces_absolute (fileName_backupDir hF hs hn)]
      exact (createDirAll_spec fun qs hqs => attempt_downs hqs).weaken (fun _ h => h)
        (fun _ _ h => h.1) (fun _ _ h => h)
    have hcreate : Triple (Led (backupDir F o) d)
        (create (pieces (zipPath o.bundleID (absolute (backupDir F o)))))
        (fun h d' => h = zipFile F o ∧ ∃ d₁, Led (backupDir F o) d d₁ ∧
          HasFile ((zipFile F o).map .down) d' ∧ Same (· = zipFile F o) d₁ d')
        (fun (_ : Errno) => Led (backupDir F o) d) := by
      rw [pieces_zipPath hF hs hn]
      refine Triple.each fun d₁ h₁ => (create_spec _ d₁).weaken (fun _ h => h) (fun h d' hd => ?_)
        (fun _ _ hd => h₁.trans (.of_same hd.1 hd.2))
      rw [resolve_down, List.nil_append] at hd
      exact ⟨hd.1, d₁, h₁, hd.2.1, hd.2.2.1⟩
    refine (Triple.mapErr (hmake.weaken (fun _ h => h) (fun _ _ h => h)
      (fun _ _ h => .inl h))).bind fun _ => ?_
    refine (Triple.mapErr (hcreate.weaken (fun _ h => h) (fun _ _ h => h)
      (fun _ _ h => .inl h))).bind fun h => ?_
    rintro d' ⟨rfl, d₁, h₁, hfile⟩
    have hinto := backupInto_frame c fuel afc backupType
      (zipPath o.bundleID (absolute (backupDir F o))) ((zipFile F o).map .down) d₁
    rw [resolve_down, List.nil_append] at hinto
    have hzip : ∀ d'', HasFile ((zipFile F o).map .down) d'' ∧ Same (· = zipFile F o) d₁ d'' →
        Zipped F o d d'' := by
      rintro d'' ⟨⟨data, hread⟩, hsame⟩
      exact ⟨d₁, h₁, hsame, data, Tree.read_downs.mp hread⟩
    exact (hinto.weaken (fun _ h => h) (fun _ _ h => hzip _ h)
      (fun _ _ h => .inr ⟨rfl, hzip _ h⟩)) d' hfile

theorem bridge_frame (hF : F.Documented) (hs : '/' ∉ o.bundleID) (hn : nul ∉ o.bundleID)
    (d : Disk Text UInt8) :
    Triple (Led (backupDir F o) d)
      (RustIdevice.backupApp F.parseError c fuel house o.bundleID (absolute (backupDir F o)))
      (fun json d' => (vend house o.bundleID).isOk ∧ Zipped F o d d' ∧ ∃ docs,
        readResponse F json = .ok (zipPath o.bundleID (absolute (backupDir F o)), docs))
      (fun _ => Tried F house o d) := by
  intro d' hd
  have hnul := nul_absolute (fileName_backupDir hF hs hn)
  have hspec := @tryBackup_frame F o c fuel house hF hs hn d d' hd
  have hans := tryBackup_answer c fuel house o.bundleID (absolute (backupDir F o)) d' trivial
  rw [RustIdevice.backupApp, run_callBridge, fromPtr_self hn, fromPtr_self hnul]
  generalize "backup".toList = what
  cases hr : (tryBackup c fuel house o.bundleID (absolute (backupDir F o))).run d' with
  | mk r d'' =>
    rw [hr] at hspec hans
    cases r with
    | error stop =>
      cases hx : received F.parseError what (.error stop) with
      | error e => exact hspec
      | ok answer =>
        cases stop with
        | error e => exact absurd hx (received_error _ _ _ _)
        | running => cases hx
        | panicked => cases hx
    | ok json =>
      obtain ⟨afc, backupType, total, hv, rfl⟩ := hans
      dsimp only [received]
      rw [receive_success total (nul_zipPath hn hnul) (vend_plain hv)]
      have hok : (vend house o.bundleID).isOk := by
        rw [hv]
        rfl
      by_cases hclean : Clean (zipPath o.bundleID (absolute (backupDir F o)))
      · rw [if_pos hclean]
        have hread := readResponse_success F total hclean (vend_plain hv)
        exact ⟨hok, hspec, _, hread⟩
      · rw [if_neg hclean]
        exact .inr ⟨hok, hspec⟩

def Recorded (F : Foundation) (o : Order) (d : Disk Text UInt8) : Prop :=
  ∃ size docs data, F.encode (newEntry F o size docs) = .ok data ∧
    d.tree.node (metadataFile F o) = some (.file data)

/-- What is left of the entry is no entry. -/
def Torn (F : Foundation) (o : Order) (d : Disk Text UInt8) : Prop :=
  ∃ s, d.tree.node (metadataFile F o) = some (.file s) ∧ F.decode s = none

theorem writeEntry_frame (hF : F.Documented) (hs : '/' ∉ o.bundleID) (hn : nul ∉ o.bundleID)
    (docs : Bool) (size : Int64) (d : Disk Text UInt8) :
    Triple (fun d' => d'.tree = d.tree) (writeEntry F o docs size)
      (fun _ d' => Same (· = metadataFile F o) d d' ∧ Recorded F o d')
      (fun _ d' => Same (· = metadataFile F o) d d' ∧
        (d'.tree.node (metadataFile F o) = d.tree.node (metadataFile F o) ∨ Torn F o d')) := by
  have hleft : ∀ d' : Disk Text UInt8, d'.tree = d.tree → Same (· = metadataFile F o) d d' ∧
      (d'.tree.node (metadataFile F o) = d.tree.node (metadataFile F o) ∨ Torn F o d') :=
    fun d' h => ⟨fun q _ => by rw [h], .inl (by rw [h])⟩
  have hnames := fileName_metadataFile hF hs hn
  unfold writeEntry
  cases hdata : F.encode (newEntry F o size docs) with
  | error e => exact Triple.error hleft
  | ok data =>
    dsimp only
    unfold writeData onPath
    rw [if_neg (nul_absolute hnames), pieces_absolute hnames]
    refine Triple.mapErr (Triple.bind (Q := fun h d' => h = metadataFile F o ∧
      HasFile ((metadataFile F o).map .down) d' ∧ Same (· = metadataFile F o) d d') ?_ fun h => ?_)
    · refine Triple.each fun d' hd' => (create_spec _ d').weaken (fun _ h => h) (fun h d'' hd => ?_)
        (fun _ _ h => hleft _ (h.1.trans hd'))
      rw [resolve_down, List.nil_append] at hd
      exact ⟨hd.1, hd.2.1, fun q hq => (hd.2.2.1 q hq).trans (by rw [hd'])⟩
    · rintro d' ⟨rfl, hfile, hsame⟩
      have hwrite := write_spec ((metadataFile F o).map .down) data d'
      rw [resolve_down, List.nil_append] at hwrite
      have hboth : ∀ d'', Same (· = metadataFile F o) d' d'' → Same (· = metadataFile F o) d d'' :=
        fun d'' h q hq => (h q hq).trans (hsame q hq)
      refine (hwrite.weaken (fun _ h => h)
        (fun _ _ h => ⟨hboth _ h.2.1, size, docs, data, hdata, Tree.read_downs.mp h.1⟩)
        (fun _ d'' h => ⟨hboth _ h.2.1, .inr ?_⟩)) d' ⟨rfl, hfile⟩
      obtain ⟨k, hk⟩ := h.1
      have hpos : 0 < data.length := by
        apply List.length_pos_of_ne_nil
        rintro rfl
        exact hF.encode_ne_nil _ hdata
      refine ⟨_, Tree.read_downs.mp hk, hF.decode_prefix _ _ _ hdata (List.take_prefix _ _)
        fun he => ?_⟩
      have hlen := congrArg List.length he
      rw [List.length_take] at hlen
      omega

theorem itemSize_frame (path : Text) (t : Tree Text Bytes) :
    Triple (fun d => d.tree = t) (itemSize path) (fun _ d => d.tree = t) (fun _ _ => False) := by
  have hload : Triple (fun d => d.tree = t) (load (pieces path)) (fun _ d => d.tree = t)
      (fun (_ : Errno) d => d.tree = t) := by
    refine Triple.call (fun _ d => d.tree = t) (fun d hd => ?_) fun r => ?_
    · unfold Call.exec
      cases d.faults.head?.join <;> exact hd
    · cases r <;> exact fun _ hd => hd
  exact hload.handle (fun _ => Triple.ok fun _ h => h) (fun _ => Triple.ok fun _ h => h)

theorem recordBackup_frame (hF : F.Documented) (hs : '/' ∉ o.bundleID) (hn : nul ∉ o.bundleID)
    {json zip : Text} {docs : Bool} (hread : readResponse F json = .ok (zip, docs))
    (d : Disk Text UInt8) :
    Triple (fun d' => d'.tree = d.tree) (recordBackup F o json)
      (fun z d' => z = zip ∧ Same (· = metadataFile F o) d d' ∧ Recorded F o d')
      (fun _ d' => Same (· = metadataFile F o) d d' ∧
        (d'.tree.node (metadataFile F o) = d.tree.node (metadataFile F o) ∨ Torn F o d')) := by
  unfold recordBackup
  rw [hread]
  dsimp only
  refine ((itemSize_frame zip d.tree).weaken (fun _ h => h) (fun _ _ h => h)
    (fun _ _ h => h.elim)).bind fun size => ?_
  exact (writeEntry_frame hF hs hn docs size d).bind fun _ => Triple.ok fun _ h => ⟨rfl, h⟩

end Stages

end UnBoxer.BackupFrame
