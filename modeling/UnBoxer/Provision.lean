import UnBoxer.PairingManager
import UnBoxer.Staging

namespace UnBoxer.Provision

open UnBoxer.Trees UnBoxer.Programs UnBoxer.DirAll UnBoxer.Effects UnBoxer.Scaffolds
open UnBoxer.PathText UnBoxer.Archives UnBoxer.TryExtract UnBoxer.Endings UnBoxer.Staging
open UnBoxer.PairingManager UnBoxer.JsonParser

inductive IdeviceError where
  | service (e : Text)
  | socket (e : Errno)

/-- The profile service: whether it is reached, and its answer to `copy_all`. -/
structure MisagentClient where
  connect : Except IdeviceError Unit
  copyAll : Except IdeviceError (List Bytes)

abbrev FromBytes := Bytes → Option (Text → Option PlistValue)

section Dump

variable (fromBytes : FromBytes) (docsPath : Text)

def fileName (i : Nat) (profile : Bytes) : Text :=
  match fromBytes profile with
  | some plist =>
    match plist "UUID".toList with
    | some (.string uuid) => uuid ++ ".mobileprovision".toList
    | _ => "unknown_".toList ++ decimal i ++ ".mobileprovision".toList
  | none => "unknown_".toList ++ decimal i ++ ".plist".toList

def dumpDir : Text := docsPath ++ "/PROVISION".toList

/-- `fs::write` on the path of a name in a directory. -/
def fsWrite (dir name : Text) (contents : Bytes) : Prog Text UInt8 Errno Unit :=
  (refusing (pieces name) (create (target dir name))).bind fun h => write h contents

def dumpProfile (entry : Bytes × Nat) : Prog Text UInt8 IdeviceError Unit :=
  (fsWrite (dumpDir docsPath) (fileName fromBytes entry.2 entry.1) entry.1).mapErr .socket

def dumpProvisioningProfileRppairing (client : MisagentClient) :
    Prog Text UInt8 IdeviceError Unit :=
  match client.connect with
  | .error e => .done (.error e)
  | .ok () => ((createDirAll (pieces (dumpDir docsPath))).mapErr .socket).bind fun _ =>
    match client.copyAll with
    | .error e => .done (.error e)
    | .ok profiles => Prog.forEach (dumpProfile fromBytes docsPath) profiles.zipIdx

end Dump

section Names

theorem legal_extension {s ext : Text} (hb : '/' ∉ s) (hs : '/' ∉ ext) (hp : 'p' ∈ ext) :
    Legal (s ++ ext) := by
  have hmem : 'p' ∈ s ++ ext := List.mem_append_right s hp
  refine ⟨List.ne_nil_of_mem hmem, ?_, fun h => ?_, fun h => ?_⟩
  · simp [hb, hs]
  · rw [h] at hmem
    revert hmem
    decide
  · rw [h] at hmem
    revert hmem
    decide

theorem pieces_extension (s : Text) {ext : Text} (hs : '/' ∉ ext) (hp : 'p' ∈ ext) :
    ∃ qs n, pieces (s ++ ext) = qs ++ [.down n] := by
  by_cases hslash : '/' ∈ s
  · obtain ⟨bs, as, hrev, hb⟩ := List.eq_append_cons_of_mem (List.mem_reverse.mpr hslash)
    have hsplit : s = as.reverse ++ '/' :: bs.reverse := by
      rw [← List.reverse_reverse s, hrev]
      simp
    refine ⟨pieces as.reverse, bs.reverse ++ ext, ?_⟩
    rw [hsplit, List.append_assoc, List.cons_append, pieces_append,
      pieces_legal (legal_extension (by simpa using hb) hs hp)]
  · exact ⟨[], s ++ ext, pieces_legal (legal_extension hslash hs hp)⟩

theorem join_suffix (dir name : Text) : ∃ s, join dir name = s ++ name := by
  unfold join
  split
  · exact ⟨[], rfl⟩
  split
  · exact ⟨dir, rfl⟩
  · exact ⟨dir ++ ['/'], by simp⟩

theorem fileName_extension (fromBytes : FromBytes) (i : Nat) (profile : Bytes) :
    ∃ s ext, fileName fromBytes i profile = s ++ ext ∧ '/' ∉ ext ∧ 'p' ∈ ext := by
  have hprovision : '/' ∉ ".mobileprovision".toList ∧ 'p' ∈ ".mobileprovision".toList := by decide
  unfold fileName
  split
  · split
    · exact ⟨_, _, rfl, hprovision⟩
    · exact ⟨_, _, rfl, hprovision⟩
  · exact ⟨_, _, rfl, by decide⟩

end Names

section Law

variable (fromBytes : FromBytes) (docsPath : Text) (profiles : List Bytes)

/-- The folder of the dump, with all dots resolved. -/
def folder : List Text := resolve [] (pieces (dumpDir docsPath))

/-- Every profile is the content of a file of its own in the folder, and no file
was touched elsewhere. -/
structure Dumped (d : Disk Text UInt8) : Prop where
  kept : ∃ names : List Text, names.Nodup ∧ List.Forall₂
    (fun n profile => d.tree.node (folder docsPath ++ [n]) = some (.file profile)) names profiles
  inside : ∀ q ∈ d.touched, ∀ b, d.tree.node q = some (.file b) → folder docsPath <+: q

def destination (entry : Bytes × Nat) : List (Piece Text) :=
  target (dumpDir docsPath) (fileName fromBytes entry.2 entry.1)

def place (entry : Bytes × Nat) : List Text := resolve [] (destination fromBytes docsPath entry)

def places : List (List Text) := profiles.zipIdx.map (place fromBytes docsPath)

/-- The profiles go to different paths, all of them directly in the folder. -/
structure Separate : Prop where
  nodup : (places fromBytes docsPath profiles).Nodup
  inside : ∀ p ∈ places fromBytes docsPath profiles, ∃ n, p = folder docsPath ++ [n]

def walks : List (List (Piece Text)) :=
  pieces (dumpDir docsPath) ::
    profiles.zipIdx.map fun entry => (destination fromBytes docsPath entry).dropLast

/-- The profiles can be written at all: no name has a NUL in it, and none goes
where another one needs a directory. -/
structure Writable : Prop where
  plain : ∀ entry ∈ profiles.zipIdx,
    (pieces (fileName fromBytes entry.2 entry.1)).any hasNul = false
  free : ∀ p ∈ places fromBytes docsPath profiles, ¬ Needed (walks fromBytes docsPath profiles) p

end Law

section Uuids

/-- The UUID that the file of a profile is named by, if it has one. -/
def uuid (fromBytes : FromBytes) (profile : Bytes) : Option Text :=
  match (fromBytes profile).bind fun plist => plist "UUID".toList with
  | some (.string uuid) => some uuid
  | _ => none

def unknown (i : Nat) : Text := "unknown_".toList ++ decimal i

def extension (fromBytes : FromBytes) (profile : Bytes) : Text :=
  if fromBytes profile = none then ".plist".toList else ".mobileprovision".toList

variable {fromBytes : FromBytes} {docsPath : Text} {profiles : List Bytes} {profile : Bytes}
  {e e' : Bytes × Nat} {u : Text}

theorem fileName_uuid (h : uuid fromBytes profile = some u) (i : Nat) :
    fileName fromBytes i profile = u ++ ".mobileprovision".toList := by
  rw [uuid] at h
  rw [fileName]
  cases hb : fromBytes profile with
  | none =>
    rw [hb] at h
    cases h
  | some plist =>
    rw [hb, Option.bind_some] at h
    split at h
    · rename_i hu
      cases h
      simp only [hu]
    · cases h

theorem fileName_unknown (h : uuid fromBytes profile = none) (i : Nat) :
    fileName fromBytes i profile = unknown i ++ extension fromBytes profile := by
  rw [uuid] at h
  rw [fileName, extension]
  change _ = "unknown_".toList ++ decimal i ++ _
  cases hb : fromBytes profile with
  | none => simp only [if_true]
  | some plist =>
    rw [hb, Option.bind_some] at h
    simp only [reduceCtorEq, if_false]
    split
    · rename_i hu
      simp only [hu, reduceCtorEq] at h
    · rfl

theorem extension_eq (fromBytes : FromBytes) (profile : Bytes) :
    ∃ ext, extension fromBytes profile = '.' :: ext ∧ '/' ∉ '.' :: ext ∧ 'p' ∈ '.' :: ext := by
  rw [extension]
  split
  · exact ⟨"plist".toList, by decide, by decide⟩
  · exact ⟨"mobileprovision".toList, by decide, by decide⟩

theorem slash_unknown (i : Nat) : '/' ∉ unknown i := by
  have hs : '/' ∉ "unknown_".toList := by decide
  intro h
  obtain h | h := List.mem_append.mp (show '/' ∈ "unknown_".toList ++ decimal i from h)
  · exact hs h
  · exact absurd (decimal_digit h) (by decide)

theorem legal_unknown (h : uuid fromBytes profile = none) (i : Nat) :
    Legal (fileName fromBytes i profile) := by
  obtain ⟨ext, hext, hs, hp⟩ := extension_eq fromBytes profile
  have hl := legal_extension (slash_unknown i) hs hp
  rwa [← hext, ← fileName_unknown h] at hl

theorem decimal_injective {i j : Nat} (h : decimal i = decimal j) : i = j := by
  have hd := congrArg (fun ds => Nat.ofDigitChars 10 ds 0) h
  simpa only [decimal, Nat.ofDigitChars_ten_toDigits] using hd

theorem takeWhile_decimal (k : Nat) (r : Text) :
    (decimal k ++ '.' :: r).takeWhile Char.isDigit = decimal k := by
  rw [List.takeWhile_append_of_pos fun c hc => decimal_digit hc]
  exact List.append_nil _

theorem position_of_name {i j : Nat} {s ext ext' : Text}
    (h : s ++ decimal i ++ '.' :: ext = s ++ decimal j ++ '.' :: ext') : i = j := by
  rw [List.append_assoc, List.append_assoc] at h
  have hd := congrArg (List.takeWhile Char.isDigit) (List.append_cancel_left h)
  rw [takeWhile_decimal, takeWhile_decimal] at hd
  exact decimal_injective hd

theorem place_legal (h : Legal (fileName fromBytes e.2 e.1)) :
    place fromBytes docsPath e = folder docsPath ++ [fileName fromBytes e.2 e.1] := by
  rw [place, destination, target, pieces_join h.head, pieces_legal h, resolve_append]
  rfl

theorem eq_of_position (he : e ∈ profiles.zipIdx) (he' : e' ∈ profiles.zipIdx)
    (h : e.2 = e'.2) : e = e' := by
  rw [List.mem_zipIdx_iff_getElem?] at he he'
  rw [h] at he
  exact Prod.ext (Option.some.inj (he.symm.trans he')) h

/-- Profiles without a UUID never share a file, and theirs are in the folder. -/
theorem separate_iff_uuids : Separate fromBytes docsPath profiles ↔
    (∀ e ∈ profiles.zipIdx, uuid fromBytes e.1 ≠ none →
      ∃ n, place fromBytes docsPath e = folder docsPath ++ [n]) ∧
    ∀ e ∈ profiles.zipIdx, ∀ e' ∈ profiles.zipIdx, uuid fromBytes e.1 ≠ none →
      place fromBytes docsPath e = place fromBytes docsPath e' → e = e' := by
  have hinj : (places fromBytes docsPath profiles).Nodup ↔ ∀ e ∈ profiles.zipIdx,
      ∀ e' ∈ profiles.zipIdx, place fromBytes docsPath e = place fromBytes docsPath e' →
        e = e' := by
    refine List.nodup_map_iff_inj_on (List.Nodup.of_map Prod.snd ?_)
    exact by simp [List.nodup_range']
  have hunknown : ∀ e, uuid fromBytes e.1 = none →
      place fromBytes docsPath e = folder docsPath ++ [fileName fromBytes e.2 e.1] :=
    fun e h => place_legal (legal_unknown h e.2)
  constructor
  · intro h
    exact ⟨fun e he _ => h.inside _ (List.mem_map_of_mem he),
      fun e he e' he' _ => hinj.mp h.nodup e he e' he'⟩
  · rintro ⟨hin, hne⟩
    refine ⟨hinj.mpr fun e he e' he' heq => ?_, fun p hp => ?_⟩
    · by_cases hu : uuid fromBytes e.1 = none
      · by_cases hu' : uuid fromBytes e'.1 = none
        · rw [hunknown e hu, hunknown e' hu', fileName_unknown hu, fileName_unknown hu'] at heq
          obtain ⟨ext, hext, -⟩ := extension_eq fromBytes e.1
          obtain ⟨ext', hext', -⟩ := extension_eq fromBytes e'.1
          have hnames := List.singleton_inj.mp (List.append_cancel_left heq)
          rw [hext, hext'] at hnames
          exact eq_of_position he he' (position_of_name hnames)
        · exact (hne e' he' e he hu' heq.symm).symm
      · exact hne e he e' he' hu heq
    · obtain ⟨e, he, rfl⟩ := List.mem_map.mp hp
      by_cases hu : uuid fromBytes e.1 = none
      · exact ⟨_, hunknown e hu⟩
      · exact hin e he hu

theorem extension_last (fromBytes : FromBytes) (profile : Bytes) :
    (fromBytes profile ≠ none → extension fromBytes profile = ".mobileprovision".toList) ∧
    ∀ s s' : Text, fromBytes profile = none →
      s ++ ".mobileprovision".toList ≠ s' ++ extension fromBytes profile := by
  refine ⟨fun h => if_neg h, fun s s' h he => ?_⟩
  rw [extension, if_pos h] at he
  have hlast := congrArg List.getLast? he
  rw [List.getLast?_append_of_ne_nil _ (by decide), List.getLast?_append_of_ne_nil _ (by decide)]
    at hlast
  exact absurd hlast (by decide)

/-- Where no UUID has a slash in it, each must differ from all others, and from the names of the
profiles that have none. -/
theorem separate_iff_distinct
    (hslash : ∀ e ∈ profiles.zipIdx, ∀ u, uuid fromBytes e.1 = some u → '/' ∉ u) :
    Separate fromBytes docsPath profiles ↔ ∀ e ∈ profiles.zipIdx, ∀ e' ∈ profiles.zipIdx, e ≠ e' →
      ∀ u, uuid fromBytes e.1 = some u → uuid fromBytes e'.1 ≠ some u ∧
        (uuid fromBytes e'.1 = none → fromBytes e'.1 ≠ none → u ≠ unknown e'.2) := by
  have hplace : ∀ e ∈ profiles.zipIdx,
      place fromBytes docsPath e = folder docsPath ++ [fileName fromBytes e.2 e.1] := by
    intro e he
    cases hu : uuid fromBytes e.1 with
    | none => exact place_legal (legal_unknown hu e.2)
    | some u =>
      refine place_legal ?_
      rw [fileName_uuid hu]
      exact legal_extension (hslash e he u hu) (by decide) (by decide)
  have hsame : ∀ e ∈ profiles.zipIdx, ∀ e' ∈ profiles.zipIdx,
      place fromBytes docsPath e = place fromBytes docsPath e' ↔
        fileName fromBytes e.2 e.1 = fileName fromBytes e'.2 e'.1 := by
    intro e he e' he'
    rw [hplace e he, hplace e' he', List.append_right_inj, List.singleton_inj]
  rw [separate_iff_uuids]
  constructor
  · rintro ⟨-, hne⟩ e he e' he' hdiff u hu
    have hfiles := fun heq => hdiff (hne e he e' he' (by rw [hu]; exact Option.some_ne_none u)
      ((hsame e he e' he').mpr heq))
    rw [fileName_uuid hu] at hfiles
    refine ⟨fun hu' => hfiles (fileName_uuid hu' _).symm, fun hu' hb hunk => hfiles ?_⟩
    rw [fileName_unknown hu', (extension_last fromBytes e'.1).1 hb, hunk]
  · intro h
    refine ⟨fun e he _ => ⟨_, hplace e he⟩, fun e he e' he' hu heq => ?_⟩
    by_contra hdiff
    obtain ⟨u, hu⟩ := Option.ne_none_iff_exists'.mp hu
    obtain ⟨hother, hunk⟩ := h e he e' he' hdiff u hu
    have hnames := (hsame e he e' he').mp heq
    rw [fileName_uuid hu] at hnames
    cases hu' : uuid fromBytes e'.1 with
    | some u' =>
      rw [fileName_uuid hu'] at hnames
      rw [hu', List.append_cancel_right hnames] at hother
      exact hother rfl
    | none =>
      rw [fileName_unknown hu'] at hnames
      by_cases hb : fromBytes e'.1 = none
      · exact (extension_last fromBytes e'.1).2 _ _ hb hnames
      · rw [(extension_last fromBytes e'.1).1 hb] at hnames
        exact hunk hu' hb (List.append_cancel_right hnames)

end Uuids

section Runs

theorem fsWrite_spec (dir name : Text) (contents : Bytes) (d : Disk Text UInt8) :
    Triple (· = d) (fsWrite dir name contents)
      (fun _ d' => (pieces name).any hasNul = false ∧
        d'.tree.read (target dir name) = .ok contents ∧
        Same (· = resolve [] (target dir name)) d d' ∧
        d'.touched = d.touched ++ [resolve [] (target dir name), resolve [] (target dir name)])
      (fun _ _ => True) := by
  have hcreate : Triple (· = d) (refusing (pieces name) (create (target dir name)))
      (fun h d' => (pieces name).any hasNul = false ∧ h = resolve [] (target dir name) ∧
        (∃ b, d'.tree.read (target dir name) = .ok b) ∧
        Same (· = resolve [] (target dir name)) d d' ∧
        d'.touched = d.touched ++ [resolve [] (target dir name)])
      (fun _ _ => True) := by
    unfold refusing
    split
    · exact Triple.error fun _ _ => trivial
    · rename_i hplain
      rw [Bool.not_eq_true] at hplain
      exact (create_spec _ d).weaken (fun _ h => h) (fun _ _ h => ⟨hplain, h⟩) fun _ _ _ => trivial
  refine hcreate.bind fun h => Triple.each ?_
  rintro d₁ ⟨hplain, rfl, hread, hsame, hto⟩
  refine (write_spec (target dir name) contents d₁).weaken (fun _ hd => ⟨hd, hd ▸ hread⟩) ?_
    (fun _ _ _ => trivial)
  rintro _ d' ⟨hread', hsame', hto'⟩
  refine ⟨hplain, hread', fun q hq => (hsame' q hq).trans (hsame q hq), ?_⟩
  rw [hto', hto, List.append_assoc]
  rfl

variable (fromBytes : FromBytes) (docsPath : Text)

/-- The profiles `es` have been written, each for the moment. -/
structure Reached (es : List (Bytes × Nat)) (t : Tree Text Bytes) : Prop where
  opened : t.Open [] (pieces (dumpDir docsPath))
  entries : ∀ e ∈ es, (pieces (fileName fromBytes e.2 e.1)).any hasNul = false ∧
    t.Open [] (destination fromBytes docsPath e).dropLast ∧
    ∃ b, t.node (place fromBytes docsPath e) = some (.file b)

/-- The profiles `es` are still there, and no other file was touched. -/
structure Landed (es : List (Bytes × Nat)) (d : Disk Text UInt8) : Prop where
  kept : ∀ e ∈ es, d.tree.node (place fromBytes docsPath e) = some (.file e.1)
  touched : ∀ q ∈ d.touched, d.tree.node q = some .dir ∨ ∃ e ∈ es, q = place fromBytes docsPath e

variable {fromBytes docsPath}

theorem Reached.step {es : List (Bytes × Nat)} {e : Bytes × Nat} {t t' : Tree Text Bytes}
    (h : Reached fromBytes docsPath es t) (ha : After t t')
    (hplain : (pieces (fileName fromBytes e.2 e.1)).any hasNul = false)
    (hread : t'.read (destination fromBytes docsPath e) = .ok e.1) :
    Reached fromBytes docsPath (es ++ [e]) t' := by
  refine ⟨ha.open h.opened, fun e' he' => ?_⟩
  obtain he' | he' := List.mem_append.mp he'
  · obtain ⟨hplain', hopen, b, hb⟩ := h.entries e' he'
    exact ⟨hplain', ha.open hopen, ha.file _ b hb⟩
  · obtain rfl := List.mem_singleton.mp he'
    obtain ⟨qs, n, hpath, hopen, hnode⟩ := Tree.read_ok.mp hread
    refine ⟨hplain, ?_, _, hnode⟩
    rwa [hpath, List.dropLast_concat]

theorem Landed.step {es : List (Bytes × Nat)} {e : Bytes × Nat} {d d' : Disk Text UInt8}
    (h : Landed fromBytes docsPath es d)
    (hnew : place fromBytes docsPath e ∉ es.map (place fromBytes docsPath))
    (hread : d'.tree.read (destination fromBytes docsPath e) = .ok e.1)
    (hsame : Same (· = place fromBytes docsPath e) d d')
    (hto : d'.touched = d.touched ++ [place fromBytes docsPath e, place fromBytes docsPath e]) :
    Landed fromBytes docsPath (es ++ [e]) d' := by
  refine ⟨fun e' he' => ?_, fun q hq => ?_⟩
  · obtain he' | he' := List.mem_append.mp he'
    · have hne : place fromBytes docsPath e' ≠ place fromBytes docsPath e :=
        fun heq => hnew (heq ▸ List.mem_map_of_mem he')
      exact (hsame _ hne).trans (h.kept e' he')
    · obtain rfl := List.mem_singleton.mp he'
      obtain ⟨_, _, _, _, hnode⟩ := Tree.read_ok.mp hread
      exact hnode
  · by_cases hqe : q = place fromBytes docsPath e
    · exact .inr ⟨e, by simp, hqe⟩
    · have hq' : q ∈ d.touched := by simpa [hto, hqe] using hq
      obtain hdir | ⟨e', he', hqe'⟩ := h.touched q hq'
      · exact .inl ((hsame q hqe).trans hdir)
      · exact .inr ⟨e', List.mem_append_left _ he', hqe'⟩

theorem dumpProfile_spec (e : Bytes × Nat) (d : Disk Text UInt8) :
    Triple (· = d) (dumpProfile fromBytes docsPath e)
      (fun _ d' => (pieces (fileName fromBytes e.2 e.1)).any hasNul = false ∧
        d'.tree.read (destination fromBytes docsPath e) = .ok e.1 ∧
        Same (· = place fromBytes docsPath e) d d' ∧
        d'.touched = d.touched ++ [place fromBytes docsPath e, place fromBytes docsPath e])
      (fun _ _ => True) :=
  Triple.mapErr (fsWrite_spec (dumpDir docsPath) (fileName fromBytes e.2 e.1) e.1 d)

theorem dumpProfiles_spec (es : List (Bytes × Nat)) :
    Triple (fun d => d.tree.Open [] (pieces (dumpDir docsPath)) ∧
        ∀ q ∈ d.touched, d.tree.node q = some .dir)
      (Prog.forEach (dumpProfile fromBytes docsPath) es)
      (fun _ d => Reached fromBytes docsPath es d.tree ∧
        ((es.map (place fromBytes docsPath)).Nodup → Landed fromBytes docsPath es d))
      (fun _ _ => True) := by
  have hbody : ∀ ys e zs, es = ys ++ e :: zs →
      Triple (fun d => Reached fromBytes docsPath ys d.tree ∧
          ((ys.map (place fromBytes docsPath)).Nodup → Landed fromBytes docsPath ys d))
        (dumpProfile fromBytes docsPath e)
        (fun _ d => Reached fromBytes docsPath (ys ++ [e]) d.tree ∧
          (((ys ++ [e]).map (place fromBytes docsPath)).Nodup →
            Landed fromBytes docsPath (ys ++ [e]) d))
        (fun _ _ => True) := by
    intro ys e zs _
    refine Triple.each fun d hd => ?_
    refine (triple_after (dumpProfile_spec e d)).weaken (fun _ h => h) ?_ (fun _ _ _ => trivial)
    rintro _ d' ⟨⟨hplain, hread, hsame, hto⟩, hafter⟩
    refine ⟨hd.1.step hafter hplain hread, fun hnodup => ?_⟩
    rw [List.map_append, List.map_singleton, List.nodup_append] at hnodup
    refine (hd.2 hnodup.1).step (fun hm => ?_) hread hsame hto
    exact hnodup.2.2 _ hm _ (List.mem_singleton_self _) rfl
  refine (Triple.forEach es _ hbody).weaken (fun d hd => ?_) (fun _ _ h => h) (fun _ _ h => h)
  have hnone : ∀ e : Bytes × Nat, e ∉ [] := fun _ h => by cases h
  exact ⟨⟨hd.1, fun e he => absurd he (hnone e)⟩,
    fun _ => ⟨fun e he => absurd he (hnone e), fun q hq => .inl (hd.2 q hq)⟩⟩

theorem dump_spec (profiles : List Bytes) :
    Triple (fun d => d.touched = [])
      (dumpProvisioningProfileRppairing fromBytes docsPath ⟨.ok (), .ok profiles⟩)
      (fun _ d => Reached fromBytes docsPath profiles.zipIdx d.tree ∧
        ((places fromBytes docsPath profiles).Nodup →
          Landed fromBytes docsPath profiles.zipIdx d))
      (fun _ _ => True) := by
  refine Triple.each fun d hd => ?_
  have hmake : Triple (· = d)
      ((createDirAll (pieces (dumpDir docsPath))).mapErr IdeviceError.socket)
      (fun _ d' => d'.tree.Open [] (pieces (dumpDir docsPath)) ∧
        ∀ q ∈ d'.touched, d'.tree.node q = some .dir)
      (fun _ _ => True) := by
    have hgrown := @createDirAll_spec _ _ _ (fun _ => True) d (pieces (dumpDir docsPath))
      fun _ _ => trivial
    refine Triple.mapErr (hgrown.weaken (fun d' h => h ▸ .of_same rfl rfl) ?_
      (fun _ _ _ => trivial))
    rintro _ d' ⟨⟨new, hto, hnode, _⟩, hopen⟩
    refine ⟨hopen, fun q hq => ?_⟩
    rw [hto, hd, List.nil_append] at hq
    rw [hnode, if_pos hq]
  exact hmake.bind fun _ => dumpProfiles_spec profiles.zipIdx

end Runs

section Forward

variable {fromBytes : FromBytes} {docsPath : Text} {profiles : List Bytes}

theorem mem_places {e : Bytes × Nat} (he : e ∈ profiles.zipIdx) :
    place fromBytes docsPath e ∈ places fromBytes docsPath profiles := List.mem_map_of_mem he

theorem writable_of_reached {t : Tree Text Bytes}
    (h : Reached fromBytes docsPath profiles.zipIdx t) : Writable fromBytes docsPath profiles := by
  have hopen : ∀ ps ∈ walks fromBytes docsPath profiles, t.Open [] ps := by
    intro ps hps
    obtain rfl | hps := List.mem_cons.mp hps
    · exact h.opened
    · obtain ⟨e, he, rfl⟩ := List.mem_map.mp hps
      exact (h.entries e he).2.1
  refine ⟨fun e he => (h.entries e he).1, fun p hp hn => ?_⟩
  obtain ⟨e, he, rfl⟩ := List.mem_map.mp hp
  obtain ⟨_, _, b, hb⟩ := h.entries e he
  rw [needed_dir hopen hn] at hb
  cases hb

theorem dumped_of_landed (hs : Separate fromBytes docsPath profiles) {d : Disk Text UInt8}
    (h : Landed fromBytes docsPath profiles.zipIdx d) : Dumped docsPath profiles d := by
  have hname : ∀ e ∈ profiles.zipIdx, ∃ n, place fromBytes docsPath e = folder docsPath ++ [n] :=
    fun e he => hs.inside _ (mem_places he)
  choose! name hplace using hname
  refine ⟨⟨profiles.zipIdx.map name, ?_, ?_⟩, fun q hq b hb => ?_⟩
  · apply List.Nodup.of_map (folder docsPath ++ [·])
    rw [List.map_map]
    have hmap : profiles.zipIdx.map ((folder docsPath ++ [·]) ∘ name) =
        places fromBytes docsPath profiles :=
      List.map_congr_left fun e he => (hplace e he).symm
    rw [hmap]
    exact hs.nodup
  · have hforall : List.Forall₂ (fun n profile =>
        d.tree.node (folder docsPath ++ [n]) = some (.file profile))
        (profiles.zipIdx.map name) (profiles.zipIdx.map Prod.fst) := by
      refine List.forall₂_map_left_iff.mpr (List.forall₂_map_right_iff.mpr ?_)
      refine List.forall₂_same.mpr fun e he => ?_
      rw [← hplace e he]
      exact h.kept e he
    rwa [List.zipIdx_map_fst] at hforall
  · obtain hdir | ⟨e, he, rfl⟩ := h.touched q hq
    · rw [hdir] at hb
      cases hb
    · rw [hplace e he]
      exact List.prefix_append _ _

end Forward

section Backward

variable {fromBytes : FromBytes} {docsPath : Text} {profiles : List Bytes}

/-- Where the profiles are the only files, each has a file of its own only if their
places are different. -/
theorem separate_of_dumped {d : Disk Text UInt8} (h : Dumped docsPath profiles d)
    (honly : ∀ q b, d.tree.node q = some (.file b) → q ∈ places fromBytes docsPath profiles) :
    Separate fromBytes docsPath profiles := by
  obtain ⟨names, hnodup, hfiles⟩ := h.kept
  have hinj : Function.Injective (folder docsPath ++ [·]) := by
    intro n n' he
    exact List.singleton_inj.mp (List.append_cancel_left he)
  have hsub : names.map (folder docsPath ++ [·]) ⊆ places fromBytes docsPath profiles := by
    intro q hq
    obtain ⟨n, hn, rfl⟩ := List.mem_map.mp hq
    obtain ⟨i, hi, rfl⟩ := List.getElem_of_mem hn
    exact honly _ _ (hfiles.get hi (hfiles.length_eq ▸ hi))
  have hlen : (places fromBytes docsPath profiles).length ≤
      (names.map (folder docsPath ++ [·])).length := by
    simp [places, hfiles.length_eq]
  have hperm := (List.subperm_of_subset (hnodup.map hinj) hsub).perm_of_length_le hlen
  refine ⟨hperm.nodup_iff.mp (hnodup.map hinj), fun p hp => ?_⟩
  obtain ⟨n, _, rfl⟩ := List.mem_map.mp (hperm.mem_iff.mpr hp)
  exact ⟨n, rfl⟩

theorem passes_dumpProfile {e : Bytes × Nat} {t : Tree Text Bytes}
    (hplain : (pieces (fileName fromBytes e.2 e.1)).any hasNul = false)
    (hopen : t.Open [] (destination fromBytes docsPath e).dropLast)
    (hn : t.node (place fromBytes docsPath e) ≠ some .dir) :
    ∃ t', Passes (dumpProfile fromBytes docsPath e) t () t' ∧
      t'.node = Function.update t.node (place fromBytes docsPath e) (some (.file e.1)) := by
  obtain ⟨s, ext, hname, hs, hp⟩ := fileName_extension fromBytes e.2 e.1
  obtain ⟨s', hjoin⟩ := join_suffix (dumpDir docsPath) (fileName fromBytes e.2 e.1)
  obtain ⟨qs, n, hpath⟩ : ∃ qs n, destination fromBytes docsPath e = qs ++ [.down n] := by
    rw [destination, target, hjoin, hname, ← List.append_assoc]
    exact pieces_extension (s' ++ s) hs hp
  have hplace : place fromBytes docsPath e = resolve [] qs ++ [n] := by
    rw [place, hpath, resolve_append]
    rfl
  rw [hpath, List.dropLast_concat] at hopen
  rw [hplace] at hn ⊢
  obtain ⟨t₁, t₂, hcreate, hwrite, ht₂⟩ := passes_create hopen hn e.1
  refine ⟨t₂, ?_, ht₂⟩
  unfold dumpProfile fsWrite
  rw [refusing_plain hplain]
  change Passes (((create (destination fromBytes docsPath e)).bind fun h =>
    write h e.1).mapErr IdeviceError.socket) t () t₂
  rw [hpath]
  exact (hcreate.bind hwrite).mapErr

theorem passes_dumpProfiles {ws : List (List (Piece Text))} (es : List (Bytes × Nat))
    {t : Tree Text Bytes} (hground : Ground ws t)
    (hplain : ∀ e ∈ es, (pieces (fileName fromBytes e.2 e.1)).any hasNul = false)
    (hfree : ∀ e ∈ es, ¬ Needed ws (place fromBytes docsPath e))
    (hwalks : ∀ e ∈ es, (destination fromBytes docsPath e).dropLast ∈ ws) :
    ∃ t', Passes (Prog.forEach (dumpProfile fromBytes docsPath) es) t () t' ∧ Ground ws t' ∧
      ∀ q, t'.node q ≠ none → t.node q ≠ none ∨ q ∈ es.map (place fromBytes docsPath) := by
  induction es generalizing t with
  | nil => exact ⟨t, .done () t, hground, fun q hq => .inl hq⟩
  | cons e es ih =>
    have hfree₀ := hfree e List.mem_cons_self
    have hopen := hground.open ⟨_, hwalks e List.mem_cons_self, List.prefix_refl _⟩
    obtain ⟨t₁, hpass₁, ht₁⟩ := passes_dumpProfile (hplain e List.mem_cons_self) hopen
      fun h => hfree₀ ((hground _).mp h)
    obtain ⟨t', hpass, hground', hnew⟩ := ih (hground.put hfree₀ ht₁)
      (fun e' he' => hplain e' (List.mem_cons_of_mem e he'))
      (fun e' he' => hfree e' (List.mem_cons_of_mem e he'))
      (fun e' he' => hwalks e' (List.mem_cons_of_mem e he'))
    refine ⟨t', hpass₁.bind hpass, hground', fun q hq => ?_⟩
    obtain hq | hq := hnew q hq
    · by_cases hqe : q = place fromBytes docsPath e
      · exact .inr (hqe ▸ List.mem_cons_self)
      · rw [ht₁, Function.update_of_ne hqe] at hq
        exact .inl hq
    · exact .inr (List.mem_cons_of_mem _ hq)

theorem exists_dumped (h : Writable fromBytes docsPath profiles) : ∃ d : Disk Text UInt8,
    d.touched = [] ∧
    ((dumpProvisioningProfileRppairing fromBytes docsPath ⟨.ok (), .ok profiles⟩).run d).1 =
      .ok () ∧
    ∀ q b, ((dumpProvisioningProfileRppairing fromBytes docsPath ⟨.ok (), .ok profiles⟩).run
        d).2.tree.node q = some (.file b) → q ∈ places fromBytes docsPath profiles := by
  have hne : walks fromBytes docsPath profiles ≠ [] := List.cons_ne_nil _ _
  obtain ⟨t, ht⟩ := exists_scaffold Bytes hne
  have hground : Ground (walks fromBytes docsPath profiles) t := by
    intro q
    by_cases hn : Needed (walks fromBytes docsPath profiles) q
    · exact iff_of_true ((ht q).1 hn) hn
    · exact iff_of_false (by simp [(ht q).2 hn]) hn
  obtain ⟨t', hpass, hground', hnew⟩ := passes_dumpProfiles profiles.zipIdx hground h.plain
    (fun e he => h.free _ (mem_places he))
    (fun e he => List.mem_cons_of_mem _ (List.mem_map_of_mem he))
  have hopen : t.Open [] (pieces (dumpDir docsPath)) :=
    hground.open ⟨_, List.mem_cons_self, List.prefix_refl _⟩
  have hmake : Passes ((createDirAll (pieces (dumpDir docsPath))).mapErr IdeviceError.socket)
      t () t := (passes_dirAll_open hopen).mapErr
  have hall : Passes
      (dumpProvisioningProfileRppairing fromBytes docsPath ⟨.ok (), .ok profiles⟩) t () t' :=
    hmake.bind hpass
  obtain ⟨l, hends⟩ := hall
  obtain ⟨faults, hrun⟩ := hends.run
  refine ⟨⟨t, faults ++ [], []⟩, rfl, by rw [hrun], fun q b hb => ?_⟩
  rw [hrun] at hb
  change t'.node q = some (.file b) at hb
  obtain hq | hq := hnew q (by simp [hb])
  · have hn : Needed (walks fromBytes docsPath profiles) q := by
      by_contra hn
      exact hq ((ht q).2 hn)
    have hdir := (hground' q).mpr hn
    rw [hb] at hdir
    cases hdir
  · exact hq

/-- The lists of profiles that are dumped each into a file of its own in the folder,
on every disk and whatever calls fail. -/
theorem dumped_iff_separate (fromBytes : FromBytes) (docsPath : Text) (profiles : List Bytes) :
    (∀ d : Disk Text UInt8, d.touched = [] →
      ((dumpProvisioningProfileRppairing fromBytes docsPath ⟨.ok (), .ok profiles⟩).run d).1 =
        .ok () →
      Dumped docsPath profiles
        ((dumpProvisioningProfileRppairing fromBytes docsPath ⟨.ok (), .ok profiles⟩).run d).2) ↔
    (Writable fromBytes docsPath profiles → Separate fromBytes docsPath profiles) := by
  constructor
  · intro h hw
    obtain ⟨d, hto, hok, honly⟩ := exists_dumped hw
    exact separate_of_dumped (h d hto hok) honly
  · intro h d hto hok
    obtain ⟨hreached, hlanded⟩ := (dump_spec profiles).of_ok hto hok
    have hs := h (writable_of_reached hreached)
    exact dumped_of_landed hs (hlanded hs.nodup)

end Backward

section Example

def ascii (s : Text) : Bytes := s.map fun c => UInt8.ofNat c.toNat

def profile (name uuid : Text) : Bytes :=
  ascii ("<plist version=\"1.0\"><dict><key>Name</key><string>".toList ++ name ++
    "</string><key>UUID</key><string>".toList ++ uuid ++ "</string></dict></plist>".toList)

def versions : List Bytes := [profile ['A'] ['U'], profile ['B'] ['U']]

def dictionary (name uuid key : Text) : Option PlistValue :=
  if key = "Name".toList then some (.string name)
  else if key = "UUID".toList then some (.string uuid)
  else none

def parser : FromBytes := fun bytes =>
  if bytes = profile ['A'] ['U'] then some (dictionary ['A'] ['U'])
  else if bytes = profile ['B'] ['U'] then some (dictionary ['B'] ['U'])
  else none

theorem versions_writable : Writable parser ['d'] versions := by
  constructor
  · decide +kernel
  · decide +kernel

/-- The second version overwrites the first. -/
theorem same_uuid_lost : ∃ d : Disk Text UInt8, d.touched = [] ∧
    ((dumpProvisioningProfileRppairing parser ['d'] ⟨.ok (), .ok versions⟩).run d).1 = .ok () ∧
    ¬ Dumped ['d'] versions
      ((dumpProvisioningProfileRppairing parser ['d'] ⟨.ok (), .ok versions⟩).run d).2 := by
  obtain ⟨d, hto, hok, honly⟩ := exists_dumped versions_writable
  refine ⟨d, hto, hok, fun h => ?_⟩
  have hs := separate_of_dumped h honly
  exact absurd hs.nodup (by decide +kernel)

end Example

end UnBoxer.Provision
