import UnBoxer.Effects
import UnBoxer.Instances
import UnBoxer.Runs

namespace UnBoxer.Install

open UnBoxer.Trees UnBoxer.Programs UnBoxer.Effects UnBoxer.PathText UnBoxer.Archives
open UnBoxer.Runs UnBoxer.Instances

inductive Failure where
  | connect
  | getFileInfo
  | mkDir
  | openFile
  | writeAll
  | shutdown
  | close
  | install
  deriving DecidableEq

/-- A request to the device and its answer, either of which may get lost: what has
failed may have been carried out. -/
def exchange {α : Type} (p : Prog Text UInt8 Errno α) : Prog Text UInt8 Errno α :=
  next.bind fun _ => p.bind fun a => next.bind fun _ => .done (.ok a)

section Afc

def getFileInfo (path : Text) : Prog Text UInt8 Failure Unit :=
  (exchange (.call (.fileExists (pieces path)) fun (b : Bool) =>
    .done (if b then .ok () else .error .notFound))).mapErr fun _ => .getFileInfo

/-- The device may take a directory that is there already for made. -/
def mkDir (path : Text) : Prog Text UInt8 Failure Unit :=
  (exchange (.call (.mkdir (pieces path)) fun
    | .error .alreadyExists => next
    | r => .done r)).mapErr fun _ => .mkDir

def openFile (path : Text) : Prog Text UInt8 Failure (List Text) :=
  (exchange (create (pieces path))).mapErr fun _ => .openFile

/-- The chunks are one write, which may end anywhere. Without bytes there is nothing to send. -/
def writeAll (h : List Text) (bytes : Bytes) : Prog Text UInt8 Failure Unit :=
  if bytes = [] then .done (.ok ()) else (exchange (write h bytes)).mapErr fun _ => .writeAll

end Afc

def pkgPath : Text := "PublicStaging".toList

def bundlePath (bundleId : Text) : Text := pkgPath ++ '/' :: bundleId

def appPath (bundleId : Text) : Text := bundlePath bundleId ++ '/' :: "app.ipa".toList

def ensureAfcDirectory (path : Text) : Prog Text UInt8 Failure Unit :=
  (getFileInfo path).handle fun
    | .error _ => (mkDir path).bind fun _ => getFileInfo path
    | .ok () => .done (.ok ())

def makeRoom (bundleId : Text) : Prog Text UInt8 Failure Unit :=
  (next.mapErr fun _ => .connect).bind fun _ =>
    (ensureAfcDirectory pkgPath).bind fun _ => ensureAfcDirectory (bundlePath bundleId)

def upload (bundleId : Text) (ipaBytes : Bytes) : Prog Text UInt8 Failure Unit :=
  (openFile (appPath bundleId)).bind fun h =>
    (writeAll h ipaBytes).bind fun _ =>
      (next.mapErr fun _ => .shutdown).bind fun _ => next.mapErr fun _ => .close

def yeetAppAfcRppairing (bundleId : Text) (ipaBytes : Bytes) : Prog Text UInt8 Failure Unit :=
  (makeRoom bundleId).bind fun _ => upload bundleId ipaBytes

structure InstallRequest where
  packagePath : Text
  clientOptions : List (Text × Text)

def installRequest (bundleId : Text) : InstallRequest :=
  ⟨appPath bundleId, [("CFBundleIdentifier".toList, bundleId)]⟩

/-- What the device has read of the package, and how the call has ended. -/
structure Installed where
  read : Option Bytes
  result : Except Failure Unit

def install (r : InstallRequest) : Prog Text UInt8 Empty Installed :=
  next.handle fun
    | .error _ => .done (.ok ⟨none, .error .install⟩)
    | .ok () => (load (pieces r.packagePath)).handle fun
      | .error _ => .done (.ok ⟨none, .error .install⟩)
      | .ok data => next.handle fun answer =>
        .done (.ok ⟨some data, answer.mapError fun _ => .install⟩)

def installIpaRppairing (bundleId : Text) : Prog Text UInt8 Empty Installed :=
  next.handle fun
    | .error _ => .done (.ok ⟨none, .error .connect⟩)
    | .ok () => install (installRequest bundleId)

inductive Event where
  | yeet (bundleId : Text) (ipaBytes : Bytes) (result : Except Failure Unit)
  | install (bundleId : Text) (installed : Installed)

inductive Step : Disk Text UInt8 → Event → Disk Text UInt8 → Prop
  | yeet {d d' : Disk Text UInt8} {bundleId : Text} {ipaBytes : Bytes} {r : Except Failure Unit} :
      Legal bundleId → (yeetAppAfcRppairing bundleId ipaBytes).run d = (r, d') →
      Step d (.yeet bundleId ipaBytes r) d'
  | install {d d' : Disk Text UInt8} {bundleId : Text} {i : Installed} :
      Legal bundleId → (installIpaRppairing bundleId).run d = (.ok i, d') →
      Step d (.install bundleId i) d'

def staged (bundleId : Text) : List Text := [pkgPath, bundleId, "app.ipa".toList]

section Paths

variable {b b' : Text}

theorem pieces_pkgPath : pieces pkgPath = [pkgPath].map .down := pieces_legal (by decide)

theorem pieces_bundlePath (hb : Legal b) : pieces (bundlePath b) = [pkgPath, b].map .down := by
  rw [bundlePath, pieces_append, pieces_pkgPath, pieces_legal hb]
  rfl

theorem pieces_appPath (hb : Legal b) : pieces (appPath b) = (staged b).map .down := by
  have happ : Legal "app.ipa".toList := by decide
  rw [appPath, pieces_append, pieces_bundlePath hb, pieces_legal happ]
  rfl

theorem staged_inj (h : staged b = staged b') : b = b' := by
  unfold staged at h
  simpa using h

end Paths

section Law

/-- The call has failed before its open was over, so it may have left the file alone. -/
def Early : Except Failure Unit → Prop
  | .error .connect | .error .getFileInfo | .error .mkDir | .error .openFile => True
  | _ => False

/-- The call has failed where the file is open and not all bytes need be in it. -/
def Cut : Except Failure Unit → Prop
  | .error .openFile | .error .writeAll => True
  | _ => False

def Keeps (t t' : Tree Text Bytes) : Prop := ∀ b, t'.node (staged b) = t.node (staged b)

def Holds (t : Tree Text Bytes) (b : Text) (bytes : Bytes) (t' : Tree Text Bytes) : Prop :=
  t'.node (staged b) = some (.file bytes) ∧
    ∀ b', b' ≠ b → t'.node (staged b') = t.node (staged b')

def Outcome (t : Tree Text Bytes) (b : Text) (ipa : Bytes) (r : Except Failure Unit)
    (t' : Tree Text Bytes) : Prop :=
  (Early r ∧ Keeps t t') ∨ ∃ bytes, Holds t b bytes t' ∧ bytes <+: ipa ∧ (bytes = ipa ∨ Cut r)

def Passed (b : Text) (es : List Event) : Prop := ∀ ipa r, .yeet b ipa r ∈ es → Early r

/-- The last upload for `b` that was not passed over has put `bytes` into the file:
a first part of its own bytes, and all of them unless it was cut. -/
def Uploaded (es : List Event) (b : Text) (bytes : Bytes) : Prop :=
  ∃ before ipa r after, es = before ++ .yeet b ipa r :: after ∧ Passed b after ∧
    bytes <+: ipa ∧ (bytes = ipa ∨ Cut r)

end Law

section Calls

variable {t : Tree Text Bytes} {b : Text} {ipa : Bytes} {α : Type}

/-- What has failed is as it was before, or as it is after. -/
theorem exchange_spec {p : Prog Text UInt8 Errno α} {P E : Tree Text Bytes → Prop}
    {Q : α → Tree Text Bytes → Prop}
    (hp : Triple (fun d => P d.tree) p (fun a d => Q a d.tree) (fun _ d => E d.tree))
    (hbefore : ∀ t, P t → E t) (hafter : ∀ a t, Q a t → E t) :
    Triple (fun d => P d.tree) (exchange p) (fun a d => Q a d.tree) (fun _ d => E d.tree) := by
  have hrequest := (next_keeps P).weaken (fun _ h => h) (fun _ _ h => h)
    (fun (_ : Errno) d h => hbefore d.tree h)
  refine hrequest.bind fun _ => hp.bind fun a => ?_
  have hanswer := (next_keeps (Q a)).weaken (fun _ h => h) (fun _ _ h => h)
    (fun (_ : Errno) d h => hafter a d.tree h)
  exact hanswer.bind fun _ => Triple.ok fun _ h => h

def Away (c : Call Text UInt8) : Prop := ∀ b, place c ≠ some (staged b)

theorem only_exchange {p : Prog Text UInt8 Errno α} (hp : Only Away p) :
    Only Away (exchange p) := by
  have hnext : Only Away (next : Prog Text UInt8 Errno Unit) :=
    .call (fun _ h => by cases h) fun _ => .done _
  exact hnext.bind fun _ => hp.bind fun _ => hnext.bind fun _ => .done _

theorem keeps_step {p : Prog Text UInt8 Errno α} (hp : Only Away p) {f : Failure}
    (hf : Early (.error f)) : Triple (fun d => Keeps t d.tree) (p.mapErr fun _ => f)
      (fun _ d => Keeps t d.tree) (fun e d => Early (.error e) ∧ Keeps t d.tree) := by
  have hkeep : ∀ c, Away c → ∀ d : Disk Text UInt8, Keeps t d.tree → Keeps t (c.exec d).2.tree :=
    fun c hc d hd b => (exec_elsewhere c d (hc b)).trans (hd b)
  exact Triple.mapErr ((hp.triple hkeep).weaken (fun _ h => h) (fun _ _ h => h)
    fun _ _ h => ⟨hf, h⟩)

theorem getFileInfo_spec (path : Text) : Triple (fun d => Keeps t d.tree) (getFileInfo path)
    (fun _ d => Keeps t d.tree) (fun e d => Early (.error e) ∧ Keeps t d.tree) :=
  keeps_step (only_exchange (.call (fun _ h => by cases h) fun _ => .done _)) trivial

theorem mkDir_spec {path : Text} (h : ∀ b, resolve [] (pieces path) ≠ staged b) :
    Triple (fun d => Keeps t d.tree) (mkDir path) (fun _ d => Keeps t d.tree)
      (fun e d => Early (.error e) ∧ Keeps t d.tree) := by
  have haway : Away (.mkdir (pieces path)) := fun b he => h b (Option.some.inj he)
  refine keeps_step (only_exchange (.call haway fun r => ?_)) trivial
  split
  · exact .call (fun _ h => by cases h) fun _ => .done _
  · exact .done _

theorem ensureAfcDirectory_spec {path : Text} (h : ∀ b, resolve [] (pieces path) ≠ staged b) :
    Triple (fun d => Keeps t d.tree) (ensureAfcDirectory path) (fun _ d => Keeps t d.tree)
      (fun e d => Early (.error e) ∧ Keeps t d.tree) := by
  refine (getFileInfo_spec path).handle (fun _ => Triple.ok fun _ h => h) fun _ => ?_
  refine Triple.weaken ?_ (fun _ h => h.2) (fun _ _ h => h) (fun _ _ h => h)
  exact (mkDir_spec h).bind fun _ => getFileInfo_spec path

theorem makeRoom_spec (hb : Legal b) : Triple (fun d => Keeps t d.tree) (makeRoom b)
    (fun _ d => Keeps t d.tree) (fun e d => Early (.error e) ∧ Keeps t d.tree) := by
  have hpkg : ∀ b', resolve [] (pieces pkgPath) ≠ staged b' := by
    intro b'
    simp [pieces_pkgPath, move, staged]
  have hbundle : ∀ b', resolve [] (pieces (bundlePath b)) ≠ staged b' := by
    intro b'
    simp [pieces_bundlePath hb, move, staged]
  have hconnect := @keeps_step t _ next (.call (fun _ h => by cases h) fun _ => .done _)
    .connect trivial
  refine hconnect.bind fun _ => ?_
  exact (ensureAfcDirectory_spec hpkg).bind fun _ => ensureAfcDirectory_spec hbundle

theorem resolve_appPath (hb : Legal b) : resolve [] (pieces (appPath b)) = staged b := by
  rw [pieces_appPath hb, resolve_down, List.nil_append]

theorem read_appPath (hb : Legal b) {t : Tree Text Bytes} {bytes : Bytes} :
    t.read (pieces (appPath b)) = .ok bytes ↔ t.node (staged b) = some (.file bytes) := by
  rw [pieces_appPath hb, Tree.read_downs]

theorem holds_of_same {d d' : Disk Text UInt8} {bytes : Bytes}
    (h : ∀ b', b' ≠ b → d.tree.node (staged b') = t.node (staged b'))
    (hn : d'.tree.node (staged b) = some (.file bytes)) (hs : Same (· = staged b) d d') :
    Holds t b bytes d'.tree :=
  ⟨hn, fun b' hb' => (hs _ fun he => hb' (staged_inj he)).trans (h b' hb')⟩

theorem openFile_spec (hb : Legal b) : Triple (fun d => Keeps t d.tree) (openFile (appPath b))
    (fun h d => h = staged b ∧ Holds t b [] d.tree)
    (fun e d => e = .openFile ∧ (Keeps t d.tree ∨ Holds t b [] d.tree)) := by
  have hcreate : Triple (fun d => Keeps t d.tree) (create (pieces (appPath b)))
      (fun h d => h = staged b ∧ Holds t b [] d.tree)
      (fun _ d => Keeps t d.tree ∨ Holds t b [] d.tree) := by
    refine Triple.each fun d₁ h₁ => (create_empty _ d₁).weaken (fun _ h => h)
      (fun h d hd => ?_) (fun _ d hd => .inl (hd.1 ▸ h₁))
    rw [resolve_appPath hb, read_appPath hb] at hd
    exact ⟨hd.1, holds_of_same (fun b' _ => h₁ b') hd.2.1 hd.2.2.1⟩
  have hopen := exchange_spec (P := Keeps t) (E := fun t' => Keeps t t' ∨ Holds t b [] t')
    (Q := fun h t' => h = staged b ∧ Holds t b [] t') hcreate (fun _ h => .inl h)
    (fun _ _ h => .inr h.2)
  exact Triple.mapErr (hopen.weaken (fun _ h => h) (fun _ _ h => h) (fun _ _ h => ⟨rfl, h⟩))

theorem writeAll_spec (hb : Legal b) :
    Triple (fun d => Holds t b [] d.tree) (writeAll (staged b) ipa)
      (fun _ d => Holds t b ipa d.tree)
      (fun e d => e = .writeAll ∧ ∃ bytes, Holds t b bytes d.tree ∧ bytes <+: ipa) := by
  unfold writeAll
  split
  · rename_i hnil
    exact Triple.ok fun _ h => hnil ▸ h
  have hwrite : Triple (fun d => Holds t b [] d.tree) (write (staged b) ipa)
      (fun _ d => Holds t b ipa d.tree)
      (fun _ d => ∃ bytes, Holds t b bytes d.tree ∧ bytes <+: ipa) := by
    refine Triple.each fun d₁ h₁ => ?_
    have hspec := write_spec (pieces (appPath b)) ipa d₁
    simp only [resolve_appPath hb, read_appPath hb] at hspec
    refine hspec.weaken (fun d hd => ⟨hd, [], hd ▸ h₁.1⟩) (fun _ d hd => ?_) (fun _ d hd => ?_)
    · exact holds_of_same h₁.2 hd.1 hd.2.1
    · obtain ⟨⟨k, hk⟩, hs, _⟩ := hd
      exact ⟨_, holds_of_same h₁.2 hk hs, List.take_prefix _ _⟩
  have hall := exchange_spec (P := Holds t b []) (Q := fun _ => Holds t b ipa)
    (E := fun t' => ∃ bytes, Holds t b bytes t' ∧ bytes <+: ipa) hwrite
    (fun _ h => ⟨[], h, List.nil_prefix⟩) (fun _ _ h => ⟨ipa, h, List.prefix_refl _⟩)
  exact Triple.mapErr (hall.weaken (fun _ h => h) (fun _ _ h => h) (fun _ _ h => ⟨rfl, h⟩))

/-- How an upload ends once its file is opened. -/
theorem upload_spec (hb : Legal b) : Triple (fun d => Keeps t d.tree) (upload b ipa)
    (fun _ d => Outcome t b ipa (.ok ()) d.tree)
    (fun e d => Outcome t b ipa (.error e) d.tree) := by
  have hwhole : ∀ r t', Holds t b ipa t' → Outcome t b ipa r t' :=
    fun r t' h => .inr ⟨ipa, h, List.prefix_refl _, .inl rfl⟩
  have hopen : Triple (fun d => Keeps t d.tree) (openFile (appPath b))
      (fun h d => h = staged b ∧ Holds t b [] d.tree)
      (fun e d => Outcome t b ipa (.error e) d.tree) := by
    refine (openFile_spec hb).weaken (fun _ h => h) (fun _ _ h => h) ?_
    rintro _ d ⟨rfl, h | h⟩
    · exact .inl ⟨trivial, h⟩
    · exact .inr ⟨[], h, List.nil_prefix, .inr trivial⟩
  have hwrite : Triple (fun d => Holds t b [] d.tree) (writeAll (staged b) ipa)
      (fun _ d => Holds t b ipa d.tree) (fun e d => Outcome t b ipa (.error e) d.tree) := by
    refine (writeAll_spec hb).weaken (fun _ h => h) (fun _ _ h => h) ?_
    rintro _ d ⟨rfl, bytes, h, hpre⟩
    exact .inr ⟨bytes, h, hpre, .inr trivial⟩
  have hend : ∀ f, Triple (fun d => Holds t b ipa d.tree) (next.mapErr fun _ => f)
      (fun _ d => Holds t b ipa d.tree) (fun e d => Outcome t b ipa (.error e) d.tree) :=
    fun f => Triple.mapErr ((next_keeps (Holds t b ipa)).weaken (fun _ h => h) (fun _ _ h => h)
      fun _ _ h => hwhole _ _ h)
  refine hopen.bind fun h => ?_
  rintro d ⟨rfl, hd⟩
  refine (hwrite.bind fun _ => (hend .shutdown).bind fun _ => ?_) d hd
  exact (hend .close).weaken (fun _ h => h) (fun _ _ h => hwhole _ _ h) (fun _ _ h => h)

theorem yeet_spec (hb : Legal b) : Triple (fun d => d.tree = t) (yeetAppAfcRppairing b ipa)
    (fun _ d => Outcome t b ipa (.ok ()) d.tree)
    (fun e d => Outcome t b ipa (.error e) d.tree) := by
  have hroom : Triple (fun d => d.tree = t) (makeRoom b) (fun _ d => Keeps t d.tree)
      (fun e d => Outcome t b ipa (.error e) d.tree) :=
    (makeRoom_spec hb).weaken (fun _ h _ => by rw [h]) (fun _ _ h => h) (fun _ _ h => .inl h)
  exact hroom.bind fun _ => upload_spec hb

theorem yeet_outcome (hb : Legal b) {d d' : Disk Text UInt8} {r : Except Failure Unit}
    (h : (yeetAppAfcRppairing b ipa).run d = (r, d')) : Outcome d.tree b ipa r d'.tree := by
  have hspec := @yeet_spec d.tree b ipa hb
  have hd : ((yeetAppAfcRppairing b ipa).run d).2 = d' := by rw [h]
  rw [← hd]
  cases r with
  | ok u => exact hspec.of_ok rfl (a := u) (by rw [h])
  | error e => exact hspec.of_error rfl (by rw [h])

theorem install_reads (hb : Legal b) : Triple (fun d => d.tree = t) (installIpaRppairing b)
    (fun i d => d.tree = t ∧ ∀ bytes, i.read = some bytes → t.node (staged b) = some (.file bytes))
    (fun _ _ => False) := by
  have hload : Triple (fun d => d.tree = t) (load (pieces (appPath b)))
      (fun data d => d.tree = t ∧ t.node (staged b) = some (.file data))
      (fun (_ : Errno) d => d.tree = t) := by
    refine Triple.each fun d₁ h₁ => (load_spec _ d₁).weaken (fun _ h => h) (fun data d hd => ?_)
      (fun _ _ hd => hd.1.trans h₁)
    rw [read_appPath hb, h₁] at hd
    exact ⟨hd.1, hd.2.2⟩
  have hnone : ∀ f : Failure, Triple (fun d => d.tree = t)
      (.done (.ok ⟨none, .error f⟩) : Prog Text UInt8 Empty Installed)
      (fun i d => d.tree = t ∧
        ∀ bytes, i.read = some bytes → t.node (staged b) = some (.file bytes))
      (fun _ _ => False) := fun f => Triple.ok fun _ h => ⟨h, fun _ hr => by cases hr⟩
  refine (next_keeps (· = t)).handle (fun _ => ?_) fun _ => hnone .connect
  refine (next_keeps (· = t)).handle (fun _ => ?_) fun _ => hnone .install
  refine hload.handle (fun data => ?_) fun _ => hnone .install
  have hanswer := next_keeps fun t' => t' = t ∧ t.node (staged b) = some (.file data)
  refine hanswer.handle (fun _ => Triple.ok ?_) fun _ => Triple.ok ?_
  all_goals
    rintro d ⟨hd, hn⟩
    refine ⟨hd, fun bytes hr => ?_⟩
    obtain rfl := Option.some.inj hr
    exact hn

end Calls

section Runs

variable {d₀ d d' : Disk Text UInt8} {es : List Event} {e : Event} {b : Text} {bytes : Bytes}

theorem passed_snoc (h : Passed b es) (he : ∀ ipa r, e = .yeet b ipa r → Early r) :
    Passed b (es ++ [e]) := by
  intro ipa r hm
  obtain hm | hm := List.mem_append.mp hm
  · exact h ipa r hm
  · exact he ipa r (List.mem_singleton.mp hm).symm

theorem uploaded_snoc (h : Uploaded es b bytes) (he : ∀ ipa r, e = .yeet b ipa r → Early r) :
    Uploaded (es ++ [e]) b bytes := by
  obtain ⟨before, ipa, r, after, rfl, hpassed, hbytes⟩ := h
  exact ⟨before, ipa, r, after ++ [e], by simp, passed_snoc hpassed he, hbytes⟩

/-- Every staged file is accounted for: by an upload, or by the start. -/
def Known (d₀ : Disk Text UInt8) (es : List Event) (d : Disk Text UInt8) : Prop :=
  ∀ b bytes, d.tree.node (staged b) = some (.file bytes) →
    Uploaded es b bytes ∨ (Passed b es ∧ d₀.tree.node (staged b) = some (.file bytes))

theorem known_step (h : Known d₀ es d) (hstep : Step d e d') : Known d₀ (es ++ [e]) d' := by
  have hkeep : ∀ b bytes, d'.tree.node (staged b) = d.tree.node (staged b) →
      (∀ ipa r, e = .yeet b ipa r → Early r) → d'.tree.node (staged b) = some (.file bytes) →
      Uploaded (es ++ [e]) b bytes ∨
        (Passed b (es ++ [e]) ∧ d₀.tree.node (staged b) = some (.file bytes)) := by
    intro b bytes hsame hearly hn
    obtain hu | ⟨hp, hn₀⟩ := h b bytes (hsame ▸ hn)
    · exact .inl (uploaded_snoc hu hearly)
    · exact .inr ⟨passed_snoc hp hearly, hn₀⟩
  intro b bytes hn
  cases hstep with
  | install hb hrun =>
    have hread := install_reads (t := d.tree) hb d rfl
    rw [hrun] at hread
    exact hkeep b bytes (by rw [hread.1]) (fun _ _ he => by cases he) hn
  | @yeet _ b' ipa r hb hrun =>
    by_cases hbb : b = b'
    · subst hbb
      obtain ⟨hearly, hsame⟩ | ⟨bytes', ⟨hput, _⟩, hpre, hcut⟩ := yeet_outcome hb hrun
      · exact hkeep b bytes (hsame b) (fun _ _ he => by cases he; exact hearly) hn
      · rw [hput] at hn
        cases hn
        exact .inl ⟨es, ipa, r, [], rfl, (fun _ _ hm => by cases hm), hpre, hcut⟩
    · have hsame : d'.tree.node (staged b) = d.tree.node (staged b) := by
        obtain ⟨_, hsame⟩ | ⟨_, ⟨_, hother⟩, _⟩ := yeet_outcome hb hrun
        · exact hsame b
        · exact hother b hbb
      exact hkeep b bytes hsame (fun _ _ he => by cases he; exact absurd rfl hbb) hn

theorem run_known (h : Run Step d₀ es d) : Known d₀ es d :=
  h.history (I := Known d₀) (fun _ _ hn => .inr ⟨(fun _ _ hm => by cases hm), hn⟩)
    fun _ _ _ _ => known_step

/-- What the device reads for an install has been put there by the last upload for
the same bundle that got to its file, or it was there before all calls. -/
theorem install_reads_upload {before after : List Event} {result : Except Failure Unit}
    (h : Run Step d₀ es d) (he : es = before ++ .install b ⟨some bytes, result⟩ :: after) :
    Uploaded before b bytes ∨
      (Passed b before ∧ d₀.tree.node (staged b) = some (.file bytes)) := by
  obtain ⟨d₁, d₂, hrun, hstep⟩ := h.split he
  cases hstep with
  | install hb hrun' =>
    have hread := install_reads (t := d₁.tree) hb d₁ rfl
    rw [hrun'] at hread
    exact run_known hrun b bytes (hread.2 bytes rfl)

end Runs

section Example

def firstUpload (faults : List (Option Nat)) : Except Failure Unit × Disk Text UInt8 :=
  (yeetAppAfcRppairing ['b'] [1, 2]).run ⟨emptyTree, faults, []⟩

theorem upload_then_install {faults : List (Option Nat)} {r : Except Failure Unit} {bytes : Bytes}
    (hr : (firstUpload faults).1 = r)
    (hi : ((installIpaRppairing ['b']).run (firstUpload faults).2).1 = .ok ⟨some bytes, .ok ()⟩) :
    ∃ d, Run Step ⟨emptyTree, faults, []⟩
      [.yeet ['b'] [1, 2] r, .install ['b'] ⟨some bytes, .ok ()⟩] d :=
  ⟨_, (Run.nil.snoc (.yeet (by decide) (Prod.ext hr rfl))).snoc
    (.install (by decide) (Prod.ext hi rfl))⟩

theorem install_reads_upload_whole : ∃ d,
    Run Step emptyDisk [.yeet ['b'] [1, 2] (.ok ()), .install ['b'] ⟨some [1, 2], .ok ()⟩] d ∧
    (Uploaded [.yeet ['b'] [1, 2] (.ok ())] ['b'] [1, 2] ∨
      (Passed ['b'] [.yeet ['b'] [1, 2] (.ok ())] ∧
        emptyDisk.tree.node (staged ['b']) = some (.file [1, 2]))) := by
  obtain ⟨d, h⟩ := @upload_then_install [] (.ok ()) [1, 2] rfl rfl
  exact ⟨d, h, @install_reads_upload _ _ _ _ _ [.yeet ['b'] [1, 2] (.ok ())] _ _ h rfl⟩

/-- The write fails after its first byte: the device installs a part of the package. -/
theorem install_reads_part : ¬ ∀ (faults : List (Option Nat)) (es before after : List Event)
    (d : Disk Text UInt8) (b : Text) (bytes : Bytes) (result : Except Failure Unit),
    Run Step ⟨emptyTree, faults, []⟩ es d →
    es = before ++ .install b ⟨some bytes, result⟩ :: after → ∃ r, .yeet b bytes r ∈ before := by
  intro h
  obtain ⟨d, hrun⟩ := @upload_then_install (List.replicate 21 none ++ [some 1])
    (.error .writeAll) [1] rfl rfl
  obtain ⟨r, hm⟩ := h _ _ [.yeet ['b'] [1, 2] (.error .writeAll)] [] d _ _ _ hrun rfl
  cases List.mem_singleton.mp hm

end Example

end UnBoxer.Install
