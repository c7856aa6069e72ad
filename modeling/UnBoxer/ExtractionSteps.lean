import UnBoxer.BackupPaths
import UnBoxer.DirAllSteps

namespace UnBoxer.ExtractionSteps

open UnBoxer.Trees UnBoxer.Programs UnBoxer.DirAll UnBoxer.DirAllSteps UnBoxer.PathText
open UnBoxer.Archives UnBoxer.EscapeJson UnBoxer.TryBackup UnBoxer.TryExtract
open UnBoxer.RustIdevice UnBoxer.BackupEngine UnBoxer.BackupPaths

/-- A call of the extraction outside of `create_dir_all`: the two questions whether a directory is
there, the opening and the reading of the archive, and those of an entry, each with the entries
that are still to come. -/
inductive Point where
  | looking
  | asking
  | opening
  | reading (data : Bytes)
  | entry (r : Record) (i : Nat) (rest : List (Record × Nat))
  | creating (r : Record) (rest : List (Record × Nat))
  | writing (p : List Text) (r : Record) (rest : List (Record × Nat))
  | closing (r : Record) (rest : List (Record × Nat))
  | ended (r : Except Stop (List Text))

/-- What `create_dir_all` is called for. -/
inductive Job where
  | backups
  | output
  | directory (r : Record) (rest : List (Record × Nat))
  | parent (r : Record) (rest : List (Record × Nat))

inductive Position where
  | at (p : Point)
  | making (j : Job) (ph : Phase)

section Programs

variable (F : Foundation) (c : Crates) (e : BackupEntry)

def backupsPath : List (Piece Text) := pieces (absolute (backupsDirectory F))

def archivePath : List (Piece Text) := pieces (fromPtr (absolute (archiveFile F e)))

def outputDir : Text := fromPtr (absolute (extractedDirectory F e))

def finish (p : Action Text) : Prog Text UInt8 Stop (List Text) :=
  ((callBridge F.parseError "extract".toList (p.mapErr .error)).bind fun _ => .done (.ok ())).bind
    fun _ => .done (.ok (extractedDirectory F e))

def ask : Prog Text UInt8 Stop (List Text) :=
  .call (.fileExists (pieces (absolute (extractedDirectory F e)))) fun (b : Bool) =>
    if b then .done (.ok (extractedDirectory F e))
    else finish F e (tryExtract c (fromPtr (absolute (archiveFile F e))) (outputDir F e))

def loop (rest : List (Record × Nat)) : Action Text :=
  (Prog.forEach (extractEntry c (outputDir F e)) rest).bind fun _ => .done (.ok extractResponse)

def andThen (p : Action Unit) (rest : List (Record × Nat)) : Prog Text UInt8 Stop (List Text) :=
  finish F e ((p.bind fun _ => Prog.forEach (extractEntry c (outputDir F e)) rest).bind fun _ =>
    .done (.ok extractResponse))

def createThen (r : Record) : Action Unit :=
  (Prog.mapErr (fun er => "create file ".toList ++ c.debug r.name ++ ": ".toList ++ c.osError er)
    (create (target (outputDir F e) r.name))).bind fun p => copyEntry c p r

def closeThen (r : Record) : Action Unit :=
  Prog.mapErr (fun er => "extract ".toList ++ c.debug r.name ++ ": ".toList ++ c.osError er) next

def readThen (data : Bytes) : Action (List Record) :=
  (next.mapErr fun er => "read zip: ".toList ++ c.zipError er).bind fun _ =>
    match c.parse data with
    | .ok rs => .done (.ok rs)
    | .error er => .done (.error ("read zip: ".toList ++ er))

def Point.prog : Point → Prog Text UInt8 Stop (List Text)
  | .looking => ensureExtracted F c e
  | .asking => ask F c e
  | .opening => finish F e (extractArchive c (fromPtr (absolute (archiveFile F e))) (outputDir F e))
  | .reading data => finish F e ((readThen c data).bind fun rs => loop F c e rs.zipIdx)
  | .entry r i rest => andThen F c e (extractEntry c (outputDir F e) (r, i)) rest
  | .creating r rest => andThen F c e (createThen F c e r) rest
  | .writing p r rest => andThen F c e (copyEntry c p r) rest
  | .closing r rest => andThen F c e (closeThen c r) rest
  | .ended r => .done r

def outcome (r : Except Text Text) : Except Stop (List Text) :=
  (received F.parseError "extract".toList (r.mapError .error)).map fun _ => extractedDirectory F e

theorem finish_done (r : Except Text Text) : finish F e (.done r) = .done (outcome F e r) := by
  have hreceive : ∀ answer : Except Stop Text,
      ((Prog.done answer : Prog Text UInt8 Stop Text).bind fun _ =>
        (.done (.ok ()) : Prog Text UInt8 Stop Unit)).bind
          (fun _ => .done (.ok (extractedDirectory F e))) =
        (.done (answer.map fun _ => extractedDirectory F e) : Prog Text UInt8 Stop (List Text)) := by
    intro answer
    cases answer <;> rfl
  cases r <;> exact hreceive _

theorem finish_handle {ε α : Type} (p : Prog Text UInt8 ε α) (f : Except ε α → Action Text) :
    finish F e (p.handle f) = p.handle fun r => finish F e (f r) := by
  unfold finish callBridge Prog.mapErr
  rw [handle_handle, handle_handle, handle_bind, handle_bind]
  refine congrArg (Prog.handle p) (funext fun r => ?_)
  rw [handle_handle]

theorem andThen_handle {ε α : Type} (p : Prog Text UInt8 ε α) (f : Except ε α → Action Unit)
    (rest : List (Record × Nat)) :
    andThen F c e (p.handle f) rest = p.handle fun r => andThen F c e (f r) rest := by
  unfold andThen
  rw [handle_bind, handle_bind, finish_handle]

theorem andThen_call (call : Call Text UInt8) (k : call.Reply → Action Unit)
    (rest : List (Record × Nat)) :
    andThen F c e (.call call k) rest = .call call fun r => andThen F c e (k r) rest := rfl

/-- The next entry, or the end. -/
def starts : List (Record × Nat) → Point
  | [] => .ended (outcome F e (.ok extractResponse))
  | (r, i) :: rest => .entry r i rest

theorem starts_prog (rest : List (Record × Nat)) :
    (starts F e rest).prog F c e = finish F e (loop F c e rest) := by
  cases rest with
  | nil => exact (finish_done F e _).symm
  | cons x rest => rfl

def fails (message : Text) : Point := .ended (outcome F e (.error message))

def creates (r : Record) (rest : List (Record × Nat)) : Point :=
  if (pieces r.name).any hasNul then
    fails F e ("create file ".toList ++ c.debug r.name ++ ": ".toList ++ c.osError .failed)
  else .creating r rest

theorem creates_prog (r : Record) (rest : List (Record × Nat)) :
    (creates F c e r rest).prog F c e = andThen F c e ((Prog.mapErr (fun er =>
      "create file ".toList ++ c.debug r.name ++ ": ".toList ++ c.osError er)
      (refusing (pieces r.name) (create (target (outputDir F e) r.name)))).bind
        fun p => copyEntry c p r) rest := by
  unfold creates refusing
  by_cases h : (pieces r.name).any hasNul = true
  · rw [if_pos h, if_pos h]
    exact (finish_done F e _).symm
  · rw [if_neg h, if_neg h]
    rfl

def Job.path : Job → List (Piece Text)
  | .backups => backupsPath F
  | .output => pieces (outputDir F e)
  | .directory r _ => target (outputDir F e) r.name
  | .parent r _ => DirAll.parent (target (outputDir F e) r.name)

def Job.after : Job → Except Errno Unit → Point
  | .backups, _ => .asking
  | .output, .ok () => .opening
  | .output, .error er => fails F e ("create extract dir: ".toList ++ c.osError er)
  | .directory _ rest, _ => starts F e rest
  | .parent r rest, .ok () => creates F c e r rest
  | .parent _ _, .error er => fails F e ("create parent dir: ".toList ++ c.osError er)

def Job.goesOn (j : Job) : Outcome → Position
  | .goes ph => .making j ph
  | .ends r => .at (j.after F c e r)

def Position.prog : Position → Prog Text UInt8 Stop (List Text)
  | .at p => p.prog F c e
  | .making j ph => (ph.prog (j.path F e)).handle fun r => (j.after F c e r).prog F c e

def extracts (r : Record) (rest : List (Record × Nat)) : Position :=
  if c.isDir r.name then
    if (pieces r.name).any hasNul then .at (starts F e rest)
    else .making (.directory r rest) (.climb 0)
  else if components (target (outputDir F e) r.name) = [] then .at (creates F c e r rest)
  else if (DirAll.parent (pieces r.name)).any hasNul then
    .at (fails F e ("create parent dir: ".toList ++ c.osError .failed))
  else .making (.parent r rest) (.climb 0)

/-- The calls of the extraction, and what follows on each answer. -/
inductive Next : Position → (call : Call Text UInt8) → call.Reply → Position → Prop
  | found : Next (.at .looking) (.fileExists (backupsPath F)) true (.at .asking)
  | lost : Next (.at .looking) (.fileExists (backupsPath F)) false (.making .backups (.climb 0))
  | moves {j : Job} {ph : Phase} {call : Call Text UInt8} {r : call.Reply} {o : Outcome} :
      Moves (j.path F e) ph call r o → Next (.making j ph) call r (j.goesOn F c e o)
  | cached : Next (.at .asking) (.fileExists (pieces (absolute (extractedDirectory F e)))) true
      (.at (.ended (.ok (extractedDirectory F e))))
  | absent : Next (.at .asking) (.fileExists (pieces (absolute (extractedDirectory F e)))) false
      (.making .output (.climb 0))
  | opens (data : Bytes) :
      Next (.at .opening) (.load (archivePath F e)) (.ok data) (.at (.reading data))
  | unopened (er : Errno) : Next (.at .opening) (.load (archivePath F e)) (.error er)
      (.at (fails F e ("open zip: ".toList ++ c.osError er)))
  | reads {data : Bytes} {rs : List Record} : c.parse data = .ok rs →
      Next (.at (.reading data)) .next (.ok ()) (.at (starts F e rs.zipIdx))
  | bad {data : Bytes} {er : Text} : c.parse data = .error er →
      Next (.at (.reading data)) .next (.ok ()) (.at (fails F e ("read zip: ".toList ++ er)))
  | unread (data : Bytes) (er : Errno) : Next (.at (.reading data)) .next (.error er)
      (.at (fails F e ("read zip: ".toList ++ c.zipError er)))
  | extracts (r : Record) (i : Nat) (rest : List (Record × Nat)) :
      Next (.at (.entry r i rest)) .next (.ok ()) (extracts F c e r rest)
  | lacks (r : Record) (i : Nat) (rest : List (Record × Nat)) (er : Errno) :
      Next (.at (.entry r i rest)) .next (.error er)
        (.at (fails F e ("zip entry ".toList ++ JsonParser.decimal i ++ ": ".toList ++ c.zipError er)))
  | creates (r : Record) (rest : List (Record × Nat)) (p : List Text) :
      Next (.at (.creating r rest)) (.create (target (outputDir F e) r.name)) (.ok p)
        (.at (.writing p r rest))
  | uncreated (r : Record) (rest : List (Record × Nat)) (er : Errno) :
      Next (.at (.creating r rest)) (.create (target (outputDir F e) r.name)) (.error er)
        (.at (fails F e ("create file ".toList ++ c.debug r.name ++ ": ".toList ++ c.osError er)))
  | writes (p : List Text) (r : Record) (rest : List (Record × Nat)) :
      Next (.at (.writing p r rest)) (.write p r.data) (.ok ()) (.at (.closing r rest))
  | unwritten (p : List Text) (r : Record) (rest : List (Record × Nat)) (er : Errno) :
      Next (.at (.writing p r rest)) (.write p r.data) (.error er)
        (.at (fails F e ("extract ".toList ++ c.debug r.name ++ ": ".toList ++ c.osError er)))
  | closes (r : Record) (rest : List (Record × Nat)) :
      Next (.at (.closing r rest)) .next (.ok ()) (.at (starts F e rest))
  | broken (r : Record) (rest : List (Record × Nat)) (er : Errno) :
      Next (.at (.closing r rest)) .next (.error er)
        (.at (fails F e ("extract ".toList ++ c.debug r.name ++ ": ".toList ++ c.osError er)))

/-- The program of a position is at a call, and goes on as the position does. -/
def Follows (x : Position) : Prop :=
  ∃ (call : Call Text UInt8) (k : call.Reply → Prog Text UInt8 Stop (List Text)),
    x.prog F c e = .call call k ∧ ∀ r, ∃ y, Next F c e x call r y ∧ k r = y.prog F c e

variable {F c e}

theorem follows_making (j : Job) (ph : Phase) : Follows F c e (.making j ph) := by
  obtain ⟨call, k, hprog, hk⟩ := ph.moves (γ := UInt8) (j.path F e)
  refine ⟨call, fun r => (k r).handle fun res => (j.after F c e res).prog F c e, ?_, fun r => ?_⟩
  · rw [Position.prog, hprog]
    rfl
  · obtain ⟨o, hm, hr⟩ := hk r
    dsimp only
    rw [hr]
    refine ⟨_, .moves hm, ?_⟩
    cases o <;> rfl

theorem follows_looking : Follows F c e (.at .looking) := by
  have hmake : (createDirectory F (backupsDirectory F)).ignore.bind
      (fun _ => (.done (.ok (backupsDirectory F)) : Prog Text UInt8 Stop (List Text))) =
      (createDirAll (backupsPath F)).handle fun _ => .done (.ok (backupsDirectory F)) := by
    rw [createDirectory, onPath, if_neg (nul_absolute (fileName_backups F)), Prog.ignore,
      Prog.mapErr, handle_handle, handle_bind]
    rfl
  refine ⟨.fileExists (backupsPath F), fun (b : Bool) => _, rfl, fun (b : Bool) => ?_⟩
  cases b with
  | true => exact ⟨_, .found, rfl⟩
  | false =>
    refine ⟨_, .lost, ?_⟩
    change Prog.bind ((createDirectory F (backupsDirectory F)).ignore.bind _) _ = _
    rw [hmake, handle_bind, createDirAll_eq]
    rfl

theorem follows_asking : Follows F c e (.at .asking) := by
  refine ⟨.fileExists (pieces (absolute (extractedDirectory F e))), _, rfl, fun (b : Bool) => ?_⟩
  cases b with
  | true => exact ⟨_, .cached, rfl⟩
  | false =>
    refine ⟨_, .absent, ?_⟩
    change finish F e ((Prog.handle (createDirAll (pieces (outputDir F e))) _).bind _) = _
    rw [handle_bind, finish_handle, createDirAll_eq]
    refine congrArg (Prog.handle _) (funext fun r => ?_)
    cases r with
    | ok u => rfl
    | error er => exact finish_done F e _

theorem follows_opening : Follows F c e (.at .opening) := by
  refine ⟨.load (archivePath F e), _, rfl, fun r => ?_⟩
  cases r with
  | ok data => exact ⟨_, .opens data, rfl⟩
  | error er => exact ⟨_, .unopened er, finish_done F e _⟩

theorem follows_reading (data : Bytes) : Follows F c e (.at (.reading data)) := by
  refine ⟨.next, _, rfl, fun r => ?_⟩
  cases r with
  | error er => exact ⟨_, .unread data er, finish_done F e _⟩
  | ok u =>
    change ∃ y, Next F c e _ _ _ y ∧ finish F e (Prog.bind (match c.parse data with
      | .ok rs => .done (.ok rs)
      | .error er => .done (.error ("read zip: ".toList ++ er))) _) = _
    cases hp : c.parse data with
    | ok rs => exact ⟨_, .reads hp, (starts_prog F c e _).symm⟩
    | error er => exact ⟨_, .bad hp, finish_done F e _⟩

theorem follows_entry (r : Record) (i : Nat) (rest : List (Record × Nat)) :
    Follows F c e (.at (.entry r i rest)) := by
  refine ⟨.next, _, andThen_call F c e .next _ rest, fun reply => ?_⟩
  cases reply with
  | error er => exact ⟨_, .lacks r i rest er, finish_done F e _⟩
  | ok u =>
    refine ⟨_, .extracts r i rest, ?_⟩
    change andThen F c e (if c.isDir r.name then _ else _) rest = _
    unfold extracts
    by_cases hdir : c.isDir r.name = true
    · rw [if_pos hdir, if_pos hdir]
      unfold refusing
      by_cases hn : (pieces r.name).any hasNul = true
      · rw [if_pos hn, if_pos hn]
        exact (starts_prog F c e rest).symm
      · rw [if_neg hn, if_neg hn, Prog.ignore, andThen_handle, createDirAll_eq]
        exact congrArg (Prog.handle _) (funext fun _ => (starts_prog F c e rest).symm)
    · rw [if_neg hdir, if_neg hdir, extractFile, createParent]
      by_cases hroot : components (target (outputDir F e) r.name) = []
      · rw [if_pos hroot, if_pos hroot]
        exact (creates_prog F c e r rest).symm
      · rw [if_neg hroot, if_neg hroot]
        unfold refusing
        by_cases hn : (DirAll.parent (pieces r.name)).any hasNul = true
        · rw [if_pos hn, if_pos hn]
          exact finish_done F e _
        · rw [if_neg hn, if_neg hn, Prog.mapErr, handle_bind, andThen_handle, createDirAll_eq]
          refine congrArg (Prog.handle _) (funext fun res => ?_)
          cases res with
          | ok u => exact (creates_prog F c e r rest).symm
          | error er => exact finish_done F e _

theorem follows_creating (r : Record) (rest : List (Record × Nat)) :
    Follows F c e (.at (.creating r rest)) := by
  refine ⟨.create (target (outputDir F e) r.name), _, andThen_call F c e _ _ rest, fun reply => ?_⟩
  cases reply with
  | ok p => exact ⟨_, .creates r rest p, rfl⟩
  | error er => exact ⟨_, .uncreated r rest er, finish_done F e _⟩

theorem follows_writing (p : List Text) (r : Record) (rest : List (Record × Nat)) :
    Follows F c e (.at (.writing p r rest)) := by
  refine ⟨.write p r.data, _, andThen_call F c e _ _ rest, fun reply => ?_⟩
  cases reply with
  | ok u => exact ⟨_, .writes p r rest, rfl⟩
  | error er => exact ⟨_, .unwritten p r rest er, finish_done F e _⟩

theorem follows_closing (r : Record) (rest : List (Record × Nat)) :
    Follows F c e (.at (.closing r rest)) := by
  refine ⟨.next, _, andThen_call F c e .next _ rest, fun reply => ?_⟩
  cases reply with
  | ok u => exact ⟨_, .closes r rest, (starts_prog F c e rest).symm⟩
  | error er => exact ⟨_, .broken r rest er, finish_done F e _⟩

variable (F c e) in
/-- The extraction has ended, or is at a call. -/
theorem follows (x : Position) : (∃ r, x = .at (.ended r)) ∨ Follows F c e x := by
  cases x with
  | making j ph => exact .inr (follows_making j ph)
  | «at» p =>
    cases p with
    | looking => exact .inr follows_looking
    | asking => exact .inr follows_asking
    | opening => exact .inr follows_opening
    | reading data => exact .inr (follows_reading data)
    | entry r i rest => exact .inr (follows_entry r i rest)
    | creating r rest => exact .inr (follows_creating r rest)
    | writing p r rest => exact .inr (follows_writing p r rest)
    | closing r rest => exact .inr (follows_closing r rest)
    | ended r => exact .inl ⟨r, rfl⟩

end Programs

end UnBoxer.ExtractionSteps
