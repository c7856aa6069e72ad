import UnBoxer.Pairing
import UnBoxer.PairingIdentity

namespace UnBoxer.PairingRuns

open UnBoxer.PathText UnBoxer.Archives UnBoxer.RustIdevice UnBoxer.Runs UnBoxer.Rsd
open UnBoxer.Pairing UnBoxer.PairingIdentity

variable {P : Type}

section App

variable {R : Parsers P} {proc : Nat → Procedure} {data : Bytes}

def HasPrivateKey (R : Parsers P) (data : Bytes) : Prop :=
  ∃ keys, R.keys data = some keys ∧ "private_key".toList ∈ keys

def identity (R : Parsers P) (data : Bytes) : Option P :=
  (R.utf8 data).bind fun text => (R.fromBytes (fromPtr text)).toOption

theorem configure_cases (text : Text) (g : Globals P) :
    (∃ e, configure R text g = (.error e, g)) ∨ ∃ p, R.fromBytes (fromPtr text) = .ok p ∧
      configure R text g = (.ok ⟨rpPairingLog, some p⟩, setOnce g p) := by
  unfold configure setRpPairingFile
  cases R.fromBytes (fromPtr text) with
  | error e => exact .inl ⟨_, rfl⟩
  | ok p => exact .inr ⟨p, rfl, rfl⟩

theorem configure_error {text : Text} {g g' : Globals P} {e : LockdownEngineError}
    (h : configure R text g = (.error e, g')) : g' = g := by
  obtain ⟨e', he⟩ | ⟨p, _, he⟩ := @configure_cases P R text g
  · rw [he] at h
    cases h
    rfl
  · rw [he] at h
    cases h

theorem configure_ok {text : Text} {g g' : Globals P} {x : Prepared P}
    (h : configure R text g = (.ok x, g')) :
    ∃ p, R.fromBytes (fromPtr text) = .ok p ∧ x.pairing = some p ∧ g' = setOnce g p := by
  obtain ⟨e', he⟩ | ⟨p, hp, he⟩ := @configure_cases P R text g
  · rw [he] at h
    cases h
  · rw [he] at h
    cases h
    exact ⟨p, hp, rfl, rfl⟩

theorem prepare_error {file : Option Bytes} {readable : Bool} {g g' : Globals P}
    {e : LockdownEngineError} (h : prepare R file readable g = (.error e, g')) : g' = g := by
  unfold prepare at h
  split at h
  · cases h
    rfl
  split at h
  · split at h
    · exact configure_error h
    split at h
    · cases h
    · cases h
      rfl
  · cases h
    rfl

/-- An execution that goes on has set the file's pairing identity, if it has a
private key, and nothing otherwise. -/
theorem prepare_ok {readable : Bool} {g g' : Globals P} {x : Prepared P}
    (h : prepare R (some data) readable g = (.ok x, g')) :
    (∃ p, identity R data = some p ∧ x.pairing = some p ∧ g' = setOnce g p) ∨
      (¬ HasPrivateKey R data ∧ x.pairing = none ∧ g' = g) := by
  unfold prepare at h
  dsimp only at h
  split at h
  · rename_i text keys hutf hkeys
    split at h
    · obtain ⟨p, hp, hx, hg⟩ := configure_ok h
      refine .inl ⟨p, ?_, hx, hg⟩
      simp [identity, hutf, hp, Except.toOption]
    · rename_i hno
      split at h
      · cases h
        refine .inr ⟨?_, rfl, rfl⟩
        rintro ⟨keys', hkeys', hmem⟩
        rw [hkeys] at hkeys'
        cases hkeys'
        exact hno hmem
      · cases h
  · cases h

def accepted : Happening P → Option (Bytes × P)
  | .prepared data (some p) => some (data, p)
  | _ => none

/-- The first file whose pairing identity the library has accepted. -/
def firstAccepted (es : List (Happening P)) : Option (Bytes × P) := (es.filterMap accepted).head?

def seen : Happening P → Option (Event P)
  | .prepared _ (some p) => some (.configured p)
  | .call e => some e
  | _ => none

structure Consistent (R : Parsers P) (es : List (Happening P)) (s : App P) : Prop where
  calls : ∀ e, .call e ∈ es → ∀ p, e ≠ .configured p
  engines : ∀ data log, (data, log) ∈ s.engines → HasPrivateKey R data →
    ∃ p, .prepared data (some p) ∈ es
  identities : ∀ data p, .prepared data (some p) ∈ es → identity R data = some p

theorem Consistent.other {es : List (Happening P)} {s s' : App P} {e : Happening P}
    (h : Consistent R es s) (hcall : ∀ x, e ≠ .call x) (hprep : ∀ data p, e ≠ .prepared data p)
    (heng : ∀ x ∈ s'.engines, x ∈ s.engines) : Consistent R (es ++ [e]) s' := by
  have hmem : ∀ x, x ≠ e → (x ∈ es ++ [e] ↔ x ∈ es) := fun x hx => by simp [hx]
  refine ⟨fun x hx => h.calls x ((hmem _ (hcall x).symm).mp hx), fun data log hm hk => ?_,
    fun data p hx => h.identities data p ((hmem _ (hprep data _).symm).mp hx)⟩
  obtain ⟨p, hp⟩ := h.engines data log (heng _ hm) hk
  exact ⟨p, List.mem_append_left _ hp⟩

theorem Consistent.call {es : List (Happening P)} {s s' : App P} {e : Event P}
    (h : Consistent R es s) (he : ∀ p, e ≠ .configured p) (heng : s'.engines = s.engines) :
    Consistent R (es ++ [.call e]) s' := by
  refine ⟨fun x hx => ?_, fun data log hm hk => ?_, fun data p hx => ?_⟩
  · obtain hx | hx := List.mem_append.mp hx
    · exact h.calls x hx
    · cases List.mem_singleton.mp hx
      exact he
  · obtain ⟨p, hp⟩ := h.engines data log (heng ▸ hm) hk
    exact ⟨p, List.mem_append_left _ hp⟩
  · exact h.identities data p (by simpa using hx)

theorem Consistent.prepared {es : List (Happening P)} {s s' : App P} {x : Prepared P}
    (h : Consistent R es s) (heng : s'.engines = (data, x.log) :: s.engines)
    (hid : ∀ p, x.pairing = some p → identity R data = some p)
    (hkey : HasPrivateKey R data → ∃ p, x.pairing = some p) :
    Consistent R (es ++ [.prepared data x.pairing]) s' := by
  refine ⟨fun e he => h.calls e (by simpa using he), fun data' log hm hk => ?_,
    fun data' p hp => ?_⟩
  · rw [heng] at hm
    obtain hm | hm := List.mem_cons.mp hm
    · cases hm
      obtain ⟨p, hp⟩ := hkey hk
      exact ⟨p, by simp [hp]⟩
    · obtain ⟨p, hp⟩ := h.engines data' log hm hk
      exact ⟨p, List.mem_append_left _ hp⟩
  · obtain hp | hp := List.mem_append.mp hp
    · exact h.identities data' p hp
    · obtain ⟨rfl, hx⟩ := Happening.prepared.inj (List.mem_singleton.mp hp)
      exact hid p hx.symm

theorem consistent_step {es : List (Happening P)} {s s' : App P} {e : Happening P}
    (h : Consistent R es s) (hs : Step R proc s e s') : Consistent R (es ++ [e]) s' := by
  cases hs with
  | importFile => exact h.other nofun nofun fun _ hx => hx
  | deleteFile => exact h.other nofun nofun fun _ hx => hx
  | throw _ => exact h.other nofun nofun fun _ hx => hx
  | «return» _ => exact h.other nofun nofun fun _ hx => List.mem_of_mem_erase hx
  | call _ he => exact h.call he rfl
  | prepare hfile hp =>
    rw [hfile] at hp
    obtain ⟨p, hid, hx, _⟩ | ⟨hno, hx, _⟩ := prepare_ok hp
    · refine h.prepared rfl (fun p' hp' => ?_) fun _ => ⟨p, hx⟩
      rw [hid, ← hx, hp']
    · refine h.prepared rfl (fun p' hp' => ?_) fun hk => absurd hk hno
      rw [hx] at hp'
      cases hp'

theorem seen_run {es : List (Happening P)} {s s' : App P} (h : Run (Step R proc) s es s') :
    Run (Rsd.Step proc) s.rsd (es.filterMap seen) s'.rsd := by
  refine h.project seen (fun s => s.rsd) (fun s e s' k hs hk => ?_) (fun s e s' hs hn => ?_)
  · cases hs with
    | @prepare _ data x g hfile hp =>
      rw [hfile] at hp
      obtain ⟨p, _, hx, rfl⟩ | ⟨_, hx, _⟩ := prepare_ok hp
      · simp only [hx, seen] at hk
        cases hk
        exact .other .set
      · simp [hx, seen] at hk
    | call hs _ =>
      cases hk
      exact hs
    | _ => cases hk
  · cases hs with
    | throw hp => rw [prepare_error hp]
    | @prepare _ data x g hfile hp =>
      rw [hfile] at hp
      obtain ⟨p, _, hx, _⟩ | ⟨_, _, rfl⟩ := prepare_ok hp
      · simp [hx, seen] at hn
      · rfl
    | call _ _ => cases hn
    | _ => rfl

structure Launched (s : App P) : Prop where
  engines : s.engines = []
  rsd : Started s.rsd

theorem consistent_run {es : List (Happening P)} {s s' : App P} (h0 : Launched s)
    (h : Run (Step R proc) s es s') : Consistent R es s' := by
  refine h.history (I := Consistent R) ⟨nofun, fun data log hm => ?_, nofun⟩
    (fun _ _ _ _ => consistent_step)
  rw [h0.engines] at hm
  cases hm

theorem firstConfigured_seen {es : List (Happening P)}
    (h : ∀ e, .call e ∈ es → ∀ p, e ≠ .configured p) :
    firstConfigured (es.filterMap seen) = (firstAccepted es).map Prod.snd := by
  unfold firstConfigured firstAccepted
  rw [List.filterMap_filterMap, ← List.head?_map, List.map_filterMap]
  refine congrArg List.head? (List.filterMap_congr fun x hx => ?_)
  cases x with
  | prepared data p => cases p <;> rfl
  | call e =>
    cases e with
    | configured p => exact absurd rfl (h _ hx p)
    | _ => rfl
  | _ => rfl

/-- A file that has made an execution return was accepted, unless another one was
accepted before. -/
theorem firstAccepted_returned {es : List (Happening P)} {s s' t : App P} {log : Text}
    (h0 : Launched s) (h : Run (Step R proc) s es s') (ht : Step R proc s' (.returned data log) t)
    (hk : HasPrivateKey R data) : firstAccepted es ≠ none := by
  cases ht with
  | «return» hm =>
    obtain ⟨p, hp⟩ := (consistent_run h0 h).engines _ _ hm hk
    have hacc : (data, p) ∈ es.filterMap accepted := List.mem_filterMap.mpr ⟨_, hp, rfl⟩
    intro hn
    rw [List.head?_eq_none_iff.mp hn] at hacc
    exact List.not_mem_nil hacc

/-- Once an execution has returned for a file with a private key, services are only
handed out on connections made with the first pairing identity that was accepted. -/
theorem services_use_first_pairing {es : List (Happening P)} {s s' : App P} (h0 : Launched s)
    (h : Run (Step R proc) s es s') {before mid after : List (Happening P)} {log : Text} {i : Nat}
    {c : CachedRsdConnection P}
    (he : es = (before ++ .returned data log :: mid) ++ .call (.served i c) :: after)
    (hk : HasPrivateKey R data) :
    ∃ first, firstAccepted before = some (first, c.pairing) ∧
      identity R first = some c.pairing := by
  obtain ⟨t, t', ht, hserve⟩ := h.split he
  obtain ⟨u, u', hu, hret⟩ := ht.split rfl
  have hfirst : (firstAccepted (before ++ .returned data log :: mid)).map Prod.snd =
      some c.pairing := by
    rw [← firstConfigured_seen (consistent_run h0 ht).calls]
    cases hserve with
    | call hs _ => exact served_first h0.rsd (seen_run ht) hs
  have hacc : firstAccepted (before ++ .returned data log :: mid) = firstAccepted before := by
    have hne := firstAccepted_returned h0 hu hret hk
    unfold firstAccepted at hne ⊢
    rw [List.filterMap_append, List.head?_append_of_ne_nil]
    exact fun hnil => hne (by rw [hnil]; rfl)
  rw [hacc] at hfirst
  obtain ⟨⟨first, p⟩, hf, rfl⟩ := Option.map_eq_some_iff.mp hfirst
  refine ⟨first, hf, ?_⟩
  obtain ⟨x, hx, hxa⟩ := List.mem_filterMap.mp (List.mem_of_mem_head? hf)
  cases x with
  | prepared data' q =>
    cases q with
    | none => cases hxa
    | some q =>
      cases hxa
      exact (consistent_run h0 hu).identities _ _ hx
  | _ => cases hxa

end App

section Example

def plain : Parsers Text where
  utf8 data := some (data.map fun b => Char.ofNat b.toNat)
  keys _ := some ["private_key".toList]
  fromBytes s := .ok s

theorem plain_hasPrivateKey (data : Bytes) : HasPrivateKey plain data :=
  ⟨_, rfl, List.mem_singleton_self _⟩

theorem plain_prepare (data : Bytes) (g : Globals Text) :
    prepare plain (some data) true g = (.ok ⟨rpPairingLog,
      some (fromPtr (data.map fun b => Char.ofNat b.toNat))⟩,
      setOnce g (fromPtr (data.map fun b => Char.ofNat b.toNat))) := by
  unfold prepare
  simp only [plain, List.mem_singleton, if_true]
  rfl

def services : Nat → Procedure := fun _ => .connectToRsdServices

def launched : App Text := ⟨some [65], [], ⟨⟨none, none, none⟩, fun _ => .called⟩⟩

theorem launched_start : Launched launched := ⟨rfl, rfl, rfl, fun _ => rfl⟩

def log : Text := rpPairingLog ++ connectionLog false none

def executed : List (Happening Text) := [.prepared [65] (some ['A']), .returned [65] log]

def connection : CachedRsdConnection Text := ⟨some 0, ['A']⟩

def connecting : List (Happening Text) :=
  [.call (.missed 0 none), .call (.silent 0), .call (.silent 0), .call (.silent 0),
    .call (.installed 0 connection), .call (.silent 0)]

def configuredApp (file : Bytes) : App Text :=
  ⟨some file, [], ⟨⟨some ['A'], none, none⟩, fun _ => .called⟩⟩

theorem plain_step (data : Bytes) (s : App Text) (hs : s.file = some data) :
    Step plain services s (.prepared data (some (fromPtr (data.map fun b => Char.ofNat b.toNat))))
      { s with engines := (data, rpPairingLog) :: s.engines,
               rsd := ⟨setOnce s.rsd.shared (fromPtr (data.map fun b => Char.ofNat b.toNat)),
                 s.rsd.place⟩ } := by
  have hp := plain_prepare data s.rsd.shared
  rw [← hs] at hp
  exact .prepare hs hp

theorem return_step (data : Bytes) (s : App Text) (es : List (Bytes × Text))
    (hs : s.engines = (data, rpPairingLog) :: es) :
    Step plain services s (.returned data log) { s with engines := es } := by
  have hmem : (data, rpPairingLog) ∈ s.engines := hs ▸ List.mem_cons_self
  have herase : s.engines.erase (data, rpPairingLog) = es := by rw [hs, List.erase_cons_head]
  have hstep : Step plain services s (.returned data log)
      { s with engines := s.engines.erase (data, rpPairingLog) } := .return hmem
  rwa [herase] at hstep

theorem executed_run : Run (Step plain services) launched executed (configuredApp [65]) :=
  .cons (plain_step [65] launched rfl) (.cons (return_step [65] _ [] rfl) .nil)

theorem connecting_run (file : Bytes) : ∃ s, Run (Step plain services) (configuredApp file) connecting s ∧
    ∃ t, Step plain services s (.call (.served 0 connection)) t := by
  refine ⟨_, .cons (.call (.thread (i := 0) (.getNone rfl)) nofun)
    (.cons (.call (.thread (i := 0) (.pairing rfl)) nofun)
    (.cons (.call (.thread (i := 0) .connect) nofun)
    (.cons (.call (.thread (i := 0) (.getEmpty rfl)) nofun)
    (.cons (.call (.thread (i := 0) (.set rfl)) nofun)
    (.cons (.call (.thread (i := 0) (.enter rfl rfl)) nofun) .nil))))), ?_⟩
  exact ⟨_, .call (.thread (i := 0) .serve) nofun⟩

theorem first_pairing_served : ∃ first,
    firstAccepted [Happening.prepared [65] (some ['A'])] = some (first, connection.pairing) ∧
      identity plain first = some connection.pairing := by
  obtain ⟨s, hs, t, ht⟩ := connecting_run [65]
  exact services_use_first_pairing launched_start ((executed_run.append hs).snoc ht) rfl
    (plain_hasPrivateKey [65])

def executedAgain : List (Happening Text) :=
  executed ++ [.stored, .prepared [66] (some ['B'])]

theorem executedAgain_run : Run (Step plain services) launched
    (executedAgain ++ [.returned [66] log]) (configuredApp [66]) := by
  have hstored : Step plain services (configuredApp [65]) .stored { configuredApp [65] with
      file := importFile ⟨true, some (some 1), some [66]⟩ true (some [65]) } := .importFile
  have hagain := executed_run.append (.cons hstored (.cons (plain_step [66] _ rfl)
    (.cons (return_step [66] _ [] rfl) .nil)))
  exact hagain

/-- The second file's pairing identity is not the one that services are handed out with. -/
theorem second_pairing_ignored : Launched launched ∧ HasPrivateKey plain [66] ∧
    identity plain [66] = some ['B'] ∧ (∀ data log, .returned data log ∉ connecting) ∧
    ∃ s, Run (Step plain services) launched
        ((executedAgain ++ .returned [66] log :: connecting) ++ [.call (.served 0 connection)]) s ∧
      connection.pairing ≠ ['B'] := by
  obtain ⟨s, hs, t, ht⟩ := connecting_run [66]
  have hrun := (executedAgain_run.append hs).snoc ht
  rw [List.append_assoc executedAgain] at hrun
  refine ⟨launched_start, plain_hasPrivateKey [66], rfl, fun data log => ?_, t, hrun, by decide⟩
  simp [connecting]

end Example

end UnBoxer.PairingRuns
