import UnBoxer.BackupWalk

namespace UnBoxer.BackupLoop

open UnBoxer.Trees UnBoxer.Programs UnBoxer.PathText UnBoxer.Archives UnBoxer.TryBackup
open UnBoxer.Worklist UnBoxer.DeviceTrees UnBoxer.BackupWalk

/-- The variables of the loop are those of a search over the device, written as texts. -/
structure Simulates (D : Device) (c : Crates) (w : Walk) (s : Search (List Text)) : Prop where
  stack : w.stack = s.stack.map path
  entries : w.entries = s.found.map (recordOf D c)
  total : w.total = Int64.ofNat (s.found.map (sizeOf D)).sum
  listed : listed w.requests = s.done.map path

def ListedOnce (D : Device) (refused : Access → List Text → Prop) (rs : List Request) : Prop :=
  ∃ l : List (List Text), l.Nodup ∧ (∀ p ∈ l, Reached D refused p) ∧ listed rs = l.map path

section Loop

variable {D : Device} {refused : Access → List Text → Prop} {c : Crates} {ps : List (Piece Text)}
  {afc : Afc}

theorem simulates_start : Simulates D c start ⟨[[]], [], []⟩ := ⟨rfl, rfl, rfl, rfl⟩

theorem Simulates.visit {w w' : Walk} {p : List Text} {st done found kids : List (List Text)}
    {stack : List Text} (hs : Simulates D c w ⟨p :: st, done, found⟩)
    (hw : w.stack = path p :: stack)
    (ha : Added D c
      { w with stack := stack, requests := w.requests ++ [.listDir (path p)] } kids w') :
    Simulates D c w' ⟨(kids.filter (isDir D)).reverse ++ st, done ++ [p], found ++ kids⟩ where
  stack := by
    have hst : stack = st.map path := by
      have := hw.symm.trans hs.stack
      simpa using this
    rw [ha.stack, hst, List.map_append]
  entries := by rw [ha.entries, hs.entries, List.map_append]
  total := by rw [ha.total, hs.total, List.map_append, List.sum_append, Int64.ofNat_add]
  listed := by
    have hl : BackupWalk.listed (w.requests ++ [.listDir (path p)]) =
        BackupWalk.listed w.requests ++ [path p] := by simp [BackupWalk.listed]
    rw [ha.listed, hl, hs.listed, List.map_append]
    rfl

theorem listedOnce_prefix {rs : List Request} {s : Search (List Text)}
    (hinv : Inv (Child D refused) (isDir D) [] s) {l : List (List Text)}
    (hl : l <+: s.done ++ s.stack) (hrs : listed rs = l.map path) : ListedOnce D refused rs :=
  ⟨l, hinv.nodup.sublist hl.sublist,
    fun p hp => (reach_iff D refused p).mp (hinv.reach p (hl.subset hp)), hrs⟩

/-- The rule for the loop: what the listing of a directory keeps is kept, and each
round lists one more. -/
theorem backupLoop_rule {R : Disk Text UInt8 → Prop} {E : Halt → Disk Text UInt8 → Prop}
    (hlist : ∀ w p st done found, Inv (Child D refused) (isDir D) [] ⟨p :: st, done, found⟩ →
      Simulates D c w ⟨p :: st, done, found⟩ → D.tree.node p = some .dir →
      Triple R (backupListing c (resolve [] ps) afc (path p) { w with stack := st.map path })
        (fun w' d => R d ∧ ∃ kids, kids.Nodup ∧ (∀ q, q ∈ kids ↔ Child D refused p q) ∧
          Added D c { w with stack := st.map path, requests := w.requests ++ [.listDir (path p)] }
            kids w') E)
    (fuel : Nat) {w : Walk} {s : Search (List Text)}
    (hinv : Inv (Child D refused) (isDir D) [] s) (hsim : Simulates D c w s)
    (hstop : ∀ w' s', Inv (Child D refused) (isDir D) [] s' → Simulates D c w' s' →
      s'.done.length = s.done.length + fuel → ∀ d, R d → E ⟨.running, w'⟩ d) :
    Triple R (backupLoop c (resolve [] ps) afc fuel w)
      (fun w' d => R d ∧ ∃ s', Inv (Child D refused) (isDir D) [] s' ∧ s'.stack = [] ∧
        Simulates D c w' s') E := by
  induction fuel generalizing w s with
  | zero => exact Triple.error fun d hd => hstop w s hinv hsim rfl d hd
  | succ fuel ih =>
    obtain ⟨stack, done, found⟩ := s
    cases stack with
    | nil =>
      have hw : w.stack = [] := hsim.stack
      rw [backupLoop, hw]
      exact Triple.ok fun d hd => ⟨hd, _, hinv, rfl, hsim⟩
    | cons p st =>
      have hw : w.stack = path p :: st.map path := hsim.stack
      have hp : D.tree.node p = some .dir :=
        ((reach_iff D refused p).mp (hinv.reach p (by simp))).1
      rw [backupLoop, hw]
      refine (hlist w p st done found hinv hsim hp).bind fun w' => ?_
      rintro d ⟨hR, kids, hnd, hk, hadd⟩
      have hstep : Step (Child D refused) (isDir D) ⟨p :: st, done, found⟩ _ :=
        .visit p st done found kids hnd hk
      refine ih (hinv.step (forest D refused) hstep) (hsim.visit hw hadd) (fun w' s' hi hs hlen =>
        hstop w' s' hi hs ?_) d hR
      rw [hlen, List.length_append, List.length_singleton]
      exact Nat.add_right_comm _ _ _

theorem backupLoop_spec (hs : Serves D refused afc) {S : Finset (List Text)}
    (hS : ∀ p, Reach (Child D refused) (isDir D) [] p → p ∈ S) (fuel : Nat) {w : Walk}
    {s : Search (List Text)} (hinv : Inv (Child D refused) (isDir D) [] s)
    (hsim : Simulates D c w s) :
    Triple (HasFile ps) (backupLoop c (resolve [] ps) afc fuel w)
      (fun w' d => HasFile ps d ∧ ∃ s', Inv (Child D refused) (isDir D) [] s' ∧ s'.stack = [] ∧
        Simulates D c w' s')
      (fun halt _ => (halt.stop = .running → fuel + s.done.length ≤ S.card) ∧
        ListedOnce D refused halt.walk.requests) := by
  refine backupLoop_rule (fun w p st done found hinv hsim hp => ?_) fuel hinv hsim
    fun w' s' hinv' hsim' hlen d _ => ⟨fun _ => ?_, ?_⟩
  · refine (backupListing_spec (c := c) hs hp _).weaken (fun _ hd => hd) (fun _ _ hd => hd)
      (fun halt _ hf => ⟨fun hr => absurd hr hf.1, ?_⟩)
    have hl : listed halt.walk.requests = (done ++ [p]).map path := by
      rw [hf.2, List.map_append, ← hsim.listed]
      simp [listed]
    exact listedOnce_prefix hinv ⟨st, by simp⟩ hl
  · have hcard := hinv'.length_le hS
    omega
  · exact listedOnce_prefix hinv' (List.prefix_append _ _) hsim'.listed

structure Complete (D : Device) (refused : Access → List Text → Prop) (c : Crates) (w : Walk)
    (ps : List (List Text)) : Prop where
  nodup : ps.Nodup
  archived : ∀ p, p ∈ ps ↔ Archived D refused p
  parent_before : ∀ l q n r, ps = l ++ (q ++ [n]) :: r → q ≠ [] → q ∈ l
  entries : w.entries = ps.map (recordOf D c)
  total : w.total = Int64.ofNat (ps.map (sizeOf D)).sum
  listed : ∃ l : List (List Text), l.Nodup ∧ (∀ p, p ∈ l ↔ Reached D refused p) ∧
    listed w.requests = l.map path

theorem complete_of_search {w : Walk} {s : Search (List Text)}
    (hinv : Inv (Child D refused) (isDir D) [] s) (hst : s.stack = []) (hsim : Simulates D c w s) :
    Complete D refused c w s.found where
  nodup := hinv.found_nodup
  archived p := by rw [hinv.found_iff hst, archived_iff]
  parent_before l q n r hl hq := by
    have hc : Child D refused q (q ++ [n]) := by
      obtain ⟨q', _, hc⟩ := hinv.found_child (q ++ [n]) (by simp [hl])
      obtain ⟨hd, hr, m, he, hst⟩ := hc
      obtain ⟨rfl, hnm⟩ := List.append_inj' he rfl
      exact ⟨hd, hr, n, rfl, hst⟩
    exact (hinv.parent_before l (q ++ [n]) r q hl hc).resolve_left hq
  entries := hsim.entries
  total := hsim.total
  listed := by
    refine ⟨s.done, ?_, fun p => ?_, hsim.listed⟩
    · exact hinv.nodup.sublist (List.prefix_append s.done s.stack).sublist
    · rw [hinv.complete hst, reach_iff]

/-- The loop from its start: it ends, and when it returns it has been everywhere. -/
theorem loop_spec (hs : Serves D refused afc) : ∃ rounds, ∀ ps fuel,
    Triple (HasFile ps) (backupLoop c (resolve [] ps) afc fuel start)
      (fun w d => HasFile ps d ∧ ∃ qs, Complete D refused c w qs)
      (fun halt _ => (halt.stop = .running → fuel ≤ rounds) ∧
        ListedOnce D refused halt.walk.requests) := by
  obtain ⟨S, hS⟩ := reach_finite D refused
  refine ⟨S.card, fun ps fuel => ?_⟩
  refine (backupLoop_spec hs hS fuel (inv_start _ _ _) simulates_start).weaken (fun _ hd => hd)
    (fun w d hd => ?_) (fun _ _ hf => hf)
  obtain ⟨hfile, s, hinv, hst, hsim⟩ := hd
  exact ⟨hfile, s.found, complete_of_search hinv hst hsim⟩

end Loop

end UnBoxer.BackupLoop
