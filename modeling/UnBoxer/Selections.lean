import UnBoxer.Browser
import UnBoxer.Effects

namespace UnBoxer.Selections

open UnBoxer.Programs UnBoxer.PathText UnBoxer.Archives UnBoxer.TryBackup UnBoxer.BackupEngine
open UnBoxer.ViewModel UnBoxer.Runs UnBoxer.Effects UnBoxer.Instances

/-- What `selectBackup` does at once. -/
def startExtraction (e : BackupEntry) (m : BackupViewModel) : BackupViewModel :=
  { m with selectedBackup := some e, isExtracting := true, extractError := none }

/-- What its task does on the main actor once the extraction has ended. -/
def finishExtraction (fm : FileManager) (r : Except Stop (List Text)) (m : BackupViewModel) :
    BackupViewModel :=
  match r with
  | .ok dir =>
    { loadContents fm dir { m with currentDirectory := some dir } with isExtracting := false }
  | .error stop => { m with extractError := some stop, isExtracting := false }

/-- An extraction that was started: its entry, and how it ended if it has. -/
structure Extraction where
  entry : BackupEntry
  result : Option (Except Stop (List Text))

/-- The view model with all the extractions it has started, the latest one last. -/
structure Session where
  model : BackupViewModel
  tasks : List Extraction

inductive Event where
  | select (e : BackupEntry)
  | clear
  | delete (e : BackupEntry)
  | completed (i : Nat) (r : Except Stop (List Text))

section Law

variable (F : Foundation) (c : Crates)

/-- The file system may be another one at every step. -/
inductive Step : Session → Event → Session → Prop
  | select {s : Session} {e : BackupEntry} :
      Step s (.select e) ⟨startExtraction e s.model, s.tasks ++ [⟨e, none⟩]⟩
  | clear {s : Session} : Step s .clear ⟨clearExtraction s.model, s.tasks⟩
  | delete {s : Session} {e : BackupEntry} (fm : FileManager) :
      Step s (.delete e) ⟨deleteBackup F fm e s.model, s.tasks⟩
  | completed {s : Session} {i : Nat} {e : BackupEntry} {r : Except Stop (List Text)}
      (fm : FileManager) : s.tasks[i]? = some ⟨e, none⟩ → Returns (ensureExtracted F c e) r →
      Step s (.completed i r) ⟨finishExtraction fm r s.model, s.tasks.set i ⟨e, some r⟩⟩

/-- What shows when no backup is selected, and what when `e` is, whose extraction
has ended as `x` says. -/
def Shows (m : BackupViewModel) : Option Extraction → Prop
  | none => m.currentDirectory = none ∧ m.extractError = none ∧ m.directoryContents = [] ∧
      m.isExtracting = false
  | some t => (m.isExtracting = true ↔ t.result = none) ∧ ∀ r, t.result = some r →
      (∃ stop, r = .error stop ∧ m.extractError = some stop) ∨
        m.currentDirectory = some (extractedDirectory F t.entry)

def Current (s : Session) : Option Extraction → Prop
  | none => s.model.selectedBackup = none
  | some t => s.model.selectedBackup = some t.entry ∧ s.tasks.getLast? = some t

def Lawful (s : Session) : Prop := ∃ t, Current s t ∧ Shows F s.model t

/-- The end `r` of another extraction overwrites nothing that the selection still
needs, whose extraction is over. -/
def Spares (m : BackupViewModel) (t : Extraction) (r : Except Stop (List Text)) : Prop :=
  match t.result, r with
  | none, _ => False
  | some x, .ok dir => dir = extractedDirectory F t.entry ∨
      ∃ stop, x = .error stop ∧ m.extractError = some stop
  | some x, .error stop => x = .error stop ∨
      m.currentDirectory = some (extractedDirectory F t.entry)

/-- An extraction ends only while its selection stands, or where it does no harm. -/
def Harmless (s : Session) : Event → Prop
  | .completed i r => ∃ t, Current s (some t) ∧
    (i + 1 = s.tasks.length ∨ Spares F s.model t r)
  | _ => True

variable {F c}

theorem ensureExtracted_returns {e : BackupEntry} {dir : List Text}
    (h : Returns (ensureExtracted F c e) (.ok dir)) : dir = extractedDirectory F e := by
  unfold ensureExtracted at h
  generalize extractedDirectory F e = x at h ⊢
  obtain ⟨_, _, h⟩ := h.bind_ok
  cases h with
  | call reply h =>
    cases reply with
    | true =>
      cases h
      rfl
    | false =>
      obtain ⟨_, _, h⟩ := h.bind_ok
      cases h
      rfl

theorem getLast_set_of_lt {α : Type} {xs : List α} {i : Nat} (x : α) (h : i + 1 < xs.length) :
    (xs.set i x).getLast? = xs.getLast? := by
  rw [List.getLast?_eq_getElem?, List.getLast?_eq_getElem?, List.length_set]
  apply List.getElem?_set_ne
  omega

theorem getLast_set_last {α : Type} {xs : List α} {i : Nat} (x : α) (h : i + 1 = xs.length) :
    (xs.set i x).getLast? = some x := by
  rw [List.getLast?_eq_getElem?, List.length_set, ← h, Nat.add_sub_cancel]
  apply List.getElem?_set_self
  omega

theorem finish_selected (fm : FileManager) (r : Except Stop (List Text)) (m : BackupViewModel) :
    (finishExtraction fm r m).selectedBackup = m.selectedBackup := by
  cases r with
  | ok dir => rfl
  | error stop => rfl

theorem finish_shows (fm : FileManager) (r : Except Stop (List Text)) (m : BackupViewModel) :
    (finishExtraction fm r m).isExtracting = false ∧ ¬ Shows F (finishExtraction fm r m) none := by
  cases r with
  | ok dir =>
    refine ⟨rfl, fun h => ?_⟩
    cases h.1
  | error stop =>
    refine ⟨rfl, fun h => ?_⟩
    cases h.2.1

theorem select_lawful (s : Session) (e : BackupEntry) :
    Lawful F ⟨startExtraction e s.model, s.tasks ++ [⟨e, none⟩]⟩ := by
  refine ⟨some ⟨e, none⟩, ⟨rfl, List.getLast?_concat⟩, iff_of_true rfl rfl, fun r hr => ?_⟩
  cases hr

theorem clear_lawful (m : BackupViewModel) (ts : List Extraction) :
    Lawful F ⟨clearExtraction m, ts⟩ := ⟨none, rfl, rfl, rfl, rfl, rfl⟩

theorem lawful_backups {s : Session} (h : Lawful F s) (bs : List BackupEntry) :
    Lawful F ⟨{ s.model with backups := bs }, s.tasks⟩ := by
  obtain ⟨t, hcur, hshow⟩ := h
  cases t with
  | none => exact ⟨none, hcur, hshow⟩
  | some t => exact ⟨some t, hcur, hshow⟩

theorem delete_lawful {s : Session} (h : Lawful F s) (fm : FileManager) (e : BackupEntry) :
    Lawful F ⟨deleteBackup F fm e s.model, s.tasks⟩ := by
  have hload : ∀ m, Lawful F ⟨m, s.tasks⟩ → Lawful F ⟨loadBackups F fm m, s.tasks⟩ := by
    intro m hm
    unfold loadBackups
    cases fm.contentsOfDirectory (backupsDirectory F) with
    | none => exact hm
    | some names => exact lawful_backups hm _
  unfold deleteBackup
  apply hload
  by_cases he : s.model.selectedBackup.map BackupEntry.id = some e.id
  · rw [if_pos he]
    exact clear_lawful _ _
  · rw [if_neg he]
    exact h

theorem completed_latest {s : Session} {t : Extraction} {i : Nat} {e : BackupEntry}
    {r : Except Stop (List Text)} (fm : FileManager) (hcur : Current s (some t))
    (hi : s.tasks[i]? = some ⟨e, none⟩) (hlast : i + 1 = s.tasks.length)
    (hr : Returns (ensureExtracted F c e) r) :
    Lawful F ⟨finishExtraction fm r s.model, s.tasks.set i ⟨e, some r⟩⟩ := by
  have ht : t = ⟨e, none⟩ := by
    have hget := hcur.2
    rw [List.getLast?_eq_getElem?, ← hlast, Nat.add_sub_cancel, hi] at hget
    exact (Option.some.inj hget).symm
  subst ht
  refine ⟨some ⟨e, some r⟩, ⟨?_, getLast_set_last _ hlast⟩, ?_, fun x hx => ?_⟩
  · exact (finish_selected fm r s.model).trans hcur.1
  · refine iff_of_false ?_ (by simp)
    rw [(finish_shows (F := F) fm r s.model).1]
    exact Bool.false_ne_true
  · obtain rfl := Option.some.inj hx
    cases r with
    | ok dir => exact .inr (congrArg some (ensureExtracted_returns hr))
    | error stop => exact .inl ⟨stop, rfl, rfl⟩

theorem shows_finish (fm : FileManager) (r : Except Stop (List Text)) (m : BackupViewModel)
    (t : Extraction) : Shows F (finishExtraction fm r m) (some t) ↔ Spares F m t r := by
  unfold Shows Spares
  dsimp only
  rw [(finish_shows (F := F) fm r m).1]
  cases hres : t.result with
  | none => simp
  | some x =>
    cases r with
    | ok dir =>
      simp only [Bool.false_eq_true, reduceCtorEq, true_and, Option.some.injEq, forall_eq']
      constructor
      · rintro (h | h)
        · exact .inr h
        · exact .inl (Option.some.inj h)
      · rintro (h | h)
        · exact .inr (congrArg some h)
        · exact .inl h
    | error stop =>
      simp only [Bool.false_eq_true, reduceCtorEq, true_and, Option.some.injEq, forall_eq']
      constructor
      · rintro (⟨stop', hx, hstop⟩ | h)
        · obtain rfl := Option.some.inj hstop
          exact .inl hx
        · exact .inr h
      · rintro (h | h)
        · exact .inl ⟨stop, h, rfl⟩
        · exact .inr h

/-- What the end of another extraction overwrites once that of the selection is over. -/
theorem completed_other {s : Session} {t : Extraction} {i : Nat} {e : BackupEntry}
    {r : Except Stop (List Text)} (fm : FileManager) (hcur : Current s (some t))
    (hlt : i + 1 < s.tasks.length) :
    Lawful F ⟨finishExtraction fm r s.model, s.tasks.set i ⟨e, some r⟩⟩ ↔
      Harmless F s (.completed i r) := by
  have hsel : (finishExtraction fm r s.model).selectedBackup = some t.entry :=
    (finish_selected fm r s.model).trans hcur.1
  have hlast : (s.tasks.set i ⟨e, some r⟩).getLast? = some t := by
    rw [getLast_set_of_lt _ hlt, hcur.2]
  have hne : i + 1 ≠ s.tasks.length := Nat.ne_of_lt hlt
  -- both sides speak of `t`
  have hleft : Lawful F ⟨finishExtraction fm r s.model, s.tasks.set i ⟨e, some r⟩⟩ ↔
      Shows F (finishExtraction fm r s.model) (some t) := by
    constructor
    · rintro ⟨u, hu, hshow'⟩
      cases u with
      | none =>
        have hnone : some t.entry = none := hsel.symm.trans hu
        cases hnone
      | some u =>
        obtain rfl := Option.some.inj (hu.2.symm.trans hlast)
        exact hshow'
    · intro h
      exact ⟨some t, ⟨hsel, hlast⟩, h⟩
  have hright : Harmless F s (.completed i r) ↔ Spares F s.model t r := by
    constructor
    · rintro ⟨u, hu, h⟩
      obtain rfl := Option.some.inj (hu.2.symm.trans hcur.2)
      exact h.resolve_left hne
    · intro h
      exact ⟨t, hcur, .inr h⟩
  rw [hleft, hright]
  exact shows_finish fm r s.model t

theorem completed_lawful {s : Session} {i : Nat} {e : BackupEntry} {r : Except Stop (List Text)}
    (fm : FileManager) (h : Lawful F s) (hi : s.tasks[i]? = some ⟨e, none⟩)
    (hr : Returns (ensureExtracted F c e) r) :
    Lawful F ⟨finishExtraction fm r s.model, s.tasks.set i ⟨e, some r⟩⟩ ↔
      Harmless F s (.completed i r) := by
  obtain ⟨t, hcur, hshow⟩ := h
  have hlt : i < s.tasks.length := (List.getElem?_eq_some_iff.mp hi).1
  cases t with
  | none =>
    -- without a selection every end of an extraction shows
    have hsel : (finishExtraction fm r s.model).selectedBackup = none :=
      (finish_selected fm r s.model).trans hcur
    refine iff_of_false ?_ ?_
    · rintro ⟨u, hu, hshow'⟩
      cases u with
      | none => exact (finish_shows fm r s.model).2 hshow'
      | some u =>
        have hnone : none = some u.entry := hsel.symm.trans hu.1
        cases hnone
    · rintro ⟨u, hu, _⟩
      have hnone : none = some u.entry := Eq.trans (Eq.symm hcur) hu.1
      cases hnone
  | some t =>
    by_cases hlast : i + 1 = s.tasks.length
    · exact iff_of_true (completed_latest fm hcur hi hlast hr) ⟨t, hcur, .inl hlast⟩
    · apply completed_other fm hcur
      omega

theorem step_lawful {s s' : Session} {ev : Event} (h : Lawful F s) (hs : Step F c s ev s') :
    Lawful F s' ↔ Harmless F s ev := by
  cases hs with
  | @select e => exact iff_of_true (select_lawful s e) trivial
  | clear => exact iff_of_true (clear_lawful _ _) trivial
  | @delete e fm => exact iff_of_true (delete_lawful h fm e) trivial
  | @completed i e r fm hi hr => exact completed_lawful fm h hi hr

/-- The runs that show what belongs to the selection are those in which every
extraction that ends is that of the selection or harmless. -/
theorem lawful_iff_harmless (F : Foundation) (c : Crates) (m : BackupViewModel) (evs : List Event)
    (s : Session) :
    Run (fun s ev s' => Step F c s ev s' ∧ Lawful F s') ⟨clearExtraction m, []⟩ evs s ↔
      Run (fun s ev s' => Step F c s ev s' ∧ Harmless F s ev) ⟨clearExtraction m, []⟩ evs s := by
  apply run_and_congr (I := Lawful F) (clear_lawful m [])
  intro s ev s' hs hstep
  have hiff := step_lawful hs hstep
  exact ⟨hiff, hiff.mpr⟩

end Law

section Example

/-- The extraction of a backup that was left meanwhile still shows its directory. -/
theorem cleared_extraction_shows : ∃ s,
    Run (Step foundation crates) ⟨clearExtraction Browser.closed, []⟩
      [.select firstEntry, .clear, .completed 0 (.ok Browser.extracted)] s ∧
    s.model.selectedBackup = none ∧ s.model.currentDirectory = some Browser.extracted ∧
    ¬ Lawful foundation s := by
  have hreturns := run_returns (ensureExtracted foundation crates firstEntry) Browser.extractedDisk
  rw [Browser.extractedDisk_url] at hreturns
  refine ⟨_, .cons .select (.cons .clear (.cons (.completed Browser.directories rfl
    hreturns) .nil)), rfl, rfl, ?_⟩
  rintro ⟨t, hcur, hshow⟩
  cases t with
  | none => cases hshow.1
  | some t => cases hcur.1

end Example

end UnBoxer.Selections
