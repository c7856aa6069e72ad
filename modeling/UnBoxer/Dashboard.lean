import UnBoxer.PathText
import UnBoxer.Runs

namespace UnBoxer.Dashboard

open UnBoxer.PathText UnBoxer.Runs

structure DashboardViewModel where
  isBackingUp : Bool
  backingUpBundleID : Option Text
  backupError : Option Text
  backupSuccessMessage : Option Text
  showBackupToast : Bool
  deriving DecidableEq

structure Toast where
  message : Text
  isError : Bool
  deriving DecidableEq

structure Backup where
  bundleID : Text
  appName : Text
  version : Text
  deriving DecidableEq

/-- The view model, the toast on the screen, the backup tasks that run, the number
of toast timers that wait, and all toasts so far. -/
structure DashboardView where
  model : DashboardViewModel
  backupToast : Option Toast
  tasks : List Backup
  timers : Nat
  shown : List Toast
  deriving DecidableEq

def performBackup (b : Backup) (d : DashboardView) : DashboardView :=
  if d.model.isBackingUp then d
  else { d with
    model := { d.model with
      isBackingUp := true, backingUpBundleID := some b.bundleID, backupError := none,
      backupSuccessMessage := none }
    tasks := b :: d.tasks }

def finish (b : Backup) (r : Except Text Unit) (m : DashboardViewModel) : DashboardViewModel :=
  match r with
  | .ok () =>
    { m with
      isBackingUp := false, backingUpBundleID := none
      backupSuccessMessage := some ("Backup of ".toList ++ b.appName ++ " completed.".toList)
      showBackupToast := true }
  | .error e =>
    { m with isBackingUp := false, backingUpBundleID := none, backupError := some e,
             showBackupToast := true }

def backupToastOf (m : DashboardViewModel) : Toast :=
  ⟨(m.backupSuccessMessage.or m.backupError).getD [], m.backupError.isSome⟩

/-- The closure of `onChange(of: viewModel.showBackupToast)`. -/
def onChange (d : DashboardView) : DashboardView :=
  if d.model.showBackupToast then
    { d with
      backupToast := some (backupToastOf d.model)
      timers := d.timers + 1
      shown := d.shown ++ [backupToastOf d.model] }
  else d

/-- The closure runs after a step that changed the value, and only then. -/
def observed (d d' : DashboardView) : DashboardView :=
  if d.model.showBackupToast ≠ d'.model.showBackupToast then onChange d' else d'

def complete (b : Backup) (r : Except Text Unit) (d : DashboardView) : DashboardView :=
  observed d { d with model := finish b r d.model, tasks := d.tasks.erase b }

def takeDown (d : DashboardView) : DashboardView :=
  observed d { d with
    model := { d.model with showBackupToast := false }
    backupToast := none
    timers := d.timers - 1 }

inductive Event where
  | perform (b : Backup)
  | completed (b : Backup) (r : Except Text Unit)
  | timer

inductive Step : DashboardView → Event → DashboardView → Prop
  | perform {d : DashboardView} {b : Backup} : Step d (.perform b) (performBackup b d)
  | completed {d : DashboardView} {b : Backup} {r : Except Text Unit} : b ∈ d.tasks →
      Step d (.completed b r) (complete b r d)
  | timer {d : DashboardView} : d.timers ≠ 0 → Step d .timer (takeDown d)

def started : DashboardView := ⟨⟨false, none, none, none, false⟩, none, [], 0, []⟩

def report (b : Backup) : Except Text Unit → Toast
  | .ok () => ⟨"Backup of ".toList ++ b.appName ++ " completed.".toList, false⟩
  | .error e => ⟨e, true⟩

def reports : Event → List Toast
  | .completed b r => [report b r]
  | _ => []

def Alone (d : DashboardView) : Prop :=
  match d.tasks with
  | [] => d.model.isBackingUp = false ∧ d.model.backingUpBundleID = none
  | [b] => d.model.isBackingUp = true ∧ d.model.backingUpBundleID = some b.bundleID
  | _ => False

/-- No backup ends while the toast of another one is on the screen. -/
def Apart (d : DashboardView) : Event → Prop
  | .completed _ _ => d.model.showBackupToast = false
  | _ => True

/-- Moreover the outcome of the task that runs is still open, and a toast is up as
long as its timer waits. -/
structure Inv (d : DashboardView) : Prop where
  alone : Alone d
  fresh : d.model.isBackingUp = true →
    d.model.backupError = none ∧ d.model.backupSuccessMessage = none
  timer : d.timers = if d.model.showBackupToast then 1 else 0
  visible : d.backupToast.isSome = d.model.showBackupToast

theorem started_inv : Inv started := by
  refine ⟨⟨rfl, rfl⟩, fun h => ?_, rfl, rfl⟩
  cases h

theorem performBackup_inv {d : DashboardView} (h : Inv d) (b : Backup) :
    Inv (performBackup b d) ∧ (performBackup b d).shown = d.shown := by
  unfold performBackup
  by_cases hb : d.model.isBackingUp = true
  · rw [if_pos hb]
    exact ⟨h, rfl⟩
  · rw [if_neg hb]
    have htasks : d.tasks = [] := by
      have ha := h.alone
      unfold Alone at ha
      split at ha
      · assumption
      · exact absurd ha.1 hb
      · exact ha.elim
    refine ⟨⟨?_, fun _ => ⟨rfl, rfl⟩, h.timer, h.visible⟩, rfl⟩
    unfold Alone
    rw [htasks]
    exact ⟨rfl, rfl⟩

theorem Inv.running {d : DashboardView} (h : Inv d) {b : Backup} (hb : b ∈ d.tasks) :
    d.tasks = [b] ∧ d.model.backupError = none ∧ d.model.backupSuccessMessage = none := by
  have ha := h.alone
  unfold Alone at ha
  split at ha
  · rename_i ht
    rw [ht] at hb
    cases hb
  · rename_i b' ht
    rw [ht] at hb
    obtain rfl := List.mem_singleton.mp hb
    exact ⟨ht, h.fresh ha.1⟩
  · exact ha.elim

theorem finish_toast {m : DashboardViewModel} (b : Backup) (r : Except Text Unit)
    (he : m.backupError = none) (hs : m.backupSuccessMessage = none) :
    backupToastOf (finish b r m) = report b r := by
  cases r with
  | ok u =>
    unfold backupToastOf finish report
    simp [he]
  | error e =>
    unfold backupToastOf finish report
    simp [hs]

theorem finish_flags (b : Backup) (r : Except Text Unit) (m : DashboardViewModel) :
    (finish b r m).isBackingUp = false ∧ (finish b r m).backingUpBundleID = none ∧
      (finish b r m).showBackupToast = true := by
  cases r with
  | ok u => exact ⟨rfl, rfl, rfl⟩
  | error e => exact ⟨rfl, rfl, rfl⟩

theorem complete_inv {d : DashboardView} (h : Inv d) {b : Backup} (hb : b ∈ d.tasks)
    (r : Except Text Unit) : Inv (complete b r d) ∧
      (complete b r d).shown =
        d.shown ++ if d.model.showBackupToast then [] else [report b r] := by
  obtain ⟨htasks, he, hs⟩ := h.running hb
  obtain ⟨hbacking, hbundle, hshow⟩ := finish_flags b r d.model
  have hrest : d.tasks.erase b = [] := by simp [htasks]
  have htoast := finish_toast b r he hs
  have htimer := h.timer
  have hvisible := h.visible
  unfold complete observed onChange
  dsimp only
  rw [hshow, htoast, hrest]
  cases hup : d.model.showBackupToast with
  | true =>
    rw [hup] at htimer hvisible
    simp only [ne_eq, not_true_eq_false, if_false, if_true, List.append_nil, and_true]
    refine ⟨⟨hbacking, hbundle⟩, fun ht => ?_, ?_, ?_⟩
    · rw [hbacking] at ht
      cases ht
    · simpa [hshow] using htimer
    · simpa [hshow] using hvisible
  | false =>
    rw [hup] at htimer
    simp only [ne_eq, Bool.false_eq_true, not_false_eq_true, if_true, if_false]
    refine ⟨⟨⟨hbacking, hbundle⟩, fun ht => ?_, ?_, ?_⟩, trivial⟩
    · rw [hbacking] at ht
      cases ht
    · simpa [hshow] using htimer
    · simp [hshow]

theorem takeDown_inv {d : DashboardView} (h : Inv d) : Inv (takeDown d) ∧
    (takeDown d).shown = d.shown := by
  have htimer := h.timer
  have hlow : d.timers - 1 = 0 := by
    cases hup : d.model.showBackupToast with
    | true => simp [htimer, hup]
    | false => simp [htimer, hup]
  unfold takeDown observed onChange
  dsimp only
  rw [if_neg Bool.false_ne_true, ite_self]
  exact ⟨⟨h.alone, h.fresh, hlow, rfl⟩, rfl⟩

/-- One step: the invariant stays, and everything is reported exactly when no
toast is in the way. -/
theorem step_inv {d d' : DashboardView} {e : Event} (h : Inv d) (hs : Step d e d') :
    Inv d' ∧ (d'.shown = d.shown ++ reports e ↔ Apart d e) := by
  cases hs with
  | @perform b =>
    obtain ⟨hi, hshown⟩ := performBackup_inv h b
    exact ⟨hi, iff_of_true (by rw [hshown]; exact (List.append_nil _).symm) trivial⟩
  | @completed b r hb =>
    obtain ⟨hi, hshown⟩ := complete_inv h hb r
    refine ⟨hi, ?_⟩
    rw [hshown]
    unfold Apart reports
    cases d.model.showBackupToast <;> simp
  | timer =>
    obtain ⟨hi, hshown⟩ := takeDown_inv h
    exact ⟨hi, iff_of_true (by rw [hshown]; exact (List.append_nil _).symm) trivial⟩

theorem run_inv {d : DashboardView} {es : List Event} (h : Run Step started es d) : Inv d :=
  h.invariant started_inv fun _ _ _ hi hs => (step_inv hi hs).1

/-- The runs in which every backup that ends is reported once, with its own outcome,
are those in which none ends while the toast of another one is up. Whether or not,
the flags are those of the only task that runs. -/
theorem reported_iff_apart (es : List Event) (d : DashboardView) :
    Run (fun d e d' => Step d e d' ∧ Alone d' ∧ d'.shown = d.shown ++ reports e) started es d ↔
      Run (fun d e d' => Step d e d' ∧ Apart d e) started es d := by
  apply run_and_congr (I := Inv) started_inv
  intro d e d' hi hs
  obtain ⟨hi', hiff⟩ := step_inv hi hs
  exact ⟨(and_iff_right hi'.alone).trans hiff, fun _ => hi'⟩

section Example

def first : Backup := ⟨['a'], ['A'], ['1']⟩

def second : Backup := ⟨['b'], ['B'], ['1']⟩

/-- The second backup fails while the toast of the first is up: nothing reports it. -/
theorem failure_unreported : ∃ d, Run Step started
    [.perform first, .completed first (.ok ()), .perform second, .completed second (.error ['x'])]
      d ∧
    d.shown = [report first (.ok ())] ∧ d.backupToast = some (report first (.ok ())) := by
  refine ⟨_, .cons .perform (.cons (.completed ?_) (.cons .perform (.cons (.completed ?_) .nil))),
    ?_, ?_⟩
  · decide
  · decide
  · decide
  · decide

end Example

end UnBoxer.Dashboard
