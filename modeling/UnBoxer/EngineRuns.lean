import UnBoxer.Pairing

namespace UnBoxer.EngineRuns

open UnBoxer.PathText UnBoxer.JsonParser UnBoxer.Pairing UnBoxer.Runs

structure AppInfo where
  id : Text
  name : Text
  bundleID : Text
  version : Text
  path : Text

/-- What a test of the engine changes in the `DashboardViewModel`. -/
structure DashboardViewModel where
  logs : Text
  isTesting : Bool
  apps : List AppInfo
  showAppList : Bool
  isLogsFolded : Bool

structure Request where
  pairingFile : Text
  udid : Option Text

/-- What a run of the engine posts to the main queue. -/
inductive Post where
  | appendLog (message : Text)
  | showApps (fetchedApps : List AppInfo)

inductive Block where
  | start (r : Request)
  | post (p : Post)
  | teardown
  | stop

/-- The view model, the main queue, the runs that wait for a background thread,
what each run in progress has yet to post, and the number of teardown timers. -/
structure State where
  model : DashboardViewModel
  queue : List Block
  dispatched : List Request
  running : List (List Post)
  timers : Nat

def initial : State := ⟨⟨[], false, [], false, false⟩, [], [], [], 0⟩

def fatalError (description : Text) : Post :=
  .appendLog ("$ [ENGINE] FATAL ERROR: ".toList ++ description)

def executionCompleted : Post :=
  .appendLog "$ [ENGINE] Execution Completed Successfully.".toList

def discoveryPosts (discovery : Except Text (List AppInfo)) : List Post :=
  .appendLog "$ [DISCOVERY] Initiating App Discovery Engine...".toList ::
    match discovery with
    | .error e => [fatalError e]
    | .ok fetchedApps =>
      [.appendLog ("$ [DISCOVERY] Found ".toList ++ decimal fetchedApps.length ++
        " User Apps!".toList), .showApps fetchedApps, executionCompleted]

/-- All that a run posts, where `engine` and `discovery` are the results of the two engines. -/
def runPosts (r : Request) (engine : Except LockdownEngineError Text)
    (discovery : Except Text (List AppInfo)) : List Post :=
  match engine with
  | .error e => [fatalError (errorDescription e)]
  | .ok engineLogs => .appendLog engineLogs ::
    match r.udid with
    | some _ => discoveryPosts discovery
    | none => [executionCompleted]

def Post.run (m : DashboardViewModel) : Post → DashboardViewModel
  | .appendLog message => { m with logs := m.logs ++ message ++ ['\n'] }
  | .showApps fetchedApps =>
    { m with apps := fetchedApps, showAppList := true, isLogsFolded := true }

def startTesting (m : DashboardViewModel) : DashboardViewModel :=
  { m with
    isTesting := true, showAppList := false, isLogsFolded := false
    logs := "$ Starting Native Lockdown Engine...\n".toList }

def stopTesting (m : DashboardViewModel) : DashboardViewModel :=
  { m with
    isTesting := false
    logs := m.logs ++ "\n$ Engine gracefully stopped. Ready for next action.\n".toList }

def establishLockdownConnection (r : Request) (s : State) : State :=
  { s with queue := s.queue ++ [.start r] }

def Block.run (s : State) : Block → State
  | .start r => { s with model := startTesting s.model, dispatched := s.dispatched ++ [r] }
  | .post p => { s with model := p.run s.model }
  | .teardown => { s with queue := s.queue ++ [.stop] }
  | .stop => { s with model := stopTesting s.model }

inductive Event where
  | establish (r : Request)
  | block
  | begins (r : Request) (engine : Except LockdownEngineError Text)
      (discovery : Except Text (List AppInfo))
  | posts
  | ends
  | timer

inductive Step : State → Event → State → Prop
  | establish {s : State} {r : Request} : s.model.isTesting = false →
      Step s (.establish r) (establishLockdownConnection r s)
  | block {s : State} {b : Block} {rest : List Block} : s.queue = b :: rest →
      Step s .block (b.run { s with queue := rest })
  | begins {s : State} {before after : List Request} {r : Request}
      {engine : Except LockdownEngineError Text} {discovery : Except Text (List AppInfo)} :
      s.dispatched = before ++ r :: after →
      Step s (.begins r engine discovery) { s with
        dispatched := before ++ after, running := runPosts r engine discovery :: s.running }
  | posts {s : State} {before after : List (List Post)} {p : Post} {ps : List Post} :
      s.running = before ++ (p :: ps) :: after →
      Step s .posts { s with running := before ++ ps :: after, queue := s.queue ++ [.post p] }
  | ends {s : State} {before after : List (List Post)} : s.running = before ++ [] :: after →
      Step s .ends { s with running := before ++ after, timers := s.timers + 1 }
  | timer {s : State} {n : Nat} : s.timers = n + 1 →
      Step s .timer { s with timers := n, queue := s.queue ++ [.teardown] }

/-- At most one run is in progress, and the flag stands while it is. -/
structure Lawful (s : State) : Prop where
  single : s.running.length ≤ 1
  flagged : s.running ≠ [] → s.model.isTesting = true

/-- No call is made while the first block of an earlier one waits on the main queue. -/
def Clear (s : State) : Event → Prop
  | .establish _ => ∀ r, .start r ∉ s.queue
  | _ => True

def ClearStep (s : State) (e : Event) (s' : State) : Prop := Step s e s' ∧ Clear s e

section Counts

def Block.starts : Block → Bool
  | .start _ => true
  | _ => false

def Block.tearsDown : Block → Bool
  | .teardown | .stop => true
  | _ => false

def starts (s : State) : Nat := s.queue.countP Block.starts

/-- The runs whose teardown is not over. -/
def pending (s : State) : Nat :=
  s.dispatched.length + s.running.length + s.timers + s.queue.countP Block.tearsDown

/-- The flag tells whether a run is pending; while it stands no other one can start. -/
structure Sound (s : State) : Prop where
  idle : s.model.isTesting = false → pending s = 0 ∧ starts s ≤ 1
  busy : s.model.isTesting = true → pending s = 1 ∧ starts s = 0

variable {s s' : State} {e : Event}

theorem Sound.lawful (h : Sound s) : Lawful s := by
  cases hf : s.model.isTesting with
  | false =>
    have hp := (h.idle hf).1
    unfold pending at hp
    have hnil : s.running = [] := List.length_eq_zero_iff.mp (by omega)
    exact ⟨by simp [hnil], fun hne => absurd hnil hne⟩
  | true =>
    have hp := (h.busy hf).1
    unfold pending at hp
    exact ⟨by omega, fun _ => hf⟩

theorem initial_sound : Sound initial where
  idle _ := ⟨rfl, Nat.zero_le 1⟩
  busy h := by cases h

theorem Sound.of_same (h : Sound s) (hm : s'.model.isTesting = s.model.isTesting)
    (hp : pending s' = pending s) (hs : starts s' = starts s) : Sound s' where
  idle hf := by
    rw [hp, hs]
    exact h.idle (hm ▸ hf)
  busy hf := by
    rw [hp, hs]
    exact h.busy (hm ▸ hf)

theorem starts_clear (h : ∀ r, .start r ∉ s.queue) : starts s = 0 := by
  refine List.countP_eq_zero.mpr fun b hb => ?_
  cases b with
  | start r => exact absurd hb (h r)
  | _ => exact Bool.false_ne_true

theorem run_isTesting (p : Post) (m : DashboardViewModel) : (p.run m).isTesting = m.isTesting := by
  cases p <;> rfl

theorem establish_sound (h : Sound s) (hf : s.model.isTesting = false) {r : Request}
    (hc : ∀ r, .start r ∉ s.queue) : Sound (establishLockdownConnection r s) where
  idle _ := by
    have hp : pending (establishLockdownConnection r s) = pending s := by
      simp [pending, establishLockdownConnection, Block.tearsDown]
    have hs : starts (establishLockdownConnection r s) = starts s + 1 := by
      simp [starts, establishLockdownConnection, Block.starts]
    rw [hp, hs, starts_clear hc]
    exact ⟨(h.idle hf).1, Nat.le_refl 1⟩
  busy hf' := by
    change s.model.isTesting = true at hf'
    rw [hf] at hf'
    cases hf'

theorem start_sound {r : Request} {rest : List Block} (h : Sound s)
    (hq : s.queue = .start r :: rest) : Sound ((Block.start r).run { s with queue := rest }) where
  idle hf := by cases hf
  busy _ := by
    have hs : starts s = rest.countP Block.starts + 1 := by
      simp [starts, hq, Block.starts, List.countP_cons]
    have hp : pending s = s.dispatched.length + s.running.length + s.timers +
        rest.countP Block.tearsDown := by simp [pending, hq, Block.tearsDown]
    have hf : s.model.isTesting = false := by
      by_contra hf
      have hbusy := (h.busy (Bool.eq_true_of_not_eq_false hf)).2
      omega
    obtain ⟨hidle, hone⟩ := h.idle hf
    simp only [pending, starts, Block.run, List.length_append, List.length_singleton]
    omega

theorem stop_sound {rest : List Block} (h : Sound s) (hq : s.queue = .stop :: rest) :
    Sound (Block.stop.run { s with queue := rest }) where
  idle _ := by
    have hs : starts s = rest.countP Block.starts := by simp [starts, hq, Block.starts]
    have hp : pending s = s.dispatched.length + s.running.length + s.timers +
        (rest.countP Block.tearsDown + 1) := by
      simp [pending, hq, Block.tearsDown, List.countP_cons]
    have hf : s.model.isTesting = true := by
      by_contra hf
      have hidle := (h.idle (Bool.eq_false_of_not_eq_true hf)).1
      omega
    obtain ⟨hone, hzero⟩ := h.busy hf
    simp only [pending, starts, Block.run]
    omega
  busy hf := by cases hf

theorem block_sound {b : Block} {rest : List Block} (h : Sound s) (hq : s.queue = b :: rest) :
    Sound (b.run { s with queue := rest }) := by
  cases b with
  | start r => exact start_sound h hq
  | stop => exact stop_sound h hq
  | post p =>
    refine h.of_same (run_isTesting p s.model) ?_ ?_
    · simp [pending, hq, Block.run, Block.tearsDown]
    · simp [starts, hq, Block.run, Block.starts]
  | teardown =>
    refine h.of_same rfl ?_ ?_
    · simp [pending, hq, Block.run, Block.tearsDown, List.countP_cons]
    · simp [starts, hq, Block.run, Block.starts]

/-- The law is kept by every step that is clear. -/
theorem step_sound (h : Sound s) (hstep : ClearStep s e s') : Sound s' := by
  obtain ⟨hstep, hclear⟩ := hstep
  cases hstep with
  | establish hf => exact establish_sound h hf hclear
  | block hq => exact block_sound h hq
  | begins hd =>
    refine h.of_same rfl ?_ rfl
    simp only [pending, hd, List.length_append, List.length_cons]
    omega
  | posts hr =>
    refine h.of_same rfl ?_ ?_
    · simp [pending, hr, Block.tearsDown]
    · simp [starts, Block.starts]
  | ends hr =>
    refine h.of_same rfl ?_ rfl
    simp only [pending, hr, List.length_append, List.length_cons]
    omega
  | timer ht =>
    refine h.of_same rfl ?_ ?_
    · simp only [pending, ht, List.countP_append]
      simp only [Block.tearsDown, List.countP_singleton, if_true]
      omega
    · simp [starts, Block.starts]

theorem run_sound {es : List Event} (h : Run ClearStep s es s') (hs : Sound s) : Sound s' :=
  h.invariant hs fun _ _ _ => step_sound

end Counts

section Overlap

variable {s : State} {r : Request}

theorem exists_drained (h : s.queue.countP Block.tearsDown = 0) :
    ∃ es s', Run ClearStep s es s' ∧ s'.dispatched.length = s.dispatched.length + starts s := by
  generalize hq : s.queue = q at h
  induction q generalizing s with
  | nil => exact ⟨[], s, .nil, by simp [starts, hq]⟩
  | cons b q ih =>
    have hstep : ClearStep s .block (b.run { s with queue := q }) := ⟨.block hq, trivial⟩
    cases b with
    | start r =>
      obtain ⟨es, s', hrun, hlen⟩ := @ih ((Block.start r).run { s with queue := q }) rfl
        (by simpa [Block.tearsDown, List.countP_cons] using h)
      refine ⟨_, s', hrun.cons hstep, ?_⟩
      simp only [Block.run, starts, hq, List.length_append, List.length_singleton] at hlen ⊢
      simp only [List.countP_cons, Block.starts, if_true]
      omega
    | post p =>
      obtain ⟨es, s', hrun, hlen⟩ := @ih ((Block.post p).run { s with queue := q }) rfl
        (by simpa [Block.tearsDown, List.countP_cons] using h)
      refine ⟨_, s', hrun.cons hstep, ?_⟩
      simpa [Block.run, starts, hq, Block.starts, List.countP_cons] using hlen
    | _ => simp [Block.tearsDown, List.countP_cons] at h

/-- Two runs that have been dispatched can both begin. -/
theorem exists_overlap (h : 2 ≤ s.dispatched.length) :
    ∃ es s', Run ClearStep s es s' ∧ 2 ≤ s'.running.length := by
  obtain ⟨m, q, ds, rs, t⟩ := s
  match ds, h with
  | r₁ :: r₂ :: ds, _ =>
    have hfirst := @Step.begins ⟨m, q, r₁ :: r₂ :: ds, rs, t⟩ [] (r₂ :: ds) r₁ (.ok []) (.ok []) rfl
    have hsecond := @Step.begins
      ⟨m, q, r₂ :: ds, runPosts r₁ (.ok []) (.ok []) :: rs, t⟩ [] ds r₂ (.ok []) (.ok []) rfl
    refine ⟨_, _, (Run.nil.snoc ⟨hfirst, trivial⟩).snoc ⟨hsecond, trivial⟩, ?_⟩
    simp

theorem exists_unlawful (h : Sound s) (hf : s.model.isTesting = false)
    (hc : ¬ Clear s (.establish r)) :
    ∃ es s', Run ClearStep (establishLockdownConnection r s) es s' ∧ ¬ Lawful s' := by
  have hpending := (h.idle hf).1
  unfold pending at hpending
  have hwaits : 1 ≤ starts s := by
    unfold Clear at hc
    push Not at hc
    obtain ⟨r', hr'⟩ := hc
    exact List.countP_pos_iff.mpr ⟨_, hr', rfl⟩
  have hends : (establishLockdownConnection r s).queue.countP Block.tearsDown = 0 := by
    have hnone : s.queue.countP Block.tearsDown = 0 := by omega
    simpa [establishLockdownConnection, Block.tearsDown] using hnone
  obtain ⟨es₁, s₁, hrun₁, hlen⟩ := exists_drained hends
  have htwo : 2 ≤ s₁.dispatched.length := by
    have hstarts : starts (establishLockdownConnection r s) = starts s + 1 := by
      simp [starts, establishLockdownConnection, Block.starts]
    omega
  obtain ⟨es₂, s₂, hrun₂, hlen₂⟩ := exists_overlap htwo
  refine ⟨es₁ ++ es₂, s₂, hrun₁.append hrun₂, fun hl => ?_⟩
  have hone := hl.single
  omega

/-- Where the calls so far were clear, runs are single and flagged, and they stay so
after one more call if and only if it is clear too. -/
theorem lawful_iff_clear {es : List Event} {s : State} (h : Run ClearStep initial es s) :
    Lawful s ∧ ∀ r, s.model.isTesting = false →
      ((∀ es' s', Run ClearStep (establishLockdownConnection r s) es' s' → Lawful s') ↔
        Clear s (.establish r)) := by
  have hs := run_sound h initial_sound
  refine ⟨hs.lawful, fun r hf => ⟨fun hall => ?_, fun hc es' s' hrun => ?_⟩⟩
  · by_contra hc
    obtain ⟨es', s', hrun, hl⟩ := exists_unlawful hs hf hc
    exact hl (hall es' s' hrun)
  · exact (run_sound hrun (establish_sound hs hf hc)).lawful

end Overlap

section Example

def request : Request := ⟨['p'], some ['u']⟩

/-- A run is in progress. -/
theorem lawful_iff_clear_running : ∃ s,
    Run ClearStep initial [.establish request, .block, .begins request (.ok []) (.ok [])] s ∧
    (Lawful s ∧ ∀ r, s.model.isTesting = false →
      ((∀ es' s', Run ClearStep (establishLockdownConnection r s) es' s' → Lawful s') ↔
        Clear s (.establish r))) := by
  have hcall : ClearStep initial (.establish request)
      (establishLockdownConnection request initial) := ⟨.establish rfl, fun _ h => by cases h⟩
  have hblock := (Run.nil.snoc hcall).snoc ⟨Step.block rfl, trivial⟩
  have hrun := hblock.snoc ⟨@Step.begins _ [] [] request (.ok []) (.ok []) rfl, trivial⟩
  exact ⟨_, hrun, lawful_iff_clear hrun⟩

/-- Two calls before the main queue has run a block lead to two runs at a time. -/
theorem two_calls_overlap : ∃ s, Run Step initial [.establish request, .establish request, .block,
    .block, .begins request (.ok []) (.ok []), .begins request (.ok []) (.ok [])] s ∧
      ¬ Lawful s := by
  have hcalls := (Run.nil.snoc (Step.establish (s := initial) (r := request) rfl)).snoc
    (Step.establish (r := request) rfl)
  have hblocks := (hcalls.snoc (Step.block rfl)).snoc (Step.block rfl)
  have hruns := (hblocks.snoc (@Step.begins _ [] [request] request (.ok []) (.ok []) rfl)).snoc
    (@Step.begins _ [] [] request (.ok []) (.ok []) rfl)
  refine ⟨_, hruns, fun h => ?_⟩
  have htwo : (2 : Nat) ≤ 1 := h.single
  exact absurd htwo (by decide)

end Example

end UnBoxer.EngineRuns
