import UnBoxer.AppDiscovery

namespace UnBoxer.EngineLogs

open UnBoxer.PathText UnBoxer.Pairing UnBoxer.Runs UnBoxer.EngineRuns UnBoxer.AppDiscovery

def shows (m : DashboardViewModel) (ps : List Post) : DashboardViewModel :=
  ps.foldl Post.run (startTesting m)

section Shows

variable {m : DashboardViewModel} {ps : List Post}

end Shows

theorem showApps_runPosts {r : Request} {engine : Except LockdownEngineError Text}
    {discovery : Except Text (List AppInfo)} {apps : List AppInfo}
    (h : Post.showApps apps ∈ runPosts r engine discovery) : discovery = .ok apps := by
  obtain ⟨pairingFile, udid⟩ := r
  cases engine with
  | error e => simp [runPosts, fatalError] at h
  | ok engineLogs =>
    cases udid with
    | none => simp [runPosts, executionCompleted] at h
    | some u =>
      cases discovery with
      | error e => simp [runPosts, discoveryPosts, fatalError] at h
      | ok found =>
        have heq : apps = found := by
          simpa [runPosts, discoveryPosts, executionCompleted] using h
        rw [heq]

/-- A run that has begun, with the results of the two engines. -/
structure Test where
  request : Request
  engine : Except LockdownEngineError Text
  discovery : Except Text (List AppInfo)

def Test.posts (b : Test) : List Post := runPosts b.request b.engine b.discovery

def Event.test : Event → Option Test
  | .begins r engine discovery => some ⟨r, engine, discovery⟩
  | _ => none

/-- The run that has begun last. -/
def begun (es : List Event) : Option Test := es.reverse.findSome? Event.test

section Phases

/-- No run is in progress: there has been none, or the last one is over. -/
def Settled : Option Test → DashboardViewModel → Prop
  | none, m => m = initial.model
  | some b, m => ∃ m₀, m = stopTesting (shows m₀ b.posts)

inductive Phase : Option Test → State → Prop
  | idle {b : Option Test} {m : DashboardViewModel} : Settled b m → Phase b ⟨m, [], [], [], 0⟩
  | called {b : Option Test} {m : DashboardViewModel} {r : Request} : Settled b m →
      Phase b ⟨m, [.start r], [], [], 0⟩
  | dispatched {b : Option Test} {m : DashboardViewModel} {r : Request} :
      Phase b ⟨shows m [], [], [r], [], 0⟩
  | running {m : DashboardViewModel} {ps waiting rest : List Post} {b : Test} :
      ps ++ waiting ++ rest = b.posts →
      Phase (some b) ⟨shows m ps, waiting.map .post, [], [rest], 0⟩
  | ended {m : DashboardViewModel} {ps waiting : List Post} {b : Test} :
      ps ++ waiting = b.posts → Phase (some b) ⟨shows m ps, waiting.map .post, [], [], 1⟩
  | teardown {m : DashboardViewModel} {ps waiting : List Post} {b : Test} :
      ps ++ waiting = b.posts →
      Phase (some b) ⟨shows m ps, waiting.map .post ++ [.teardown], [], [], 0⟩
  | stopping {m : DashboardViewModel} {b : Test} :
      Phase (some b) ⟨shows m b.posts, [.stop], [], [], 0⟩

variable {s s' : State} {e : Event} {b : Option Test}

end Phases

section Screen

variable {m : DashboardViewModel} {ps : List Post} {b : Test}

end Screen

section Lists

/-- All lists that wait to be shown, and the one that is, are what a run that has begun has
discovered. -/
structure AllFound (es : List Event) (s : State) : Prop where
  queued : ∀ shown, .post (.showApps shown) ∈ s.queue →
    ∃ r engine, .begins r engine (.ok shown) ∈ es
  running : ∀ ps ∈ s.running, ∀ shown, Post.showApps shown ∈ ps →
    ∃ r engine, .begins r engine (.ok shown) ∈ es
  shown : s.model.showAppList = true → ∃ r engine, .begins r engine (.ok s.model.apps) ∈ es

theorem step_found {es : List Event} {s s' : State} {e : Event} (h : AllFound es s)
    (hstep : Step s e s') : AllFound (es ++ [e]) s' := by
  have hold : ∀ {shown : List AppInfo}, (∃ r engine, .begins r engine (.ok shown) ∈ es) →
      ∃ r engine, .begins r engine (.ok shown) ∈ es ++ [e] :=
    fun ⟨r, engine, hm⟩ => ⟨r, engine, List.mem_append_left _ hm⟩
  have hqueued := fun shown hm => hold (h.queued shown hm)
  have hrunning := fun ps hps shown hm => hold (h.running ps hps shown hm)
  have hshown := fun hf => hold (h.shown hf)
  cases hstep with
  | establish hf =>
    exact ⟨fun shown hm => hqueued shown (by simpa [establishLockdownConnection] using hm),
      hrunning, hshown⟩
  | @block b rest hq =>
    have hrest : ∀ shown, .post (.showApps shown) ∈ rest →
        ∃ r engine, .begins r engine (.ok shown) ∈ es ++ [.block] :=
      fun shown hm => hqueued shown (by rw [hq]; exact List.mem_cons_of_mem _ hm)
    cases b with
    | start r => exact ⟨hrest, hrunning, fun hf => by cases hf⟩
    | teardown =>
      exact ⟨fun shown hm => hrest shown (by simpa [Block.run] using hm), hrunning, hshown⟩
    | stop => exact ⟨hrest, hrunning, hshown⟩
    | post p =>
      cases p with
      | appendLog message => exact ⟨hrest, hrunning, hshown⟩
      | showApps apps =>
        exact ⟨hrest, hrunning, fun _ => hqueued apps (by rw [hq]; exact List.mem_cons_self)⟩
  | @begins before after r engine discovery hd =>
    refine ⟨hqueued, fun ps hps shown hm => ?_, hshown⟩
    obtain rfl | hps := List.mem_cons.mp hps
    · obtain rfl := showApps_runPosts hm
      exact ⟨r, engine, List.mem_append_right _ (List.mem_singleton_self _)⟩
    · exact hrunning ps hps shown hm
  | @posts before after p ps hr =>
    have hp : ∀ q ∈ p :: ps, ∀ shown, q = Post.showApps shown →
        ∃ r engine, .begins r engine (.ok shown) ∈ es ++ [.posts] :=
      fun q hq shown he => hrunning (p :: ps) (by rw [hr]; simp) shown (he ▸ hq)
    refine ⟨fun shown hm => ?_, fun qs hqs shown hm => ?_, hshown⟩
    · obtain hm | hm := List.mem_append.mp hm
      · exact hqueued shown hm
      · cases List.mem_singleton.mp hm
        exact hp _ List.mem_cons_self shown rfl
    · obtain hqs | hqs := List.mem_append.mp hqs
      · exact hrunning qs (by rw [hr]; exact List.mem_append_left _ hqs) shown hm
      · obtain rfl | hqs := List.mem_cons.mp hqs
        · exact hp _ (List.mem_cons_of_mem _ hm) shown rfl
        · exact hrunning qs (by rw [hr]; simp [hqs]) shown hm
  | @ends before after hr =>
    refine ⟨hqueued, fun qs hqs => hrunning qs ?_, hshown⟩
    rw [hr]
    obtain hqs | hqs := List.mem_append.mp hqs <;> simp [hqs]
  | timer ht => exact ⟨fun shown hm => hqueued shown (by simpa using hm), hrunning, hshown⟩

theorem run_found {es : List Event} {s : State} (h : Run Step initial es s) : AllFound es s := by
  refine h.history (I := AllFound) ?_ fun _ _ _ _ => step_found
  exact ⟨(fun _ hm => by cases hm), (fun _ hm => by cases hm), (fun hf => by cases hf)⟩

variable {κ : Type} [LinearOrder κ] (S : Serializer) (parseError : Text → Text)
  (lowercased : Text → κ)

def Discovers (answer : Option (List PlistValue)) (discovery : Except Text (List AppInfo)) : Prop :=
  ∃ uuid jsonString, fetchAllAppsRppairing S answer = .ok jsonString ∧
    discovery = fetchAllApps parseError uuid lowercased jsonString

/-- A step, where a run that begins gets the answer that stands beside it. -/
def DeviceStep (s : State) (e : Event × Option (List PlistValue)) (s' : State) : Prop :=
  Step s e.1 s' ∧ ∀ r engine discovery, e.1 = .begins r engine discovery →
    Discovers S parseError lowercased e.2 discovery

variable {S parseError lowercased}

theorem discovers_ok (hS : S.Documented) {answer : Option (List PlistValue)}
    {shown : List AppInfo} (h : Discovers S parseError lowercased answer (.ok shown)) :
    ∃ apps uuid, answer = some apps ∧ apps ≠ [] ∧ (∀ v ∈ apps, IsDictionary v) ∧
      AppDiscovery.Lists lowercased (rows S uuid apps) shown := by
  obtain ⟨uuid, jsonString, hjson, hshown⟩ := h
  cases answer with
  | none =>
    cases hjson
    cases hshown
  | some apps =>
    cases hs : S.toString apps with
    | none =>
      obtain ⟨hbridge, hfetch⟩ := fetchAllApps_fallback parseError uuid lowercased hs
      cases hjson.symm.trans hbridge
      cases hshown.trans hfetch
    | some json =>
      cases hjson.symm.trans (rppairing_some hS hs)
      obtain ⟨vs, hparse, hw⟩ := hS.parses apps json hs
      have hresult := fetchAllApps_array parseError uuid lowercased hparse hw
      rw [← hshown] at hresult
      exact ⟨apps, uuid, rfl, hresult⟩

theorem device_steps {es : List (Event × Option (List PlistValue))} {s s' : State}
    (h : Run (DeviceStep S parseError lowercased) s es s') :
    Run Step s (es.map Prod.fst) s' ∧ ∀ e ∈ es, ∀ r engine discovery,
      e.1 = .begins r engine discovery → Discovers S parseError lowercased e.2 discovery := by
  induction h with
  | nil => exact ⟨.nil, fun _ he => by cases he⟩
  | @snoc es e t t' _ hstep ih =>
    refine ⟨?_, fun e' he' => ?_⟩
    · rw [List.map_append]
      exact .snoc ih.1 hstep.1
    · obtain he' | he' := List.mem_append.mp he'
      · exact ih.2 e' he'
      · obtain rfl := List.mem_singleton.mp he'
        exact hstep.2

/-- Whatever overlaps, a list on the screen is the answer of the device to one run, complete and
in order. -/
theorem list_shown (hS : S.Documented) {es : List (Event × Option (List PlistValue))} {s : State}
    (h : Run (DeviceStep S parseError lowercased) initial es s)
    (hs : s.model.showAppList = true) :
    ∃ r engine apps uuid, (.begins r engine (.ok s.model.apps), some apps) ∈ es ∧ apps ≠ [] ∧
      (∀ v ∈ apps, IsDictionary v) ∧
      AppDiscovery.Lists lowercased (rows S uuid apps) s.model.apps := by
  obtain ⟨hrun, hdevice⟩ := device_steps h
  obtain ⟨r, engine, hm⟩ := (run_found hrun).shown hs
  obtain ⟨⟨e, answer⟩, he, rfl⟩ := List.mem_map.mp hm
  obtain ⟨apps, uuid, rfl, hshown⟩ := discovers_ok hS (hdevice _ he _ _ _ rfl)
  exact ⟨r, engine, apps, uuid, he, hshown⟩

end Lists

section Example

def byLength : Text → Nat := List.length

theorem sample_discovered :
    ∃ shown, Discovers printer id byLength (some sampleApps) (.ok shown) := by
  obtain ⟨json, hjson⟩ : ∃ json, printer.toString sampleApps = some json := ⟨_, rfl⟩
  obtain ⟨vs, hparse, hw⟩ := printer_documented.parses sampleApps json hjson
  have hresult := fetchAllApps_array id (fun _ => []) byLength hparse hw
  cases hd : fetchAllApps id (fun _ => []) byLength (some json) with
  | ok shown => exact ⟨shown, _, _, rppairing_some printer_documented hjson, hd.symm⟩
  | error e =>
    rw [hd] at hresult
    obtain ⟨hnil, _⟩ | ⟨⟨v, hv, hdict⟩, _⟩ := hresult
    · cases hnil
    · simp only [sampleApps, List.mem_cons, List.not_mem_nil, or_false] at hv
      obtain rfl | rfl | rfl := hv <;> exact absurd ⟨_, rfl⟩ hdict

/-- A test whose list of apps is shown. -/
theorem list_shown_sample : ∃ es s, Run (DeviceStep printer id byLength) initial es s ∧
    s.model.showAppList = true ∧
    ∃ r engine apps uuid, (.begins r engine (.ok s.model.apps), some apps) ∈ es ∧ apps ≠ [] ∧
      (∀ v ∈ apps, IsDictionary v) ∧
      AppDiscovery.Lists byLength (rows printer uuid apps) s.model.apps := by
  obtain ⟨shown, hfound⟩ := sample_discovered
  have hcall : DeviceStep printer id byLength initial (.establish request, none)
      (establishLockdownConnection request initial) := ⟨.establish rfl, fun _ _ _ h => by cases h⟩
  have hblock := (Run.nil.snoc hcall).snoc (i := (.block, none))
    ⟨Step.block rfl, fun _ _ _ h => by cases h⟩
  have hbegins := hblock.snoc (i := (.begins request (.ok []) (.ok shown), some sampleApps))
    ⟨@Step.begins _ [] [] request (.ok []) (.ok shown) rfl, fun _ _ _ h => by cases h; exact hfound⟩
  have hpost : ∀ {es : List (Event × Option (List PlistValue))} {s : State} {p : Post}
      {ps : List Post}, Run (DeviceStep printer id byLength) initial es s →
      s.running = [p :: ps] → Run (DeviceStep printer id byLength) initial (es ++ [(.posts, none)])
        { s with running := [ps], queue := s.queue ++ [.post p] } :=
    fun h hr => h.snoc ⟨@Step.posts _ [] [] _ _ hr, fun _ _ _ h => by cases h⟩
  have hrun : ∀ {es : List (Event × Option (List PlistValue))} {s : State} {b : Block}
      {rest : List Block}, Run (DeviceStep printer id byLength) initial es s →
      s.queue = b :: rest → Run (DeviceStep printer id byLength) initial (es ++ [(.block, none)])
        (b.run { s with queue := rest }) :=
    fun h hq => h.snoc ⟨Step.block hq, fun _ _ _ h => by cases h⟩
  have hposts := hpost (hpost (hpost (hpost hbegins rfl) rfl) rfl) rfl
  have hshown := hrun (hrun (hrun (hrun hposts rfl) rfl) rfl) rfl
  exact ⟨_, _, hshown, rfl, list_shown printer_documented hshown rfl⟩

end Example

end UnBoxer.EngineLogs
