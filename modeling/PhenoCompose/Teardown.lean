/-
`status` and `down`: look at the containers of a run, and stop them.

`down` walks through the services of `teardown.order`, or through all services if that is empty, and stops the container
recorded under each name. `down_leaves_nothing_running`: that is every recorded container exactly when every container is
recorded under one of these names, which `validate` does not ask for.
-/
import PhenoCompose.Store

namespace PhenoCompose

open Core.Collections Core.Json Core.Path Core.Process Core.Text

variable (lib : Externals)

/-! ## Model -/

structure StatusOutput where
  runId : String
  lifecycle : RunLifecycle
  services : BTreeMap String
deriving DecidableEq

def ensurePersistedProvider (state : RunState) : Result Unit :=
  refuseIf (state.provider ≠ "podman") <|
    .unsupported "persisted_provider_unsupported" ("cannot operate on persisted provider " ++ state.provider)
      "runtime.persistence" state.provider

def status (stateDir : PathBuf) (runId : String) : Proc CliError StatusOutput := do
  let state ← loadState lib stateDir runId
  ensurePersistedProvider state
  let services ← state.containers.toList.foldlM (fun (services : BTreeMap String) (service, id) => do
    let value ← mapErr mapRuntimeError (PodmanRuntime.status lib state.manifest.runtime.wslDistribution id)
    pure (services.insert service value.toString)) ∅
  pure { runId := state.runId, lifecycle := state.lifecycle, services := services }

/-- the services that `down` goes through -/
def teardownOrder (manifest : CompositionManifest) : Result (List String) :=
  if manifest.teardown.order = [] then do
    let order ← manifest.serviceOrder
    .ok order.reverse
  else .ok manifest.teardown.order

/-- stop the container recorded for a service, unless it is gone or has exited -/
def stopService (distribution : Option String) (containers : BTreeMap String) (service : String) : Proc CliError Unit :=
  match containers[service]? with
  | none => pure ()
  | some id => do
    match ← mapErr mapRuntimeError (PodmanRuntime.status lib distribution id) with
    | .notFound | .exited => pure ()
    | _ => mapErr mapRuntimeError (PodmanRuntime.stop distribution id)

def down (stateDir : PathBuf) (runId : String) : Proc CliError StatusOutput := do
  let state ← loadState lib stateDir runId
  ensurePersistedProvider state
  if state.lifecycle = .down then fail (.conflict "run_already_down" ("run " ++ runId ++ " is already down"))
  else do
    let order ← teardownOrder state.manifest
    order.forM (stopService lib state.manifest.runtime.wslDistribution state.containers)
    let state := { state with lifecycle := .down }
    saveState stateDir state
    pure
      { runId := state.runId
        lifecycle := state.lifecycle
        services := state.containers.map fun _ _ => "down" }

/-! ## Stopping one service -/

/-- the container is out of the way: reported gone or exited, or its stop accepted -/
def Settled (distribution : Option String) (id : String) (e : Event Answer) : Prop :=
  ReportedInactive lib distribution id e ∨ AcceptedStop distribution id e

/-- a call to Podman about this container -/
def About (distribution : Option String) (id : String) : Event Answer → Prop
  | ⟨.podman command, _⟩ => command = statusCommand distribution id ∨ command = stopCommand distribution id
  | _ => False

theorem Settled.about {distribution : Option String} {id : String} {e : Event Answer}
    (h : Settled lib distribution id e) : About distribution id e := by
  rcases h with ⟨a, rfl, -⟩ | ⟨a, rfl, -⟩
  · exact .inl rfl
  · exact .inr rfl

theorem About.unique {distribution : Option String} {id id' : String} {e : Event Answer}
    (h : About distribution id e) (h' : About distribution id' e) : id = id' := by
  obtain ⟨call, a⟩ := e
  cases call
  case podman command =>
    rcases h with rfl | rfl <;> rcases h' with h' | h' <;> simp_all [statusCommand, stopCommand]
  all_goals exact h.elim

section
variable {distribution : Option String} {containers : BTreeMap String} {service : String} {fs fs' : FileSystem} {t : Trace}

theorem stopService_ok (h : Run Step (stopService lib distribution containers service) fs t (.ok ()) fs') :
    fs' = fs ∧ (∀ e ∈ t, ∃ id, containers[service]? = some id ∧ About distribution id e) ∧
      ∀ id, containers[service]? = some id → ∃ e ∈ t, Settled lib distribution id e := by
  unfold stopService at h
  cases hc : containers[service]? with
  | none =>
    rw [hc] at h
    obtain ⟨rfl, -, rfl⟩ := run_pure.1 h
    exact ⟨rfl, List.forall_mem_nil _, nofun⟩
  | some id =>
    rw [hc] at h
    obtain ⟨value, t₁, u, t₂, hstatus, hrest, rfl⟩ := run_bind_ok.1 h
    obtain ⟨rfl, a, rfl, ha⟩ := (status_asks lib _ _ _ _ _ _).1 (run_mapErr_ok.1 hstatus)
    have hreported : (value = .notFound ∨ value = .exited) → ∀ id', some id = some id' →
        ∃ e ∈ ([⟨.podman (statusCommand distribution id), a⟩] ++ t₂ : Trace), Settled lib distribution id' e := by
      intro hv id' hx
      obtain ⟨⟩ := hx
      exact ⟨_, .head _, .inl ⟨a, rfl, by rw [← ha]; simpa using hv⟩⟩
    have hstop : Run Step (mapErr mapRuntimeError (PodmanRuntime.stop distribution id)) u t₂ (.ok ()) fs' →
        fs' = u ∧ ∃ a', t₂ = [⟨.podman (stopCommand distribution id), a'⟩] ∧ stopResult a' = .ok () := by
      intro hs
      obtain ⟨rfl, a', rfl, ha'⟩ := (stop_asks _ _ _ _ _ _).1 (run_mapErr_ok.1 hs)
      exact ⟨rfl, a', rfl, ha'.symm⟩
    have hasked : About distribution id ⟨.podman (statusCommand distribution id), a⟩ := .inl rfl
    cases value with
    | notFound | exited =>
      obtain ⟨rfl, -, rfl⟩ := run_pure.1 hrest
      refine ⟨rfl, ?_, hreported (by simp)⟩
      intro e he
      obtain rfl := List.mem_singleton.1 he
      exact ⟨id, rfl, hasked⟩
    | running | paused =>
      obtain ⟨rfl, a', rfl, ha'⟩ := hstop hrest
      refine ⟨rfl, ?_, ?_⟩
      · intro e he
        refine ⟨id, rfl, ?_⟩
        rcases List.mem_cons.1 he with rfl | he
        · exact hasked
        · obtain rfl := List.mem_singleton.1 he
          exact .inr rfl
      · intro id' hx
        obtain ⟨⟩ := hx
        exact ⟨_, .tail _ (.head _), .inr ⟨a', rfl, ha'⟩⟩

theorem stopService_only (distribution : Option String) (containers : BTreeMap String) (service : String) :
    Only Event.commanding (stopService lib distribution containers service) := by
  unfold stopService
  split
  · exact Only.pure _
  · apply ((podmanOutput_only fun _ => trivial).mapErr.bind fun _ => Only.lift _).mapErr.bind
    intro value
    cases value with
    | notFound | exited => exact Only.pure _
    | running | paused => exact ((podmanOutput_only fun _ => trivial).mapErr.bind fun _ => Only.lift _).mapErr

/-- nothing needs to be stopped when Podman reports every container as exited -/
theorem stopService_runs (distribution : Option String) (containers : BTreeMap String) (service : String)
    (fs : FileSystem) : ∃ t, Run Step (stopService lib distribution containers service) fs t (.ok ()) fs := by
  unfold stopService
  cases containers[service]? with
  | none => exact ⟨[], run_pure.2 ⟨rfl, rfl, rfl⟩⟩
  | some id =>
    have hexited : statusResult lib (.ok ⟨true, bytes "exited", []⟩) = .ok .exited := by rfl
    have h := (status_asks lib distribution id fs _ _ fs).2 ⟨rfl, _, rfl, hexited.symm⟩
    exact ⟨_, (run_mapErr_ok.2 h).bind (run_pure.2 ⟨rfl, rfl, rfl⟩)⟩

end

/-! ## A whole teardown -/

/-- the names whose containers a teardown stops -/
def drained (manifest : CompositionManifest) : List String :=
  if manifest.teardown.order = [] then manifest.services.keys else manifest.teardown.order

theorem Valid.teardownOrder_eq {manifest : CompositionManifest} (h : Valid manifest) :
    ∃ order, teardownOrder manifest = .ok order ∧ ∀ name, name ∈ order ↔ name ∈ drained manifest := by
  unfold teardownOrder drained
  split_ifs with he
  · obtain ⟨order, ho⟩ := h.order
    refine ⟨order.reverse, by rw [ho, ok_bind], fun name => ?_⟩
    rw [List.mem_reverse, (serviceOrder_ok h.closed ho).1.mem_iff]
  · exact ⟨_, rfl, fun _ => Iff.rfl⟩

/-- the state of a run after its teardown -/
def RunState.down (state : RunState) : RunState := { state with lifecycle := .down }

/-- stopping services changes no file and asks about recorded containers only, and none of those services is left
running -/
theorem stop_services_ok {distribution : Option String} {containers : BTreeMap String} {order : List String}
    {fs fs' : FileSystem} {t : Trace}
    (h : Run Step (order.forM (stopService lib distribution containers)) fs t (.ok ()) fs') :
    fs' = fs ∧
      (∀ e ∈ t, ∃ name ∈ order, ∃ id, containers[name]? = some id ∧ About distribution id e) ∧
      ∀ name ∈ order, ∀ id, containers[name]? = some id → ∃ e ∈ t, Settled lib distribution id e := by
  induction order generalizing fs t with
  | nil =>
    obtain ⟨rfl, -, rfl⟩ := run_forM_nil.1 h
    exact ⟨rfl, List.forall_mem_nil _, List.forall_mem_nil _⟩
  | cons name order ih =>
    rcases run_forM_cons.1 h with ⟨t₁, u, t₂, h₁, h₂, rfl⟩ | ⟨e, -, he⟩
    · obtain ⟨rfl, habout₁, hsettled₁⟩ := stopService_ok lib h₁
      obtain ⟨rfl, habout₂, hsettled₂⟩ := ih h₂
      refine ⟨rfl, fun e he => ?_, fun n hn id hid => ?_⟩
      · rcases List.mem_append.1 he with he | he
        · exact ⟨name, List.mem_cons_self, habout₁ e he⟩
        · obtain ⟨n, hn, hrest⟩ := habout₂ e he
          exact ⟨n, List.mem_cons_of_mem name hn, hrest⟩
      · rcases List.mem_cons.1 hn with rfl | hn
        · obtain ⟨e, he, hs⟩ := hsettled₁ id hid
          exact ⟨e, List.mem_append_left t₂ he, hs⟩
        · obtain ⟨e, he, hs⟩ := hsettled₂ n hn id hid
          exact ⟨e, List.mem_append_right t₁ he, hs⟩
    · cases he

theorem stop_services_run (distribution : Option String) (containers : BTreeMap String) (order : List String)
    (fs : FileSystem) : ∃ t, Run Step (order.forM (stopService lib distribution containers)) fs t (.ok ()) fs := by
  induction order with
  | nil => exact ⟨[], run_forM_nil.2 ⟨rfl, rfl, rfl⟩⟩
  | cons name order ih =>
    obtain ⟨t₁, h₁⟩ := stopService_runs lib distribution containers name fs
    obtain ⟨t₂, h₂⟩ := ih
    exact ⟨t₁ ++ t₂, run_forM_cons.2 (.inl ⟨t₁, fs, t₂, h₁, h₂, rfl⟩)⟩

/-- a teardown that succeeds found the run running, stopped its services, and recorded that it is down -/
theorem run_down_ok {stateDir : PathBuf} {runId : String} {output : StatusOutput} {fs fs' : FileSystem} {t : Trace} :
    Run Step (down lib stateDir runId) fs t (.ok output) fs' ↔
      ∃ state order t₁ u t₂ t₃, Run Step (loadState lib stateDir runId) fs t₁ (.ok state) fs ∧
        state.provider = "podman" ∧ state.lifecycle ≠ .down ∧ teardownOrder state.manifest = .ok order ∧
        Run Step (order.forM (stopService lib state.manifest.runtime.wslDistribution state.containers)) fs t₂
          (.ok ()) u ∧
        Run Step (saveState stateDir state.down) u t₃ (.ok ()) fs' ∧ t = t₁ ++ (t₂ ++ t₃) ∧
        output = ⟨state.runId, .down, state.containers.map fun _ _ => "down"⟩ := by
  rw [down, run_bind_ok]
  refine ⟨?_, ?_⟩
  · intro hx
    obtain ⟨state, t₁, u, t', hload, h₁, rfl⟩ := hx
    obtain rfl : u = fs := ((run_loadState lib).1 hload).2.1
    obtain ⟨⟨⟩, hprovider, h₂⟩ := run_lift_bind_ok.1 h₁
    split_ifs at h₂ with hdown
    · cases (run_fail.1 h₂).2.1
    · obtain ⟨order, ho, h₃⟩ := run_lift_bind_ok.1 h₂
      obtain ⟨⟨⟩, t₂, v, t₄, hstop, h₄, rfl⟩ := run_bind_ok.1 h₃
      obtain ⟨⟨⟩, t₃, w, t₅, hsave, h₅, rfl⟩ := run_bind_ok.1 h₄
      obtain ⟨rfl, hout, rfl⟩ := run_pure.1 h₅
      refine ⟨state, order, t₁, v, t₂, t₃, hload, ?_, hdown, ho, hstop, hsave, ?_, Except.ok.inj hout⟩
      · simpa [ensurePersistedProvider] using hprovider
      · rw [List.append_nil]
  · intro hx
    obtain ⟨state, order, t₁, u, t₂, t₃, hload, hprovider, hdown, ho, hstop, hsave, rfl, rfl⟩ := hx
    refine ⟨state, t₁, fs, _, hload, run_lift_bind_ok.2 ⟨(), ?_, ?_⟩, rfl⟩
    · simpa [ensurePersistedProvider] using hprovider
    · rw [if_neg hdown]
      refine run_lift_bind_ok.2 ⟨order, ho, hstop.bind ?_⟩
      have := hsave.bind (f := fun _ => pure (⟨state.runId, .down, state.containers.map fun _ _ => "down"⟩ :
        StatusOutput)) (run_pure.2 ⟨rfl, rfl, rfl⟩)
      rwa [List.append_nil] at this

/-- a teardown that does not come to its save fails and has touched nothing -/
theorem run_down {stateDir : PathBuf} {runId : String} {r : Except (Stop CliError) StatusOutput} {fs fs' : FileSystem}
    {t : Trace} (h : Run Step (down lib stateDir runId) fs t r fs') :
    (fs' = fs ∧ ∃ e, r = .error e) ∨
      ∃ state t₁ t₂ r₀, Run Step (loadState lib stateDir runId) fs t₁ (.ok state) fs ∧ state.lifecycle ≠ .down ∧
        Run Step (saveState stateDir state.down) fs t₂ r₀ fs' ∧
        r = r₀.map fun _ => ⟨state.runId, .down, state.containers.map fun _ _ => "down"⟩ := by
  rw [down, run_bind] at h
  rcases h with ⟨state, t₁, u, t₂, hload, h₁, rfl⟩ | ⟨e, he, rfl⟩
  · obtain rfl : u = fs := ((run_loadState lib).1 hload).2.1
    rcases run_lift_bind.1 h₁ with ⟨⟨⟩, -, h₂⟩ | ⟨e, -, -, rfl, rfl⟩
    · split_ifs at h₂ with hdown
      · obtain ⟨-, rfl, rfl⟩ := run_fail.1 h₂
        exact .inl ⟨rfl, _, rfl⟩
      · rcases run_lift_bind.1 h₂ with ⟨order, -, h₃⟩ | ⟨e, -, -, rfl, rfl⟩
        · have hstops := Only.forM order fun name _ =>
            stopService_only lib state.manifest.runtime.wslDistribution state.containers name
          rcases run_bind.1 h₃ with ⟨⟨⟩, t₃, v, t₄, hstop, h₄, rfl⟩ | ⟨e, hstop, rfl⟩
          · obtain rfl : v = u := hstops.keeps Event.commanding.keeps hstop
            obtain ⟨r₀, hsave, rfl⟩ := run_bind_pure.1 h₄
            exact .inr ⟨state, t₁, t₄, r₀, hload, hdown, hsave, rfl⟩
          · exact .inl ⟨hstops.keeps Event.commanding.keeps hstop, e, rfl⟩
        · exact .inl ⟨rfl, e, rfl⟩
    · exact .inl ⟨rfl, e, rfl⟩
  · exact .inl ⟨(run_loadState_error lib he).1, e, rfl⟩

/-- a teardown reads the state, asks Podman and saves the state -/
theorem down_only {P : Event Answer → Prop} (hread : ∀ file a, P ⟨.readToString file, a⟩)
    (hstop : ∀ e, Event.commanding e → P e) (hsave : ∀ e, Event.storing e → P e) (stateDir : PathBuf) (runId : String) :
    Only P (down lib stateDir runId) := by
  apply (loadState_reads lib hread _ _).bind
  intro state
  apply (Only.lift _).bind
  intro _
  split_ifs
  · exact Only.fail _
  · apply (Only.lift _).bind
    intro order
    refine .bind (.forM order fun name _ => (stopService_only lib _ _ name).imp hstop) fun _ => ?_
    exact ((saveState_only _ _).imp hsave).bind fun _ => Only.pure _

/-- no existence check is made on the way -/
theorem down_unchecking (stateDir : PathBuf) (runId : String) :
    Only Event.unchecking (down lib stateDir runId) :=
  down_only lib (fun _ _ => trivial) (fun _ => Event.commanding.unchecking) (fun _ => Event.storing.unchecking) _ _

/-- a successful teardown ends the run: it is recorded and reported as down, and cannot be torn down again -/
def Over (stateDir : PathBuf) (state : RunState) (output : StatusOutput) (fs' : FileSystem) : Prop :=
  output.lifecycle = .down ∧ output.services = state.containers.map (fun _ _ => "down") ∧
    fs'.files (statePath stateDir state.runId).components = some (.json (RunState.codec.encode state.down)) ∧
    ∀ t output' fs'', ¬Run Step (down lib stateDir state.runId) fs' t (.ok output') fs''

/-- every successful teardown of this state has seen every recorded container out of the way -/
def LeavesNothingRunning (state : RunState) : Prop :=
  ∀ stateDir fs t output fs',
    fs.files (statePath stateDir state.runId).components = some (.json (RunState.codec.encode state)) →
    Run Step (down lib stateDir state.runId) fs t (.ok output) fs' →
      ∀ (name : String) id, state.containers[name]? = some id →
        ∃ e ∈ t, Settled lib state.manifest.runtime.wslDistribution id e

/-- loading gives the state that is there -/
theorem loaded_eq {stateDir : PathBuf} (state : RunState) {state' : RunState} {fs fs' : FileSystem} {t : Trace}
    (hfile : fs.files (statePath stateDir state.runId).components = some (.json (RunState.codec.encode state)))
    (h : Run Step (loadState lib stateDir state.runId) fs t (.ok state') fs') : state' = state := by
  obtain ⟨-, -, contents, hc, hdecode, -⟩ := (run_loadState lib).1 h
  rw [hfile] at hc
  rw [← Option.some.inj hc, lib.fromStr_encode] at hdecode
  exact (Except.ok.inj hdecode).symm

theorem down_over {stateDir : PathBuf} {state : RunState} {output : StatusOutput} {fs fs' : FileSystem} {t : Trace}
    (hfile : fs.files (statePath stateDir state.runId).components = some (.json (RunState.codec.encode state)))
    (h : Run Step (down lib stateDir state.runId) fs t (.ok output) fs') : Over lib stateDir state output fs' := by
  obtain ⟨state', order, t₁, u, t₂, t₃, hload, -, -, -, -, hsave, -, rfl⟩ := (run_down_ok lib).1 h
  obtain rfl := loaded_eq lib state hfile hload
  obtain ⟨hslug, -⟩ := (run_loadState lib).1 hload
  obtain ⟨hw, hne⟩ := slug_word hslug
  have hsaved : fs'.files (statePath stateDir state'.runId).components =
      some (.json (RunState.codec.encode state'.down)) := by
    rcases saveState_spec state'.down hw hne hsave with ⟨-, hf, -⟩ | ⟨error, he, -⟩
    · rw [statePath_components stateDir hw]
      exact hf
    · cases he
  refine ⟨rfl, rfl, hsaved, fun t' output' fs'' hagain => ?_⟩
  obtain ⟨state'', _, _, _, _, _, hload', -, hrunning, -⟩ := (run_down_ok lib).1 hagain
  have : state'' = state'.down := loaded_eq lib state'.down hsaved hload'
  exact hrunning (this ▸ rfl)

/-- where the file of the run is the only one, and Podman reports every container as exited, a teardown succeeds, and has
asked about the containers of the drained services only -/
theorem down_runs {state : RunState} (hv : Valid state.manifest) (hslug : validateSlug "run_id" state.runId = .ok ())
    (hprovider : state.provider = "podman") (hrunning : state.lifecycle ≠ .down) (stateDir : PathBuf) :
    ∃ fs t output fs', fs.files (statePath stateDir state.runId).components =
        some (.json (RunState.codec.encode state)) ∧
      Run Step (down lib stateDir state.runId) fs t (.ok output) fs' ∧
      ∀ e ∈ t, ∀ id, About state.manifest.runtime.wslDistribution id e →
        ∃ name ∈ drained state.manifest, state.containers[name]? = some id := by
  obtain ⟨hw, hne⟩ := slug_word hslug
  let fs := FileSystem.empty.put (stateLocation stateDir state.runId) (some (.json (RunState.codec.encode state)))
  have hfile : fs.files (statePath stateDir state.runId).components = some (.json (RunState.codec.encode state)) := by
    rw [statePath_components stateDir hw]
    exact FileSystem.put_files_same _ _ _
  have hfree : ∀ d, d <+: stateDir.components → fs.files d = none := by
    intro d hd
    apply FileSystem.put_files_ne _ _
    intro he
    have := hd.length_le
    rw [he, stateLocation, List.length_append, List.length_singleton] at this
    omega
  obtain ⟨order, ho, horder⟩ := hv.teardownOrder_eq
  obtain ⟨t₂, hstop⟩ := stop_services_run lib state.manifest.runtime.wslDistribution state.containers order fs
  obtain ⟨t₃, fs', hsave, -⟩ := saveState_runs state.down hw hne hfree rfl rfl
  have hload := (run_loadState lib).2 ⟨hslug, rfl, _, hfile, lib.fromStr_encode _ _ state, rfl⟩
  refine ⟨fs, _, _, fs', hfile,
    (run_down_ok lib).2 ⟨state, order, _, fs, t₂, t₃, hload, hprovider, hrunning, ho, hstop, hsave, rfl, rfl⟩, ?_⟩
  intro e he id hid
  rcases List.mem_append.1 he with he | he
  · obtain rfl := List.mem_singleton.1 he
    exact hid.elim
  · rcases List.mem_append.1 he with he | he
    · obtain ⟨name, hname, id', hid', habout⟩ := (stop_services_ok lib hstop).2.1 e he
      exact ⟨name, (horder name).1 hname, hid.unique habout ▸ hid'⟩
    · have hstoring := (saveState_only _ _).mem hsave e he
      obtain ⟨call, a⟩ := e
      cases call
      case podman => exact hstoring.elim
      all_goals exact hid.elim

/-- **Teardown leaves nothing running, for covered containers only.** A successful `down` of a state whose manifest is
valid ends the run; and it has seen every recorded container out of the way exactly when `down` refuses the state anyway,
or every container is recorded under a name that the teardown drains. -/
theorem down_leaves_nothing_running (state : RunState) (h : state.manifest.validate lib = .ok ()) :
    (∀ stateDir fs t output fs',
      fs.files (statePath stateDir state.runId).components = some (.json (RunState.codec.encode state)) →
      Run Step (down lib stateDir state.runId) fs t (.ok output) fs' → Over lib stateDir state output fs') ∧
    (LeavesNothingRunning lib state ↔
      (validateSlug "run_id" state.runId = .ok () → state.provider = "podman" → state.lifecycle = .running →
        ∀ (name : String) id, state.containers[name]? = some id →
          ∃ name' ∈ drained state.manifest, state.containers[name']? = some id)) := by
  have hv := (validate_ok_iff lib).1 h
  refine ⟨fun _ _ _ _ _ hfile hrun => down_over lib hfile hrun, ?_, ?_⟩
  · intro hall hslug hprovider hrunning name id hid
    obtain ⟨fs, t, output, fs', hfile, hrun, hasked⟩ :=
      down_runs lib hv hslug hprovider (by rw [hrunning]; exact nofun) (.ofStr "")
    obtain ⟨e, he, hsettled⟩ := hall _ fs t output fs' hfile hrun name id hid
    exact hasked e he id hsettled.about
  · intro hcovered stateDir fs t output fs' hfile hrun name id hid
    obtain ⟨state', order, t₁, u, t₂, t₃, hload, hprovider, hrunning, ho, hstop, -, rfl, -⟩ := (run_down_ok lib).1 hrun
    obtain rfl := loaded_eq lib state hfile hload
    obtain ⟨hslug, -⟩ := (run_loadState lib).1 hload
    have hlifecycle : state'.lifecycle = .running := by
      cases hl : state'.lifecycle with
      | running => rfl
      | down => exact absurd hl hrunning
    obtain ⟨name', hname', hid'⟩ := hcovered hslug hprovider hlifecycle name id hid
    obtain ⟨order', ho', horder⟩ := hv.teardownOrder_eq
    obtain rfl : order = order' := Except.ok.inj (ho.symm.trans ho')
    obtain ⟨e, he, hsettled⟩ := (stop_services_ok lib hstop).2.2 name' ((horder name').2 hname') id hid'
    exact ⟨e, List.mem_append_right t₁ (List.mem_append_left t₃ he), hsettled⟩

theorem twoContainers_mem {manifest : CompositionManifest} {name id : String}
    (h : (twoContainers manifest).containers[name]? = some id) :
    (name = "api" ∧ id = "c1") ∨ (name = "db" ∧ id = "c2") := by
  have hm : (name, id) ∈ [("api", "c1"), ("db", "c2")] := mem_toList.2 h
  simpa using hm

theorem teardown_example : LeavesNothingRunning .standard (twoContainers demo) := by
  apply (down_leaves_nothing_running .standard (twoContainers demo) demo_valid).2.2
  intro _ _ _ name id hid
  have hkeys : drained demo = ["api", "db"] := rfl
  refine ⟨name, ?_, hid⟩
  rcases twoContainers_mem hid with ⟨rfl, -⟩ | ⟨rfl, -⟩
  · exact hkeys ▸ .head _
  · exact hkeys ▸ .tail _ (.head _)

/-- a teardown that names `api` only -/
def stranded : RunState := twoContainers (twoServices "demo" uuidA ["api"] "api")

/-- the container of `db` is left alone, and declared down -/
theorem partial_teardown : stranded.manifest.validate .standard = .ok () ∧ ¬LeavesNothingRunning .standard stranded := by
  have hvalid : stranded.manifest.validate .standard = .ok () := rfl
  refine ⟨hvalid, fun hall => ?_⟩
  obtain ⟨fs, t, output, fs', hfile, hrun, hasked⟩ :=
    down_runs .standard ((validate_ok_iff .standard).1 hvalid) rfl rfl nofun (.ofStr "")
  obtain ⟨e, he, hsettled⟩ := hall _ fs t output fs' hfile hrun "db" "c2" rfl
  obtain ⟨name, hname, hid⟩ := hasked e he "c2" hsettled.about
  have hapi : name = "api" := List.mem_singleton.1 hname
  rcases twoContainers_mem hid with ⟨-, hc⟩ | ⟨hdb, -⟩
  · exact absurd hc (by decide)
  · exact absurd (hapi.symm.trans hdb) (by decide)

end PhenoCompose
