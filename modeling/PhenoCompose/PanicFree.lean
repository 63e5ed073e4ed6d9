/-
No panic after validation.

A lookup that misses its key, a slice out of range and an index into an empty list end the process in the model as they
do in the code. None of them is reached once `validate` has accepted the manifest, or the manifest that a loaded state
stores: its services are closed under `dependsOn`, and everything that is looked up later comes from them.

- `Stores`: the states that can be loaded as a run store this manifest; a state that was saved does (`stores_saved`).
- `apply_safe`, `execute_safe`, `down_safe`, `runAction_safe`: what validation is worth to each command, over every run.
- `validated_panic_free`: all of it together.
-/
import PhenoCompose.Action
import PhenoCompose.ActionGpus
import PhenoCompose.Apply
import PhenoCompose.PlanExecution
import PhenoCompose.Teardown

namespace PhenoCompose

open Core.Collections Core.Json Core.Path Core.Process Core.Text

variable (lib : Externals)

/-! ## Containers and files -/

theorem stop_safe (distribution : Option String) (id : String) : Safe (PodmanRuntime.stop distribution id) := by
  refine (podmanOutput_safe _ _).mapErr.bind fun output => Safe.lift ?_
  unfold stopOf
  split_ifs
  · exact .ok _
  · exact .err _

theorem status_safe (distribution : Option String) (id : String) : Safe (PodmanRuntime.status lib distribution id) := by
  refine (podmanOutput_safe _ _).mapErr.bind fun output => Safe.lift ?_
  unfold statusOf
  split_ifs
  · dsimp only
    split_ifs
    all_goals first | exact .ok _ | exact .err _
  · dsimp only
    split_ifs
    · exact .ok _
    · exact .err _

theorem rollback_safe (distribution : Option String) (containers : BTreeMap String) :
    Safe (rollbackContainersFromMap distribution containers) :=
  .forM _ fun _ _ => (stop_safe _ _).attempt.bind fun _ => Safe.pure _

theorem stopService_safe (distribution : Option String) (containers : BTreeMap String) (service : String) :
    Safe (stopService lib distribution containers service) := by
  unfold stopService
  split
  · exact Safe.pure _
  · apply (status_safe lib _ _).mapErr.bind
    intro value
    cases value with
    | notFound | exited => exact Safe.pure _
    | running | paused => exact (stop_safe _ _).mapErr

theorem loadState_safe (stateDir : PathBuf) (runId : String) : Safe (loadState lib stateDir runId) := by
  apply (Safe.lift (refuseIf_raises _ _)).bind
  intro _
  apply (Safe.call _).bind
  intro read
  cases read with
  | error error =>
    dsimp only
    split_ifs
    · exact Safe.fail _
    · exact Safe.fail _
  | ok input => exact Safe.lift (lib.fromStr_raises _ _ _)

theorem save_job_safe (stateDir : PathBuf) (job : JobProvenance) : Safe (saveJobProvenance stateDir job) := by
  rw [saveJobProvenance]
  dsimp only
  split
  · exact Safe.fail _
  · apply (Safe.call _).bind
    intro _
    apply (ioResult_safe _ _).bind
    intro _
    apply (Safe.call _).bind
    intro _
    apply (Safe.call _).bind
    intro _
    apply (ioResult_safe _ _).bind
    intro _
    refine (Safe.attempt ?_).bind fun written => ?_
    · exact writeAndSync_safe _ _
    · cases written with
      | error => exact (Safe.call _).bind fun _ => Safe.fail _
      | ok =>
        apply (Safe.call _).bind
        intro renamed
        cases renamed with
        | ok => exact Safe.pure _
        | error => exact (Safe.call _).bind fun _ => Safe.fail _

/-! ## Planning and applying -/

theorem recordRun_safe (manifest : CompositionManifest) (stateDir : PathBuf) (lifecycle : LifecyclePlan)
    (request : ServiceLifecycleRequest) (containers : BTreeMap String) :
    Safe (recordRun manifest stateDir lifecycle request containers) := by
  refine .bind ?_ fun seconds => (saveState_safe _ _).attempt.bind fun saved => ?_
  · apply (Safe.call _).bind
    intro clock
    cases clock with
    | ok => exact Safe.pure _
    | error => exact Safe.fail _
  · cases saved with
    | ok => exact Safe.pure _
    | error => exact (rollback_safe _ _).bind fun _ => Safe.fail _

theorem finishApply_safe (manifest : CompositionManifest) (stateDir : PathBuf) (lifecycle : LifecyclePlan)
    (request : ServiceLifecycleRequest) (answer : Except ServiceLifecycleFailure ServiceLifecycleResult) :
    Safe (finishApply lib manifest stateDir lifecycle request answer) := by
  unfold finishApply
  cases answer with
  | error => exact (rollback_safe _ _).bind fun _ => Safe.fail _
  | ok result =>
    apply (Safe.lift (validate_lifecycle_raises lib request result)).attempt.bind
    intro checked
    cases checked with
    | error => exact (rollback_safe _ _).bind fun _ => Safe.fail _
    | ok => exact recordRun_safe _ _ _ _ _

/-- whatever Podman, the lifecycle client, the disk and the clock answer to an apply of a valid manifest -/
theorem apply_safe {manifest : CompositionManifest} (hvalid : Valid manifest) (stateDir : PathBuf) (dryRun : Bool) :
    Safe (applyWithLifecycleClient lib manifest stateDir dryRun) := by
  obtain ⟨run, lifecycle, h⟩ := hvalid.planned lib
  rw [applyWithLifecycleClient, hvalid.plan_eq lib]
  show Safe (liftM (planLifecycle manifest (manifest.digest lib)) >>= _)
  rw [h.lifecycle]
  show Safe (liftM (runId manifest (manifest.digest lib)) >>= _)
  rw [h.runId]
  cases dryRun with
  | true => exact Safe.pure _
  | false =>
    apply (prepare_safe stateDir run h.intents).bind
    intro _
    exact (Safe.call _).bind fun answer => finishApply_safe _ _ _ _ _ _

theorem executeIntent_safe {services : BTreeMap Service} (s : Execution) {intent : ServiceIntent}
    (h : intent.service ∈ services) : Safe (executeIntent services s intent) := by
  obtain ⟨service, hservice⟩ := exists_of_mem h
  unfold executeIntent
  rw [hservice]
  split_ifs
  · exact Safe.pure _
  · apply (Safe.call _).bind
    intro spawned
    cases spawned with
    | ok => exact Safe.pure _
    | error => exact Safe.fail _

/-- whatever the runtimes answer to the execution of a plan of a valid manifest -/
theorem execute_safe {manifest : CompositionManifest} (hvalid : Valid manifest) {sha : String} {lifecycle : LifecyclePlan}
    (h : planLifecycle manifest sha = .ok lifecycle) : Safe (executeLifecyclePlan lifecycle manifest.services) := by
  obtain ⟨order, ho⟩ := hvalid.order
  rw [planLifecycle_ok hvalid ho] at h
  obtain rfl := Except.ok.inj h
  apply (Safe.foldlM _ (fun intent hi s => executeIntent_safe s (intents_known intent hi)) _).bind
  intro _
  exact Safe.pure _

/-! ## Stored manifests -/

/-- the states that can be loaded as this run store this manifest -/
def Stores (stateDir : PathBuf) (runId : String) (fs : FileSystem) (manifest : CompositionManifest) : Prop :=
  ∀ contents state, fs.files (statePath stateDir runId).components = some contents →
    lib.fromStr "RunState" RunState.codec contents = .ok state → state.manifest = manifest

/-- a state that was saved is loaded with the manifest it was saved with -/
theorem stores_saved {stateDir : PathBuf} {runId : String} {fs : FileSystem} {state : RunState}
    (h : fs.files (statePath stateDir runId).components = some (.json (RunState.codec.encode state))) :
    Stores lib stateDir runId fs state.manifest := by
  intro contents loaded hcontents hdecode
  rw [h] at hcontents
  obtain rfl := Option.some.inj hcontents
  rw [lib.fromStr_encode] at hdecode
  rw [Except.ok.inj hdecode]

section
variable {lib} {manifest : CompositionManifest} {stateDir : PathBuf} {runId : String} {fs : FileSystem}

/-- the manifest of a loaded state, and the files as they were -/
theorem Stores.loaded (h : Stores lib stateDir runId fs manifest) {state : RunState} {fs' : FileSystem} {t : Trace}
    (hload : Run Step (loadState lib stateDir runId) fs t (.ok state) fs') : state.manifest = manifest ∧ fs' = fs := by
  obtain ⟨-, rfl, contents, hfile, hdecode, -⟩ := (run_loadState lib).1 hload
  exact ⟨h contents state hfile hdecode, rfl⟩

theorem teardownOrder_raises (hvalid : Valid manifest) : Raises (teardownOrder manifest) := by
  obtain ⟨order, ho, -⟩ := hvalid.teardownOrder_eq
  rw [ho]
  exact .ok _

/-- whatever Podman and the disk answer to a `down` of a run that stores a valid manifest -/
theorem down_safe (hvalid : Valid manifest) (hstores : Stores lib stateDir runId fs manifest) :
    SafeFrom Step fs (down lib stateDir runId) := by
  refine ((loadState_safe lib stateDir runId).from Step fs).bind fun {state t u} hload => Safe.from Step ?_ u
  obtain ⟨rfl, -⟩ := hstores.loaded hload
  apply (Safe.lift (refuseIf_raises _ _)).bind
  intro _
  split_ifs
  · exact Safe.fail _
  · apply (Safe.lift (teardownOrder_raises hvalid)).bind
    intro order
    apply (Safe.forM order fun service _ => stopService_safe lib _ _ service).bind
    intro _
    exact (saveState_safe _ _).bind fun _ => Safe.pure _

/-! ## Actions of a stored manifest -/

theorem complete_of_valid {state : RunState} (hvalid : Valid state.manifest) (actionName : String) :
    Complete state actionName :=
  fun _ _ _ haction _ hreach => closure_known hvalid (hvalid.actions _ _ haction).service hreach

theorem prepareAction_safe (hvalid : Valid manifest) (hstores : Stores lib stateDir runId fs manifest)
    (actionName jobId : String) : SafeFrom Step fs (prepareAction lib stateDir runId actionName jobId) := by
  refine ((Safe.lift (refuseIf_raises _ _)).from Step fs).bind fun {_ t u} hslug => ?_
  obtain ⟨-, -, rfl⟩ := run_lift.1 hslug
  refine ((Safe.lift (refuseIf_raises _ _)).from Step u).bind fun {_ t' u'} hslug => ?_
  obtain ⟨-, -, rfl⟩ := run_lift.1 hslug
  refine ((loadState_safe lib stateDir runId).from Step u').bind fun {state t'' v} hload => Safe.from Step ?_ v
  obtain ⟨rfl, -⟩ := hstores.loaded hload
  apply (Safe.lift (checkAction_raises lib (complete_of_valid hvalid actionName) runId jobId)).bind
  intro checked
  apply (Safe.call _).bind
  intro present
  cases present with
  | true => exact Safe.fail _
  | false => exact Safe.pure _

theorem persistJobFailure_safe {α : Type} (stateDir : PathBuf) (job : JobProvenance) (error : CliError) :
    Safe (persistJobFailure stateDir job error : Proc CliError α) :=
  (save_job_safe _ _).bind fun _ => Safe.fail _

variable (lib) in
theorem finishAction_safe (stateDir : PathBuf) (job : JobProvenance) (request : EvaluationRequest)
    (answer : Except EvaluationFailure EvaluationResult) : Safe (finishAction lib stateDir job request answer) := by
  unfold finishAction
  cases answer with
  | error => exact persistJobFailure_safe _ _ _
  | ok result =>
    apply (Safe.lift (validate_evaluation_raises lib request result)).attempt.bind
    intro checked
    cases checked with
    | error => exact persistJobFailure_safe _ _ _
    | ok =>
      dsimp only
      split_ifs
      · exact persistJobFailure_safe _ _ _
      · exact (save_job_safe _ _).bind fun _ => Safe.pure _

/-- whatever the evaluation client and the disk answer to an action of a run that stores a valid manifest -/
theorem runActionAt_safe (hvalid : Valid manifest) (hstores : Stores lib stateDir runId fs manifest)
    (workspaceBase : PathBuf) (actionName jobId : String) :
    SafeFrom Step fs (runActionWithClientAt lib workspaceBase stateDir runId actionName jobId) := by
  refine (prepareAction_safe hvalid hstores actionName jobId).bind fun {checked t u} hprepare => Safe.from Step ?_ u
  obtain ⟨state, service, job⟩ := checked
  -- the checks let no job without a binding through, so the first one is there
  have hprepared := checkAction_ok lib (prepareAction_ok lib hprepare).2.2.2.2.1
  apply (build_safe workspaceBase stateDir state service hprepared.bindings).attempt.bind
  intro built
  cases built with
  | error => exact persistJobFailure_safe _ _ _
  | ok request => exact (Safe.call _).bind fun answer => finishAction_safe lib _ _ _ _

theorem runAction_safe (hvalid : Valid manifest) (hstores : Stores lib stateDir runId fs manifest)
    (actionName jobId : String) : SafeFrom Step fs (runActionWithClient lib stateDir runId actionName jobId) := by
  refine ((Safe.call SysCall.currentDir).from Step fs).bind fun {directory t u} hdirectory => ?_
  obtain rfl : u = fs := by
    obtain ⟨a, hstep, -⟩ := run_call.1 hdirectory
    exact hstep
  refine ((ioResult_safe _ _).from Step u).bind fun {workspaceBase t' u'} hbase => ?_
  obtain ⟨-, -, rfl⟩ := run_io.1 hbase
  exact runActionAt_safe hvalid hstores workspaceBase actionName jobId

end

/-! ## The result -/

/-- no panic is reached with this manifest, nor with a state that stores it -/
structure PanicFree (manifest : CompositionManifest) : Prop where
  serviceOrder : Raises manifest.serviceOrder
  plan : Raises (manifest.plan lib)
  planLifecycle : ∀ sha, Raises (planLifecycle manifest sha)
  apply : ∀ stateDir dryRun, Safe (applyWithLifecycleClient lib manifest stateDir dryRun)
  execute : ∀ sha lifecycle, PhenoCompose.planLifecycle manifest sha = .ok lifecycle →
    Safe (executeLifecyclePlan lifecycle manifest.services)
  down : ∀ stateDir runId fs, Stores lib stateDir runId fs manifest →
    SafeFrom Step fs (down lib stateDir runId)
  runAction : ∀ stateDir runId fs, Stores lib stateDir runId fs manifest → ∀ actionName jobId,
    SafeFrom Step fs (runActionWithClient lib stateDir runId actionName jobId) ∧
      ∀ workspaceBase,
        SafeFrom Step fs (runActionWithClientAt lib workspaceBase stateDir runId actionName jobId)
  /-- the offset at which `boundedString` cuts a text -/
  truncation : ∀ (value : String) (limit : ℕ),
    isCharBoundary value.toList (floorCharBoundary value.toList limit) = true

/-- **Validation makes later lookups safe.** Nothing that is done with a manifest that `validate` accepts, or with a run
that stores such a manifest, ends in a panic, whatever the runtime, the clients, the disk and the clock answer. -/
theorem validated_panic_free {manifest : CompositionManifest} (h : manifest.validate lib = .ok ()) :
    PanicFree lib manifest := by
  have hvalid := (validate_ok_iff lib).1 h
  obtain ⟨order, ho⟩ := hvalid.order
  refine ⟨?_, ?_, ?_, apply_safe lib hvalid, fun _ _ => execute_safe hvalid, fun _ _ _ => down_safe hvalid, ?_, ?_⟩
  · rw [ho]
    exact .ok _
  · rw [hvalid.plan_eq lib]
    exact .ok _
  · intro sha
    rw [planLifecycle_ok hvalid ho]
    exact .ok _
  · intro stateDir runId fs hstores actionName jobId
    exact ⟨runAction_safe hvalid hstores actionName jobId,
      fun workspaceBase => runActionAt_safe hvalid hstores workspaceBase actionName jobId⟩
  · exact fun value limit => isCharBoundary_floor value.toList limit

theorem demo_panic_free : PanicFree .standard demo := validated_panic_free .standard demo_valid

end PhenoCompose
