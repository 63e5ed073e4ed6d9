/-
`run-action`: run an action of a persisted run through NanoVMS and record its job, whatever comes back.

`prepareAction` makes the checks that come before anything is recorded; `finishAction` records and returns what the
answer of the evaluation client calls for.

- `checkAction_raises`, `checkAction_panics`: the checks on the loaded state panic exactly when the closure of the
  action's service is incomplete; `checkAction_ok` says what they accept.
- `runAction_run`: every run fails in a check, having changed nothing, or ends in one save, of a job that is marked as a
  success exactly when the job is returned.
-/
import PhenoCompose.ActionClosure
import PhenoCompose.Store

namespace PhenoCompose

open Core.Collections Core.Json Core.Path Core.Process Core.Text

variable (lib : Externals)

/-! ## The request -/

def ensureActionRoute (state : RunState) : Result Unit :=
  let exactRoute := state.provider = "podman" ∧ state.manifest.runtime.provider = .podman ∧
    ∃ value ∈ state.manifest.runtime.portageCompatibility,
      value.externalEngineToken = .docker ∧ value.effectiveEngine = .podman
  refuseIf (¬exactRoute) <|
    .unsupported "action_route_rejected"
      "evaluation requires the exact Podman route and historical docker schema token without fallback"
      "evaluation.action" state.provider

/-- push one component; "." is dropped and ".." refused -/
def pushComponent (normalized : PathBuf) (component : Component) : Result PathBuf :=
  match component with
  | .parentDir =>
    Err (.validation "action_output_root_traversal" "action output_root must not contain parent traversal")
  | .curDir => .ok normalized
  | component => .ok (normalized.join ⟨component.asOsStr⟩)

def normalizeOutputRoot (path : PathBuf) : Result PathBuf := do
  let normalized ← path.components.foldlM pushComponent ⟨[]⟩
  refuseIf (normalized.isAbsolute = false) <|
    .validation "action_output_root_ambiguous" "resolved action output_root must be absolute"
  .ok normalized

-- no path has a prefix on Unix, so the check for drive-relative roots is left out
def resolveOutputRoot (workspaceBase : PathBuf) (declared : String) : Proc CliError PathBuf := do
  let root := PathBuf.ofStr declared
  refuseIf (trim declared = "") <|
    .validation "action_output_root_empty" "action output_root must not be empty"
  refuseIf (root.hasRoot = true ∧ root.isAbsolute = false) <|
    .validation "action_output_root_ambiguous"
      "action output_root must be fully absolute or relative to the workspace"
  let base ← absolutePath workspaceBase
  let resolved := if root.isAbsolute then root else base.join root
  normalizeOutputRoot resolved

def pathString (path : PathBuf) : Result String :=
  match path.toStr with
  | some s => .ok s
  | none => Err (.validation "path_encoding" "NanoVMS paths must be valid UTF-8")

def resourceGpu (binding : GpuBinding) : ResourceGpu where
  uuid := binding.uuid
  name := none
  architecture := none
  computeCapability := none
  driverVersion := ""
  driverCudaCeiling := ""
  observations := []

def buildEvaluationRequest (workspaceBase stateDir : PathBuf) (state : RunState) (job : JobProvenance)
    (service : Service) : Proc CliError EvaluationRequest := do
  match job.command with
  | [] => fail (.validation "action_command_empty" "action command must not be empty")
  | executable :: argv => do
    match (state.manifest.actions[job.action]?).bind (·.outputRoot) with
    | none =>
      fail (.validation "action_output_root_missing" ("action " ++ job.action ++ " must declare output_root"))
    | some root => do
      let outputRoot ← resolveOutputRoot workspaceBase root
      let stateDir ← absolutePath stateDir
      let reservationPath := stateDir.join (.ofStr "nanovms-gpu-reservations.json")
      let environment := service.environment.toList.foldl (fun environment e => environment.insert e.1 e.2)
        state.manifest.environment.variables_
      let outputRoot ← pathString outputRoot
      let reservationPath ← pathString reservationPath
      match job.gpuBindings with
      | [] => panicked "index out of bounds: the len is 0 but the index is 0"
      | binding :: _ =>
        pure
          { version := actionVersion
            backend := "podman"
            fallbackBackends := []
            manifestSha256 := state.manifestSha256
            executable := executable
            argv := argv
            environment := environment
            externalEngineToken := "docker"
            podmanPipe := defaultPodmanPipe
            wslDistribution := state.manifest.runtime.wslDistribution.getD ""
            outputRoot := outputRoot
            reservationPath := reservationPath
            lockInvocation := job.command
            resourceManifest :=
              { version := resourceVersion
                gpus := job.gpuBindings.map resourceGpu
                artifact := { cudaToolkit := binding.cudaToolkit, compiledKernels := true } }
            gpuBindings := job.gpuBindings
            timeoutMillis := job.timeoutMillis
            maxOutputBytes := job.maxOutputBytes }

/-! ## The action -/

/-- the job before anything is known of it -/
def initialJob (state : RunState) (runId actionName jobId : String) (action : Action) (service : Service)
    (dependencyServices : List String) (gpuBindings : List GpuBinding) : JobProvenance where
  provenanceVersion := "phenocompose.job-provenance/v1"
  runId := runId
  jobId := jobId
  manifestSha256 := state.manifestSha256
  effectiveEngine := "podman"
  resolvedProvider := "podman"
  executionPlane := "nanovms"
  action := actionName
  service := action.service
  command := action.command
  image := service.image
  dependencyServices := dependencyServices
  gpuBindings := gpuBindings
  timeoutMillis := 300000
  maxOutputBytes := 1048576
  outputRoot := ""
  outputRootCreated := false
  outputRootAvailableBytes := none
  toolkitVersion := none
  toolkitRoot := none
  toolkitExecutable := none
  lifecycle := some (Lifecycle.localFailure lib [] [])
  success := false
  errorCode := ""
  errorMessage := ""

/-- the checks on the loaded state -/
def checkAction (state : RunState) (runId actionName jobId : String) : Result (Service × JobProvenance) := do
  refuseIf (state.lifecycle ≠ .running) <| .conflict "run_not_running" ("run " ++ runId ++ " is not running")
  ensureActionRoute state
  match state.manifest.actions[actionName]? with
  | none => Err (.notFound "action_not_found" ("run " ++ runId ++ " has no action named " ++ actionName))
  | some action => do
    let service ← index state.manifest.services action.service
    let (dependencyServices, gpuBindings) ← actionGpuBindings lib state.manifest action.service
    .ok (service, initialJob lib state runId actionName jobId action service dependencyServices gpuBindings)

/-- everything that is checked before a job can be recorded -/
def prepareAction (stateDir : PathBuf) (runId actionName jobId : String) :
    Proc CliError (RunState × Service × JobProvenance) := do
  validateSlug "run_id" runId
  validateSlug "job_id" jobId
  let state ← loadState lib stateDir runId
  let (service, job) ← checkAction lib state runId actionName jobId
  if ← sys (.pathExists (jobPath stateDir runId jobId).components) then
    fail (.conflict "job_exists" ("job " ++ jobId ++ " already has persisted provenance"))
  else pure (state, service, job)

/-- the job of a failed action; the first error found is kept -/
def JobProvenance.failed (job : JobProvenance) (error : CliError) : JobProvenance :=
  { job with
    success := false
    errorCode := if job.errorCode = "" then error.code else job.errorCode
    errorMessage := if job.errorMessage = "" then error.message else job.errorMessage }

def persistJobFailure {α : Type} (stateDir : PathBuf) (job : JobProvenance) (error : CliError) : Proc CliError α := do
  saveJobProvenance stateDir (job.failed error)
  fail error

/-- the job with what the client reported in a failure -/
def JobProvenance.withFailure (job : JobProvenance) (request : EvaluationRequest) (failure : EvaluationFailure) :
    JobProvenance :=
  { job with
    lifecycle := some (trustworthyFailureLifecycle lib failure.lifecycle request.maxOutputBytes.toNat) }

/-- the job with what the client reported in a result -/
def JobProvenance.withResult (job : JobProvenance) (request : EvaluationRequest) (result : EvaluationResult) :
    JobProvenance :=
  { job with
    outputRootCreated := result.provenance.outputRootCreated
    outputRootAvailableBytes := result.provenance.outputRootAvailableBytes
    toolkitVersion := result.provenance.toolkitVersion
    toolkitRoot := result.provenance.toolkitRoot
    toolkitExecutable := result.provenance.toolkitExecutable
    lifecycle := some (trustworthyFailureLifecycle lib result.lifecycle request.maxOutputBytes.toNat)
    errorCode := result.errorCode
    errorMessage := result.errorMessage }

/-- the error of an action that ran and failed -/
def rejection (result : EvaluationResult) : CliError :=
  .backend (if result.errorCode = "" then "nvms_action_failed" else result.errorCode)
    (if result.errorMessage = "" then "NanoVMS rejected the evaluation action" else result.errorMessage)

/-- what is done with the answer of the evaluation client -/
def finishAction (stateDir : PathBuf) (job : JobProvenance) (request : EvaluationRequest)
    (answer : Except EvaluationFailure EvaluationResult) : Proc CliError JobProvenance := do
  match answer with
  | .error failure => persistJobFailure stateDir (job.withFailure lib request failure) failure.error
  | .ok result => do
    let job := job.withResult lib request result
    match ← attempt (liftM (validateEvaluationResult lib request result)) with
    | .error error => persistJobFailure stateDir job error
    | .ok _ =>
      if result.success = false then persistJobFailure stateDir job (rejection result)
      else do
        let job := { job with success := true }
        saveJobProvenance stateDir job
        pure job

def runActionWithClientAt (workspaceBase stateDir : PathBuf) (runId actionName jobId : String) :
    Proc CliError JobProvenance := do
  let (state, service, job) ← prepareAction lib stateDir runId actionName jobId
  match ← attempt (buildEvaluationRequest workspaceBase stateDir state job service) with
  | .error error => persistJobFailure stateDir job error
  | .ok request => do
    let job := { job with outputRoot := request.outputRoot }
    let answer ← sys (.evaluation request)
    finishAction lib stateDir job request answer

def runActionWithClient (stateDir : PathBuf) (runId actionName jobId : String) : Proc CliError JobProvenance := do
  let workspaceBase ← ioResult "current_dir" (← sys .currentDir)
  runActionWithClientAt lib workspaceBase stateDir runId actionName jobId

/-! ## Checking a state -/

/-- the closure of the action's service is complete, for an action the other checks let through -/
def Complete (state : RunState) (actionName : String) : Prop :=
  state.lifecycle = .running → ensureActionRoute state = .ok () →
    ∀ action, state.manifest.actions[actionName]? = some action →
      ∀ name, Reachable state.manifest.services action.service name → name ∈ state.manifest.services

theorem checkAction_raises {state : RunState} {actionName : String} (h : Complete state actionName)
    (runId jobId : String) : Raises (checkAction lib state runId actionName jobId) := by
  refine .bind (refuseIf_raises _ _) fun _ hrunning => .bind (refuseIf_raises _ _) fun _ hroute => ?_
  cases ha : state.manifest.actions[actionName]? with
  | none => exact .err _
  | some action =>
    have hall := h (by simpa using hrunning) hroute action ha
    obtain ⟨service, hs⟩ := exists_of_mem (hall action.service .refl)
    dsimp only
    rw [index_ok_iff.2 hs, ok_bind]
    exact (actionGpuBindings_raises lib hall).bind fun _ _ => .ok _

/-- an incomplete closure is indexed into and the process panics -/
theorem checkAction_panics {state : RunState} {actionName : String} (h : ¬Complete state actionName)
    (runId jobId : String) : ∃ message, checkAction lib state runId actionName jobId = .error (.panic message) := by
  simp only [Complete, Classical.not_imp, not_forall] at h
  obtain ⟨hrunning, hroute, action, ha, x, hx, hmissing⟩ := h
  rw [checkAction, (refuseIf_ok (u := ())).2 (not_not.2 hrunning), ok_bind, hroute, ok_bind, ha]
  dsimp only
  cases hs : state.manifest.services[action.service]? with
  | none => exact ⟨"no entry found for key", by rw [index, hs]; rfl⟩
  | some service =>
    rw [index_ok_iff.2 hs, ok_bind, actionGpuBindings]
    rcases actionClosure_spec state.manifest action.service with ⟨hall, -⟩ | ⟨-, message, hp⟩
    · exact absurd (hall x hx) hmissing
    · exact ⟨message, by rw [hp]; rfl⟩

/-- what is known of a job that passed the checks -/
structure Prepared (state : RunState) (runId actionName jobId : String) (service : Service) (job : JobProvenance) :
    Prop where
  initial : ∃ action closure bindings, state.manifest.actions[actionName]? = some action ∧
    job = initialJob lib state runId actionName jobId action service closure bindings
  bindings : job.gpuBindings ≠ []
  distinct : (job.gpuBindings.map (·.uuid)).Nodup

theorem checkAction_ok {state : RunState} {runId actionName jobId : String} {service : Service}
    {job : JobProvenance} (h : checkAction lib state runId actionName jobId = .ok (service, job)) :
    Prepared lib state runId actionName jobId service job := by
  obtain ⟨⟨⟩, -, h₁⟩ := bind_eq_ok.1 h
  obtain ⟨⟨⟩, -, h₂⟩ := bind_eq_ok.1 h₁
  cases ha : state.manifest.actions[actionName]? with
  | none => rw [ha] at h₂; cases h₂
  | some action =>
    rw [ha] at h₂
    obtain ⟨service', hs, h₃⟩ := bind_eq_ok.1 h₂
    obtain ⟨⟨closure, bindings⟩, hb, h₄⟩ := bind_eq_ok.1 h₃
    cases h₄
    obtain ⟨hne, hnd⟩ := actionGpuBindings_ok lib hb
    exact ⟨⟨action, closure, bindings, ha, rfl⟩, hne, hnd⟩

/-! ## Calls -/

theorem prepareAction_only (stateDir : PathBuf) (runId actionName jobId : String) :
    Only Event.looking (prepareAction lib stateDir runId actionName jobId) := by
  apply (Only.lift _).bind
  intro _
  apply (Only.lift _).bind
  intro _
  apply (loadState_only lib _ _).bind
  intro state
  apply (Only.lift _).bind
  intro found
  apply (Only.call fun _ => trivial).bind
  intro present
  cases present with
  | true => exact Only.fail _
  | false => exact Only.pure _

theorem absolutePath_only (path : PathBuf) : Only Event.looking (absolutePath path) := by
  unfold absolutePath
  split_ifs
  · exact Only.pure _
  · exact (Only.call fun _ => trivial).bind fun _ => (ioResult_only _ _).bind fun _ => Only.pure _

theorem build_only (workspaceBase stateDir : PathBuf) (state : RunState) (job : JobProvenance) (service : Service) :
    Only Event.looking (buildEvaluationRequest workspaceBase stateDir state job service) := by
  unfold buildEvaluationRequest
  split
  · exact Only.fail _
  · split
    · exact Only.fail _
    · refine .bind ?_ fun outputRoot => (absolutePath_only _).bind fun stateDir => ?_
      · exact (Only.lift _).bind fun _ => (Only.lift _).bind fun _ => (absolutePath_only _).bind fun _ => Only.lift _
      · apply (Only.lift _).bind
        intro _
        apply (Only.lift _).bind
        intro _
        split
        · exact Only.panicked _
        · exact Only.pure _

theorem absolutePath_safe (path : PathBuf) : Safe (absolutePath path) := by
  unfold absolutePath
  split_ifs
  · exact Safe.pure _
  · exact (Safe.call _).bind fun _ => (ioResult_safe _ _).bind fun _ => Safe.pure _

theorem pushComponent_raises (normalized : PathBuf) (component : Component) :
    Raises (pushComponent normalized component) := by
  cases component
  case parentDir => exact .err _
  all_goals exact .ok _

theorem pathString_raises (path : PathBuf) : Raises (pathString path) := by
  unfold pathString
  split
  · exact .ok _
  · exact .err _

theorem finishAction_only (stateDir : PathBuf) (job : JobProvenance) (request : EvaluationRequest)
    (answer : Except EvaluationFailure EvaluationResult) :
    Only Event.storing (finishAction lib stateDir job request answer) := by
  have hpersist : ∀ (job : JobProvenance) (error : CliError),
      Only Event.storing (persistJobFailure stateDir job error : Proc CliError JobProvenance) :=
    fun job error => (save_job_only stateDir _).bind fun _ => Only.fail _
  unfold finishAction
  cases answer with
  | error failure => exact hpersist _ _
  | ok result =>
    refine (Only.lift _).attempt.bind fun checked => ?_
    cases checked with
    | error error => exact hpersist _ _
    | ok =>
      dsimp only
      split_ifs
      · exact hpersist _ _
      · exact (save_job_only stateDir _).bind fun _ => Only.pure _

theorem action_sees (workspaceBase stateDir : PathBuf) (runId actionName jobId : String) :
    Sees (runActionWithClientAt lib workspaceBase stateDir runId actionName jobId) := by
  refine .bind (prepareAction_only lib _ _ _ _) fun prepared => .bind (build_only _ _ _ _ _).attempt fun built => ?_
  refine .unchecking (Only.imp (P := fun e => Event.storing e ∨ Event.unchecking e)
    (fun e h => h.elim Event.storing.unchecking id) ?_)
  cases built with
  | error error => exact ((save_job_only stateDir _).imp fun _ => .inl).bind fun _ => Only.fail _
  | ok request =>
    exact (Only.call fun _ => .inr trivial).bind fun _ => (finishAction_only lib _ _ _ _).imp fun _ => .inl

theorem build_safe (workspaceBase stateDir : PathBuf) (state : RunState) {job : JobProvenance} (service : Service)
    (h : job.gpuBindings ≠ []) :
    Safe (buildEvaluationRequest workspaceBase stateDir state job service) := by
  have hresolve : ∀ root, Safe (resolveOutputRoot workspaceBase root) := by
    intro root
    apply (Safe.lift (refuseIf_raises _ _)).bind
    intro _
    apply (Safe.lift (refuseIf_raises _ _)).bind
    intro _
    refine (absolutePath_safe _).bind fun base => Safe.lift ?_
    exact (Raises.foldlM _ (fun c _ p => pushComponent_raises p c) _).bind fun _ _ =>
      (refuseIf_raises _ _).bind fun _ _ => .ok _
  unfold buildEvaluationRequest
  split
  · exact Safe.fail _
  · split
    · exact Safe.fail _
    · apply (hresolve _).bind
      intro outputRoot
      apply (absolutePath_safe _).bind
      intro stateDir
      apply (Safe.lift (pathString_raises _)).bind
      intro _
      apply (Safe.lift (pathString_raises _)).bind
      intro _
      split
      · rename_i he
        exact absurd he h
      · exact Safe.pure _

/-! ## What is recorded -/

/-- the job that is saved for an answer of the client, and what is returned once it is -/
inductive Recorded (job : JobProvenance) (request : EvaluationRequest) :
    Except EvaluationFailure EvaluationResult → JobProvenance → Except (Stop CliError) JobProvenance → Prop where
  | failure (failure : EvaluationFailure) : Recorded job request (.error failure)
      ((job.withFailure lib request failure).failed failure.error) (.error (.err failure.error))
  | rejected {result : EvaluationResult} {error : CliError} : Recorded job request (.ok result)
      ((job.withResult lib request result).failed error) (.error (.err error))
  | succeeded {result : EvaluationResult} (attested : Attested lib request result) (success : result.success = true) :
      Recorded job request (.ok result) { job.withResult lib request result with success := true }
        (.ok { job.withResult lib request result with success := true })

/-- one save, and then this outcome, or the error of the save -/
def Saves (stateDir : PathBuf) (saved : JobProvenance) (out : Except (Stop CliError) JobProvenance) (fs : FileSystem)
    (t : Trace) (r : Except (Stop CliError) JobProvenance) (fs' : FileSystem) : Prop :=
  ∃ r₀, Run Step (saveJobProvenance stateDir saved) fs t r₀ fs' ∧ r = r₀ >>= fun _ => out

theorem run_save_then {stateDir : PathBuf} {saved : JobProvenance} {out : Except (Stop CliError) JobProvenance}
    {fs fs' : FileSystem} {t : Trace} {r : Except (Stop CliError) JobProvenance} :
    Run Step (do
      saveJobProvenance stateDir saved
      liftM out : Proc CliError JobProvenance) fs t r fs' ↔ Saves stateDir saved out fs t r fs' := by
  rw [run_bind]
  refine ⟨?_, ?_⟩
  · intro hx
    rcases hx with ⟨⟨⟩, t₁, u, t₂, h₁, h₂, rfl⟩ | ⟨e, he, rfl⟩
    · obtain ⟨rfl, rfl, rfl⟩ := run_lift.1 h₂
      exact ⟨_, by rwa [List.append_nil], rfl⟩
    · exact ⟨_, he, rfl⟩
  · intro hx
    rcases hx with ⟨_ | ⟨⟨⟩⟩, h, rfl⟩
    · exact .inr ⟨_, h, rfl⟩
    · exact .inl ⟨(), t, fs', [], h, run_lift.2 ⟨rfl, rfl, rfl⟩, (List.append_nil t).symm⟩

theorem validate_evaluation_raises (request : EvaluationRequest) (result : EvaluationResult) :
    Raises (validateEvaluationResult lib request result) := by
  have hhash : ∀ label evidence claimed, Raises (validateEvidenceHash lib label evidence claimed) :=
    fun _ _ _ => .bind (refuseIf_raises _ _) fun _ _ => refuseIf_raises _ _
  exact .bind (refuseIf_raises _ _) fun _ _ => .bind (refuseIf_raises _ _) fun _ _ =>
    .bind (refuseIf_raises _ _) fun _ _ => .bind (refuseIf_raises _ _) fun _ _ =>
    .bind (refuseIf_raises _ _) fun _ _ => .bind (refuseIf_raises _ _) fun _ _ =>
    .bind (refuseIf_raises _ _) fun _ _ => .bind (hhash _ _ _) fun _ _ => .bind (hhash _ _ _) fun _ _ =>
    refuseIf_raises _ _

/-- what becomes of a result: refused by a check, rejected for its own failure, or recorded as a success -/
theorem finishAction_result {stateDir : PathBuf} {job : JobProvenance} {request : EvaluationRequest}
    {result : EvaluationResult} {fs fs' : FileSystem} {t : Trace} {r : Except (Stop CliError) JobProvenance}
    (h : Run Step (finishAction lib stateDir job request (.ok result)) fs t r fs') :
    (∃ error, (validateEvaluationResult lib request result = Err error ∨
          validateEvaluationResult lib request result = .ok () ∧ result.success = false ∧ error = rejection result) ∧
        Saves stateDir ((job.withResult lib request result).failed error) (.error (.err error)) fs t r fs') ∨
      validateEvaluationResult lib request result = .ok () ∧ result.success = true ∧
        Saves stateDir { job.withResult lib request result with success := true }
          (.ok { job.withResult lib request result with success := true }) fs t r fs' := by
  unfold finishAction at h
  dsimp only at h
  obtain ⟨checked, t₁, u, t₂, h₁, h₂, rfl⟩ :=
    (run_attempt_bind (Safe.lift (validate_evaluation_raises lib request result))).1 h
  obtain ⟨rfl, hr, rfl⟩ := run_lift.1 h₁
  cases checked with
  | error error => exact .inl ⟨error, .inl hr.symm, run_save_then.1 h₂⟩
  | ok =>
    dsimp only at h₂
    split_ifs at h₂ with hs
    · exact .inl ⟨_, .inr ⟨hr.symm, hs, rfl⟩, run_save_then.1 h₂⟩
    · exact .inr ⟨hr.symm, by simpa using hs, run_save_then.1 h₂⟩

theorem finishAction_run {stateDir : PathBuf} {job : JobProvenance} {request : EvaluationRequest}
    {answer : Except EvaluationFailure EvaluationResult} {fs fs' : FileSystem} {t : Trace}
    {r : Except (Stop CliError) JobProvenance}
    (h : Run Step (finishAction lib stateDir job request answer) fs t r fs') :
    ∃ saved out, Recorded lib job request answer saved out ∧ Saves stateDir saved out fs t r fs' := by
  cases answer with
  | error failure => exact ⟨_, _, .failure failure, run_save_then.1 h⟩
  | ok result =>
    rcases finishAction_result lib h with ⟨error, -, hsaves⟩ | ⟨hvalid, hsuccess, hsaves⟩
    · exact ⟨_, _, .rejected, hsaves⟩
    · exact ⟨_, _, .succeeded ((validateEvaluationResult_ok_iff lib).1 hvalid) hsuccess, hsaves⟩

/-- the runs of an action: refused by a check; recorded without a request; or recorded with what the client answered -/
inductive ActionRun (workspaceBase stateDir : PathBuf) (runId actionName jobId : String) (fs : FileSystem) :
    Trace → Except (Stop CliError) JobProvenance → FileSystem → Prop where
  | refused {t : Trace} {e : Stop CliError}
      (checked : Run Step (prepareAction lib stateDir runId actionName jobId) fs t (.error e) fs) :
      ActionRun workspaceBase stateDir runId actionName jobId fs t (.error e) fs
  | unbuilt {state : RunState} {service : Service} {job : JobProvenance} {error : CliError} {t₁ t₂ t₃ : Trace}
      {r : Except (Stop CliError) JobProvenance} {fs' : FileSystem}
      (checked : Run Step (prepareAction lib stateDir runId actionName jobId) fs t₁ (.ok (state, service, job)) fs)
      (built : Run Step (buildEvaluationRequest workspaceBase stateDir state job service) fs t₂
        (.error (.err error)) fs)
      (saves : Saves stateDir (job.failed error) (.error (.err error)) fs t₃ r fs') :
      ActionRun workspaceBase stateDir runId actionName jobId fs (t₁ ++ (t₂ ++ t₃)) r fs'
  | asked {state : RunState} {service : Service} {job saved : JobProvenance} {request : EvaluationRequest}
      {answer : Except EvaluationFailure EvaluationResult} {out r : Except (Stop CliError) JobProvenance}
      {t₁ t₂ t₃ : Trace} {fs' : FileSystem}
      (checked : Run Step (prepareAction lib stateDir runId actionName jobId) fs t₁ (.ok (state, service, job)) fs)
      (built : Run Step (buildEvaluationRequest workspaceBase stateDir state job service) fs t₂ (.ok request) fs)
      (recorded : Recorded lib { job with outputRoot := request.outputRoot } request answer saved out)
      (saves : Saves stateDir saved out fs t₃ r fs') :
      ActionRun workspaceBase stateDir runId actionName jobId fs
        (t₁ ++ (t₂ ++ ⟨.evaluation request, answer⟩ :: t₃)) r fs'

/-- what the checks let through -/
theorem prepareAction_ok {stateDir : PathBuf} {runId actionName jobId : String} {state : RunState}
    {service : Service} {job : JobProvenance} {fs fs' : FileSystem} {t : Trace}
    (h : Run Step (prepareAction lib stateDir runId actionName jobId) fs t (.ok (state, service, job)) fs') :
    validateSlug "run_id" runId = .ok () ∧ validateSlug "job_id" jobId = .ok () ∧
      (∃ contents, fs.files (statePath stateDir runId).components = some contents ∧
        lib.fromStr "RunState" RunState.codec contents = .ok state) ∧
      state.lifecycle = .running ∧
      checkAction lib state runId actionName jobId = .ok (service, job) ∧
      ⟨.pathExists (jobPath stateDir runId jobId).components, false⟩ ∈ t := by
  obtain ⟨⟨⟩, hr, h₁⟩ := run_lift_bind_ok.1 h
  obtain ⟨⟨⟩, hj, h₂⟩ := run_lift_bind_ok.1 h₁
  obtain ⟨state', t₁, u, t₂, hload, h₃, rfl⟩ := run_bind_ok.1 h₂
  obtain ⟨-, rfl, contents, hc, hdecode, -⟩ := (run_loadState lib).1 hload
  obtain ⟨⟨service', job'⟩, hcheck, h₄⟩ := run_lift_bind_ok.1 h₃
  obtain ⟨present, v, t₃, -, h₅, rfl⟩ := run_sys_bind.1 h₄
  cases present with
  | true => cases (run_fail.1 h₅).2.1
  | false =>
    obtain ⟨-, hout, -⟩ := run_pure.1 h₅
    cases hout
    obtain ⟨⟨⟩, hrunning, -⟩ := bind_eq_ok.1 hcheck
    refine ⟨hr, hj, ⟨contents, hc, hdecode⟩, by simpa using hrunning, hcheck, ?_⟩
    exact List.mem_append_right _ List.mem_cons_self

/-- a request carries the digest and the bindings of its job -/
structure Requested (state : RunState) (job : JobProvenance) (request : EvaluationRequest) : Prop where
  manifestSha256 : request.manifestSha256 = state.manifestSha256
  podmanPipe : request.podmanPipe = defaultPodmanPipe
  gpuBindings : request.gpuBindings = job.gpuBindings
  timeoutMillis : request.timeoutMillis = job.timeoutMillis
  maxOutputBytes : request.maxOutputBytes = job.maxOutputBytes

/-- a state directory as it is, or below the current directory -/
theorem run_absolutePath {path absolute : PathBuf} {fs fs' : FileSystem} {t : Trace}
    (h : Run Step (absolutePath path) fs t (.ok absolute) fs') :
    absolute = path ∨ ∃ directory : PathBuf, absolute = directory.join path := by
  unfold absolutePath at h
  split_ifs at h
  · obtain ⟨-, hr, -⟩ := run_pure.1 h
    exact .inl (Except.ok.inj hr)
  · obtain ⟨_, _, _, -, h₁, -⟩ := run_sys_bind.1 h
    obtain ⟨directory, _, h₂⟩ := run_io_bind_ok.1 h₁
    obtain ⟨-, hr, -⟩ := run_pure.1 h₂
    exact .inr ⟨directory, Except.ok.inj hr⟩

/-- a request that is built, and the path of the reservation file in it -/
theorem build_parts {workspaceBase stateDir : PathBuf} {state : RunState} {job : JobProvenance} {service : Service}
    {request : EvaluationRequest} {fs fs' : FileSystem} {t : Trace}
    (h : Run Step (buildEvaluationRequest workspaceBase stateDir state job service) fs t (.ok request) fs') :
    Requested state job request ∧ ∃ absolute : PathBuf,
      (absolute = stateDir ∨ ∃ directory : PathBuf, absolute = directory.join stateDir) ∧
      pathString (absolute.join (.ofStr "nanovms-gpu-reservations.json")) = .ok request.reservationPath := by
  unfold buildEvaluationRequest at h
  split at h
  · cases (run_fail.1 h).2.1
  · split at h
    · cases (run_fail.1 h).2.1
    · obtain ⟨outputRoot, _, _, _, -, h₁, -⟩ := run_bind_ok.1 h
      obtain ⟨absolute, _, _, _, habsolute, h₂, -⟩ := run_bind_ok.1 h₁
      obtain ⟨outputRoot', -, h₃⟩ := run_lift_bind_ok.1 h₂
      obtain ⟨reservationPath, hpath, h₄⟩ := run_lift_bind_ok.1 h₃
      split at h₄
      · cases (run_panicked.1 h₄).2.1
      · obtain ⟨-, hr, -⟩ := run_pure.1 h₄
        cases hr
        exact ⟨⟨rfl, rfl, rfl, rfl, rfl⟩, absolute, run_absolutePath habsolute, hpath⟩

theorem build_ok {workspaceBase stateDir : PathBuf} {state : RunState} {job : JobProvenance} {service : Service}
    {request : EvaluationRequest} {fs fs' : FileSystem} {t : Trace}
    (h : Run Step (buildEvaluationRequest workspaceBase stateDir state job service) fs t (.ok request) fs') :
    Requested state job request :=
  (build_parts h).1

/-- the parts of a run: the checks; the request; and, if it could be built, the answer and what follows from it -/
theorem runAction_parts {workspaceBase stateDir : PathBuf} {runId actionName jobId : String}
    {fs fs' : FileSystem} {t : Trace} {r : Except (Stop CliError) JobProvenance}
    (h : Run Step (runActionWithClientAt lib workspaceBase stateDir runId actionName jobId) fs t r fs') :
    (∃ e, r = .error e ∧ fs' = fs ∧ Run Step (prepareAction lib stateDir runId actionName jobId) fs t (.error e) fs) ∨
      ∃ state service job t₁ t₂ t₃, t = t₁ ++ (t₂ ++ t₃) ∧
        Run Step (prepareAction lib stateDir runId actionName jobId) fs t₁ (.ok (state, service, job)) fs ∧
        ((∃ error, Run Step (buildEvaluationRequest workspaceBase stateDir state job service) fs t₂
            (.error (.err error)) fs ∧ Saves stateDir (job.failed error) (.error (.err error)) fs t₃ r fs') ∨
          ∃ request answer t₄, t₃ = ⟨.evaluation request, answer⟩ :: t₄ ∧
            Run Step (buildEvaluationRequest workspaceBase stateDir state job service) fs t₂ (.ok request) fs ∧
            Run Step (finishAction lib stateDir { job with outputRoot := request.outputRoot } request answer) fs t₄
              r fs') := by
  have honly := prepareAction_only lib stateDir runId actionName jobId
  rcases run_bind.1 h with ⟨⟨state, service, job⟩, t₁, u, t', hprepare, h₁, rfl⟩ | ⟨e, he, rfl⟩
  · obtain rfl : u = fs := honly.keeps Event.looking.keeps hprepare
    have hprepared := checkAction_ok lib (prepareAction_ok lib hprepare).2.2.2.2.1
    obtain ⟨built, t₂, v, t₃, hbuild, h₂, rfl⟩ := (run_attempt_bind (build_safe _ _ _ _ hprepared.bindings)).1 h₁
    obtain rfl : v = u := (build_only _ _ _ _ _).keeps Event.looking.keeps hbuild
    refine .inr ⟨state, service, job, t₁, t₂, t₃, rfl, hprepare, ?_⟩
    cases built with
    | error error => exact .inl ⟨error, hbuild, run_save_then.1 h₂⟩
    | ok request =>
      obtain ⟨answer, w, t₄, hw, hfinish, rfl⟩ := run_sys_bind.1 h₂
      obtain rfl : w = v := hw
      exact .inr ⟨request, answer, t₄, rfl, hbuild, hfinish⟩
  · obtain rfl : fs' = fs := honly.keeps Event.looking.keeps he
    exact .inl ⟨e, rfl, rfl, he⟩

theorem runAction_run {workspaceBase stateDir : PathBuf} {runId actionName jobId : String}
    {fs fs' : FileSystem} {t : Trace} {r : Except (Stop CliError) JobProvenance}
    (h : Run Step (runActionWithClientAt lib workspaceBase stateDir runId actionName jobId) fs t r fs') :
    ActionRun lib workspaceBase stateDir runId actionName jobId fs t r fs' := by
  rcases runAction_parts lib h with ⟨e, rfl, rfl, hrefused⟩ | ⟨state, service, job, t₁, t₂, t₃, rfl, hprepare, hrest⟩
  · exact .refused hrefused
  · rcases hrest with ⟨error, hbuild, hsaves⟩ | ⟨request, answer, t₄, rfl, hbuild, hfinish⟩
    · exact .unbuilt hprepare hbuild hsaves
    · obtain ⟨saved, out, hrecorded, hsaves⟩ := finishAction_run lib hfinish
      exact .asked hprepare hbuild hrecorded hsaves

end PhenoCompose
