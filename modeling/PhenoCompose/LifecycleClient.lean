/-
`ProcessLifecycleClient`: the lifecycle call of an apply, made of a NanoVMS process.

The request is written to the process and the response read from it, both as JSON, and no bound is put on either. Some
failures come with a response all the same: of the containers in it the caller hears even then, and of no others.

- `execute_ok`, `execute_containers`: when the client accepts a response, and of which containers its caller hears.
- `execute_served`: a process that keeps to the wire types is, to its client, the function it computes.
- `apply_accounts`: what an apply records and what it takes back, in terms of the process.
-/
import PhenoCompose.ApplyResults
import PhenoCompose.CommandLine
import PhenoCompose.ContainerMap
import PhenoCompose.NvmsClient

namespace PhenoCompose

open Core.Collections Core.Json Core.Path Core.Process Core.Text

/-! ## Wire types -/

def ServiceLifecycleIntent.codec : Codec ServiceLifecycleIntent :=
  record ((required "phase" .string (·.phase)).and <|
    (required "service" .string (·.service)).and <|
    (skippedNone "image" optionString (·.image)).and
    (skippedEmptyVec "depends_on" (·.dependsOn)))
    (fun (phase, service, image, dependsOn) => { phase, service, image, dependsOn })
    (fun _ => rfl) (by decide)

/-- `#[serde(default, skip_serializing_if = "BTreeMap::is_empty")]` -/
def skippedEmptyMap {σ : Type} (name : String) (get : σ → BTreeMap String) : Fields σ (BTreeMap String) :=
  skipped name (.btreeMap .string) ∅ (fun map => map.isEmpty) (fun _ h => by simpa using h) get

def ServiceDefinition.codec : Codec ServiceDefinition :=
  record ((required "image" .string (·.image)).and <|
    (skippedEmptyVec "depends_on" (·.dependsOn)).and <|
    (skippedEmptyVec "command" (·.command)).and <|
    (skippedEmptyMap "environment" (·.environment)).and <|
    (skippedNone "cpu_millis" (.option .u32 Codec.u32_ne_null) (·.cpuMillis)).and <|
    (skippedNone "memory_bytes" (.option .u64 Codec.u64_ne_null) (·.memoryBytes)).and
    (skippedEmptyVec "gpu_uuids" (·.gpuUuids)))
    (fun (image, dependsOn, command, environment, cpuMillis, memoryBytes, gpuUuids) =>
      { image, dependsOn, command, environment, cpuMillis, memoryBytes, gpuUuids })
    (fun _ => rfl) (by decide)

def ServiceLifecycleRequest.codec : Codec ServiceLifecycleRequest :=
  record ((required "version" .string (·.version)).and <|
    (required "schema_version" .string (·.schemaVersion)).and <|
    (required "manifest_sha256" .string (·.manifestSha256)).and <|
    (required "run_id" .string (·.runId)).and <|
    (skippedEmpty "wsl_distribution" (·.wslDistribution)).and <|
    (required "podman_pipe" .string (·.podmanPipe)).and <|
    (skippedEmptyVec "order" (·.order)).and <|
    (required "intents" (.vec ServiceLifecycleIntent.codec) (·.intents)).and
    (required "services" (.btreeMap ServiceDefinition.codec) (·.services)))
    (fun (version, schemaVersion, manifestSha256, runId, wslDistribution, podmanPipe, order, intents, services) =>
      { version, schemaVersion, manifestSha256, runId, wslDistribution, podmanPipe, order, intents, services })
    (fun _ => rfl) (by decide)

def ServiceLifecycleResult.codec : Codec ServiceLifecycleResult :=
  record ((required "version" .string (·.version)).and <|
    (required "success" .bool (·.success)).and <|
    (defaulted "error_code" .string "" (·.errorCode)).and <|
    (defaulted "error_message" .string "" (·.errorMessage)).and <|
    (skippedEmptyMap "containers" (·.containers)).and <|
    (required "effective_engine" .string (·.effectiveEngine)).and <|
    (required "resolved_provider" .string (·.resolvedProvider)).and
    (required "podman_pipe" .string (·.podmanPipe)))
    (fun (version, success, errorCode, errorMessage, containers, effectiveEngine, resolvedProvider, podmanPipe) =>
      { version, success, errorCode, errorMessage, containers, effectiveEngine, resolvedProvider, podmanPipe })
    (fun _ => rfl) (by decide)

/-! ## The process -/

/-- what `wait_with_output` returns of a process that has ended -/
structure ProcessOutput where
  status : Option Int32
  stdout : Bytes
  stderr : Bytes
deriving DecidableEq

/-- a NanoVMS process: what became of writing the request to it, and of waiting for its end -/
structure LifecycleChild where
  stdin : Option (Except IoError Unit)
  output : Except IoError ProcessOutput

def emptyLifecycleResult (request : ServiceLifecycleRequest) : ServiceLifecycleResult where
  version := serviceLifecycleVersion
  success := false
  errorCode := ""
  errorMessage := ""
  containers := ∅
  effectiveEngine := ""
  resolvedProvider := ""
  podmanPipe := request.podmanPipe

def lifecycleFailure (error : CliError) (result : ServiceLifecycleResult) : ServiceLifecycleFailure :=
  { error := error, result := result }

/-- `match output.status.code()` -/
def lifecycleExit (output : ProcessOutput) (result : ServiceLifecycleResult) :
    Except ServiceLifecycleFailure ServiceLifecycleResult :=
  let stderr : BoundedBytes := { bytes := output.stderr, truncated := false }
  if output.status = some 0 ∨ output.status = some 4 then .ok result
  else if output.status = some 2 then .error (lifecycleFailure (exitError "nvms_usage" output.status stderr) result)
  else if output.status = some 3 then
    .error (lifecycleFailure (exitError "nvms_request_rejected" output.status stderr) result)
  else if output.status = some 5 then
    .error (lifecycleFailure (exitError "nvms_encode_failed" output.status stderr) result)
  else .error (lifecycleFailure (exitError "nvms_process_failed" output.status stderr) result)

variable (lib : Externals) (contentsOf : Bytes → Contents)

/-- what is written to the process -/
def ServiceLifecycleRequest.line (request : ServiceLifecycleRequest) : Bytes :=
  lib.toVec (ServiceLifecycleRequest.codec.encode request) ++ [10]

/-- `serde_json::from_slice` at this type -/
def ServiceLifecycleResult.fromSlice (input : Bytes) : Except String ServiceLifecycleResult :=
  match contentsOf input with
  | .json value => match ServiceLifecycleResult.codec.decode value with
    | some result => .ok result
    | none => .error (lib.serdeError "ServiceLifecycleResult" (.json value))
  | .text text => .error (lib.serdeError "ServiceLifecycleResult" (.text text))

/-- `execute`, on a process that behaves like this on what is written to it -/
def ProcessLifecycleClient.execute (nvms : Bytes → Except IoError LifecycleChild) (request : ServiceLifecycleRequest) :
    Except ServiceLifecycleFailure ServiceLifecycleResult :=
  match nvms (request.line lib) with
  | .error error => .error (lifecycleFailure (.io "nvms_spawn" error) (emptyLifecycleResult request))
  | .ok child =>
    match child.stdin with
    | none =>
      .error (lifecycleFailure (.backend "nvms_stdin" "NanoVMS stdin was unavailable") (emptyLifecycleResult request))
    | some (.error error) =>
      .error (lifecycleFailure (.io "nvms_request_write" error) (emptyLifecycleResult request))
    | some (.ok _) =>
      match child.output with
      | .error error => .error (lifecycleFailure (.io "nvms_wait" error) (emptyLifecycleResult request))
      | .ok output =>
        match ServiceLifecycleResult.fromSlice lib contentsOf output.stdout with
        | .error error =>
          .error (lifecycleFailure
            (.backend "nvms_malformed_response" (error ++ "; stderr=" ++ trim (fromUtf8Lossy output.stderr)))
            (emptyLifecycleResult request))
        | .ok result => lifecycleExit output result

/-! ## What the client makes of it -/

/-- the response of a process that took its request and ended, however it ended, if it can be read -/
def lifecycleResponse (spawned : Except IoError LifecycleChild) : Option ServiceLifecycleResult :=
  match spawned with
  | .ok ⟨some (.ok _), .ok output⟩ => (ServiceLifecycleResult.fromSlice lib contentsOf output.stdout).toOption
  | _ => none

/-- the containers the process tells of -/
def reportedContainers (spawned : Except IoError LifecycleChild) : BTreeMap String :=
  ((lifecycleResponse lib contentsOf spawned).map (·.containers)).getD ∅

/-- the process took its request and ended well -/
def EndedWell (spawned : Except IoError LifecycleChild) : Prop :=
  ∃ output, spawned = .ok ⟨some (.ok ()), .ok output⟩ ∧ (output.status = some 0 ∨ output.status = some 4)

section
variable {lib contentsOf}

theorem lifecycleExit_ok {output : ProcessOutput} {result result' : ServiceLifecycleResult} :
    lifecycleExit output result = .ok result' ↔
      (output.status = some 0 ∨ output.status = some 4) ∧ result = result' := by
  unfold lifecycleExit
  split_ifs with hstatus
  · simp [hstatus]
  all_goals simp [hstatus]

/-- what a response says is kept whatever the exit status -/
theorem lifecycleExit_containers (output : ProcessOutput) (result : ServiceLifecycleResult) :
    returnedContainers (lifecycleExit output result) = result.containers := by
  unfold lifecycleExit
  split_ifs <;> rfl

variable {nvms : Bytes → Except IoError LifecycleChild} {request : ServiceLifecycleRequest}

/-- the client accepts the response of a process that ended well, and nothing else -/
theorem execute_ok {result : ServiceLifecycleResult} :
    ProcessLifecycleClient.execute lib contentsOf nvms request = .ok result ↔
      EndedWell (nvms (request.line lib)) ∧
        lifecycleResponse lib contentsOf (nvms (request.line lib)) = some result := by
  unfold ProcessLifecycleClient.execute EndedWell
  rcases nvms (request.line lib) with error | ⟨_ | error | ⟨⟨⟩⟩, error | output⟩
  all_goals simp only [lifecycleResponse, reduceCtorEq, and_false, Except.ok.injEq, LifecycleChild.mk.injEq]
  cases hread : ServiceLifecycleResult.fromSlice lib contentsOf output.stdout with
  | error error => simp [Except.toOption]
  | ok result' => simp [Except.toOption, lifecycleExit_ok]

/-- the caller hears of the containers in the response, and of no others -/
theorem execute_containers :
    returnedContainers (ProcessLifecycleClient.execute lib contentsOf nvms request) =
      reportedContainers lib contentsOf (nvms (request.line lib)) := by
  unfold ProcessLifecycleClient.execute reportedContainers
  rcases nvms (request.line lib) with error | ⟨_ | error | ⟨⟨⟩⟩, error | output⟩
  case ok.some.ok.ok =>
    dsimp only [lifecycleResponse]
    cases ServiceLifecycleResult.fromSlice lib contentsOf output.stdout with
    | error error => rfl
    | ok result => exact lifecycleExit_containers output result
  all_goals rfl

end

/-! ## A process that keeps to the wire types -/

/-- read the request, answer with what is made of it, and exit with 0; what cannot be read is rejected -/
def serve (backend : ServiceLifecycleRequest → ServiceLifecycleResult) (line : Bytes) : Except IoError LifecycleChild :=
  match lib.fromStr "ServiceLifecycleRequest" ServiceLifecycleRequest.codec (contentsOf line) with
  | .ok request =>
    .ok ⟨some (.ok ()), .ok ⟨some 0, lib.toVec (ServiceLifecycleResult.codec.encode (backend request)), []⟩⟩
  | .error _ => .ok ⟨some (.ok ()), .ok ⟨some 3, [], []⟩⟩

/-- the client of such a process gets what the backend computes, nothing being lost on the way there or back -/
theorem execute_served {backend : ServiceLifecycleRequest → ServiceLifecycleResult} {request : ServiceLifecycleRequest}
    (hrequest : contentsOf (request.line lib) = .json (ServiceLifecycleRequest.codec.encode request))
    (hresponse : contentsOf (lib.toVec (ServiceLifecycleResult.codec.encode (backend request))) =
      .json (ServiceLifecycleResult.codec.encode (backend request))) :
    ProcessLifecycleClient.execute lib contentsOf (serve lib contentsOf backend) request = .ok (backend request) := by
  have hserve : serve lib contentsOf backend (request.line lib) = .ok ⟨some (.ok ()),
      .ok ⟨some 0, lib.toVec (ServiceLifecycleResult.codec.encode (backend request)), []⟩⟩ := by
    rw [serve, hrequest, Externals.fromStr_encode]
  have hread : ServiceLifecycleResult.fromSlice lib contentsOf
      (lib.toVec (ServiceLifecycleResult.codec.encode (backend request))) = .ok (backend request) := by
    rw [ServiceLifecycleResult.fromSlice, hresponse]
    simp only [Codec.decode_encode]
  refine execute_ok.2 ⟨⟨_, hserve, .inl rfl⟩, ?_⟩
  rw [hserve, lifecycleResponse]
  simp only [hread, Except.toOption]

/-! ## An apply through the client -/

/-- every lifecycle call was made of a process that behaves like this -/
def CalledThrough (nvms : Bytes → Except IoError LifecycleChild) (t : Trace) : Prop :=
  ∀ request answer, ⟨.lifecycle request, answer⟩ ∈ t →
    answer = ProcessLifecycleClient.execute lib contentsOf nvms request

/-- the response of a process that ended well is on file, and nothing was stopped; or what was on file still is, and
the containers the process told of, if it was started at all, were asked to stop, the last key first -/
def Accounted (manifest : CompositionManifest) (stateDir : PathBuf) (request : ServiceLifecycleRequest)
    (spawned : Except IoError LifecycleChild) (fs : FileSystem) (t : Trace) (r : Except (Stop CliError) ApplyOutput)
    (fs' : FileSystem) : Prop :=
  match r with
  | .ok output => EndedWell spawned ∧ stopRequests t = [] ∧ ∃ result state,
      lifecycleResponse lib contentsOf spawned = some result ∧ LifecycleAttested manifest result ∧
      fs'.files (stateLocation stateDir request.runId) = some (.json (RunState.codec.encode state)) ∧
      state.runId = request.runId ∧ state.lifecycle = .running ∧ state.containers = result.containers ∧
      output.runId = request.runId ∧ output.containers = result.containers
  | .error e => (∃ error, e = .err error) ∧
      fs'.files (stateLocation stateDir request.runId) = fs.files (stateLocation stateDir request.runId) ∧
      ((∃ answer, ⟨.lifecycle request, answer⟩ ∈ t) →
        stopRequests t = (values (reportedContainers lib contentsOf spawned)).reverse) ∧
      ((∀ answer, ⟨.lifecycle request, answer⟩ ∉ t) → stopRequests t = [])

theorem quiet_requests {t : Trace} (h : ∀ e ∈ t, stopRequest e = none) : stopRequests t = [] :=
  List.filterMap_eq_nil_iff.2 h

/-- **An apply accounts for the process it started.** In every run of a mutating apply of a valid manifest, whatever the
process does with the request: the apply succeeds with the response of a process that ended well on file, or fails having
asked exactly those containers to stop that the process told of in a response that could be read; and this exactly when
the clock could be read. -/
theorem apply_accounts (nvms : Bytes → Except IoError LifecycleChild) (manifest : CompositionManifest)
    (h : manifest.validate lib = .ok ()) (stateDir : PathBuf) :
    ∃ request, lifecycleRequest lib manifest = .ok request ∧
      ∀ fs t r fs', Run Step (applyWithLifecycleClient lib manifest stateDir false) fs t r fs' →
        CalledThrough lib contentsOf nvms t →
          (Accounted lib contentsOf manifest stateDir request (nvms (request.line lib)) fs t r fs' ↔
            ∀ message, ⟨.clock, .error message⟩ ∉ t) := by
  have hv := (validate_ok_iff lib).1 h
  obtain ⟨lifecycle, run, hl, hr, -, hrequest⟩ := hv.request_eq lib
  have hp : Planned lib manifest run lifecycle := ⟨hv, hr, hl⟩
  refine ⟨hp.request, hrequest, fun fs t r fs' hrun hthrough => ?_⟩
  rcases hp.run_apply_parts hrun with ⟨⟨error, rfl⟩, rfl, ht⟩ | ⟨t₁, answer, t₂, rfl, ht₁, -, -, hfinish⟩
  · -- the process was not started
    refine ⟨fun _ _ hm => ht _ hm, fun _ => ⟨⟨error, rfl⟩, rfl, ?_, ?_⟩⟩
    · rintro ⟨answer, hm⟩
      exact absurd (ht _ hm) id
    · exact fun _ => quiet_requests fun e he => (ht e he).no_stop
  · have hcall : ⟨.lifecycle hp.request, answer⟩ ∈ t₁ ++ ⟨.lifecycle hp.request, answer⟩ :: t₂ :=
      mem_one_call.2 (.inr (.inl rfl))
    have hanswer := hthrough _ _ hcall
    have hcontainers : returnedContainers answer = reportedContainers lib contentsOf (nvms (hp.request.line lib)) := by
      rw [hanswer, execute_containers]
    have hf := finish_run lib hp.word hp.ne_empty hfinish
    obtain ⟨-, hclock⟩ := hf.calls
    refine ⟨fun haccounted message hm => ?_, fun hno => ?_⟩
    · rcases hclock with hquiet | ⟨result, message, rfl, hattested, rfl, error, rfl⟩
      · rcases mem_one_call.1 hm with hm | hm | hm
        · exact ht₁ _ hm
        · cases hm
        · exact hquiet message hm
      · -- the process told of a container, and nobody was asked to stop it
        obtain ⟨id, hid⟩ := attested_nonempty lib hp hattested
        have hstops := haccounted.2.2.1 ⟨_, hcall⟩
        rw [requests_one_call ht₁, ← hcontainers] at hstops
        have hasked : id ∈ stopRequests [⟨.clock, .error message⟩] := hstops ▸ List.mem_reverse.2 hid
        cases hasked
    · cases hf with
      | @rolledBack t₃ t₄ error quiet stops kept =>
        refine ⟨⟨error, rfl⟩, kept, fun _ => ?_, fun hnone => absurd hcall (hnone _)⟩
        have hquiet : stopRequests t₃ = [] := quiet_requests fun e he => (quiet e he).no_stop
        rw [requests_one_call ht₁]
        calc stopRequests (t₃ ++ t₄) = stopRequests t₃ ++ stopRequests t₄ := List.filterMap_append
          _ = stopRequests t₄ := by rw [hquiet, List.nil_append]
          _ = (values (reportedContainers lib contentsOf (nvms (hp.request.line lib)))).reverse := by
            rw [stops.requests, hcontainers]
      | clockLost => exact absurd (mem_one_call.2 (.inr (.inr (List.mem_singleton_self _)))) (hno _)
      | @recorded state output t quiet written ofRun named running given told =>
        cases answer with
        | error failure => cases (run_rollback_fail.1 hfinish).1
        | ok result =>
          obtain ⟨hended, hresponse⟩ := execute_ok.1 hanswer.symm
          have hattested := hp.attested_iff.1 (finishApply_ok lib hfinish)
          refine ⟨hended, ?_, result, state, hresponse, hattested, written, ofRun, running, given, named, told⟩
          rw [requests_one_call ht₁, quiet_requests fun e he => (quiet e he).no_stop]

/-- two containers are told of, but the exit status is 5 -/
def toldAndFailed : ProcessOutput where
  status := some 5
  stdout := Externals.standard.toVec (ServiceLifecycleResult.codec.encode twoCreated)
  stderr := []

def toldContents (input : Bytes) : Contents :=
  if input = toldAndFailed.stdout then .json (ServiceLifecycleResult.codec.encode twoCreated) else .text input

/-- both are asked to stop -/
theorem apply_accounts_example : ∃ request t error fs', lifecycleRequest .standard demo = .ok request ∧
    Run Step (applyWithLifecycleClient .standard demo (.ofStr "runs") false) .empty t (.error (.err error)) fs' ∧
    CalledThrough .standard toldContents (fun _ => .ok ⟨some (.ok ()), .ok toldAndFailed⟩) t ∧
    Accounted .standard toldContents demo (.ofStr "runs") request (.ok ⟨some (.ok ()), .ok toldAndFailed⟩) .empty t
      (.error (.err error)) fs' ∧ error.code = "nvms_encode_failed" := by
  obtain ⟨run, lifecycle, hp⟩ := ((validate_ok_iff .standard).1 demo_valid).planned .standard
  let spawned : Except IoError LifecycleChild := .ok ⟨some (.ok ()), .ok toldAndFailed⟩
  let failure := lifecycleFailure (exitError "nvms_encode_failed" (some 5) ⟨[], false⟩) twoCreated
  have hread : ServiceLifecycleResult.fromSlice .standard toldContents toldAndFailed.stdout = .ok twoCreated := by
    rw [ServiceLifecycleResult.fromSlice, toldContents, if_pos rfl]
    simp only [Codec.decode_encode]
  have hexecute : ProcessLifecycleClient.execute .standard toldContents (fun _ => spawned) hp.request =
      .error failure := by
    rw [ProcessLifecycleClient.execute]
    dsimp only [spawned]
    rw [hread]
    rfl
  obtain ⟨t₁, ht₁, hruns⟩ := hp.runs_apply demo_applicable (.ofStr "runs") .empty rfl rfl
  obtain ⟨t₂, ht₂⟩ := Stops.exists demo.runtime.wslDistribution (values twoCreated.containers).reverse
  have hfinish : Run Step (finishApply .standard demo (.ofStr "runs") lifecycle hp.request (.error failure)) .empty t₂
      (.error (.err failure.error)) .empty := run_rollback_fail.2 ⟨rfl, rfl, ht₂⟩
  have hrun := seen_run (hruns _ _ _ _ hfinish)
  have hthrough : CalledThrough .standard toldContents (fun _ => spawned)
      (t₁ ++ ⟨.lifecycle hp.request, .error failure⟩ :: t₂) := by
    intro request answer hm
    rcases mem_one_call.1 hm with hm | hm | hm
    · exact absurd (ht₁ _ hm) id
    · cases hm
      exact hexecute.symm
    · obtain ⟨id, a, he⟩ := ht₂.mem hm
      cases he
  have hclock : ∀ message, ⟨.clock, .error message⟩ ∉ t₁ ++ ⟨.lifecycle hp.request, .error failure⟩ :: t₂ := by
    intro message hm
    rcases mem_one_call.1 hm with hm | hm | hm
    · exact ht₁ _ hm
    · cases hm
    · obtain ⟨id, a, he⟩ := ht₂.mem hm
      cases he
  obtain ⟨request, hrequest, haccounts⟩ :=
    apply_accounts .standard toldContents (fun _ => spawned) demo demo_valid (.ofStr "runs")
  exact ⟨request, _, _, _, hrequest, hrun, hthrough, (haccounts _ _ _ _ hrun hthrough).2 hclock, rfl⟩

end PhenoCompose
