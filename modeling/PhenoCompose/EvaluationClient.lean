/-
An action through `ProcessEvaluationClient`: what the job on file tells of the NanoVMS process.

The request is written to the process as JSON; both its outputs are read to their ends, each kept up to a bound, and it
is waited for so long. A response counts if it was read whole from a process that ended in time. Where none does, what
was kept of the outputs is the evidence.

- `execute_returns`: the client answers, once both outputs have come to an end.
- `execute_evidence`, `execute_responded`: what it answers, in terms of the process.
- `evaluation_served`: a process that keeps to the wire types is, to its client, the function it computes.
- `job_tells_process`: what a run of an action leaves on file, in terms of the process.
-/
import PhenoCompose.BoundedString
import PhenoCompose.LifecycleClient
import PhenoCompose.Rejection

namespace PhenoCompose

open Core.Json Core.Path Core.Process Core.Stream Core.Text

/-! ## Wire types -/

def ResourceObservation.codec : Codec ResourceObservation :=
  record ((required "scope" .string (·.scope)).and <|
    (skippedEmpty "scope_id" (·.scopeId)).and
    (required "observed_index" .i32 (·.observedIndex)))
    (fun (scope, scopeId, observedIndex) => { scope, scopeId, observedIndex }) (fun _ => rfl) (by decide)

def ResourceGpu.codec : Codec ResourceGpu :=
  record ((required "uuid" .string (·.uuid)).and <|
    (skippedNone "name" optionString (·.name)).and <|
    (skippedNone "architecture" optionString (·.architecture)).and <|
    (skippedNone "compute_capability" optionString (·.computeCapability)).and <|
    (skippedEmpty "driver_version" (·.driverVersion)).and <|
    (skippedEmpty "driver_cuda_ceiling" (·.driverCudaCeiling)).and
    (required "observations" (.vec ResourceObservation.codec) (·.observations)))
    (fun (uuid, name, architecture, computeCapability, driverVersion, driverCudaCeiling, observations) =>
      { uuid, name, architecture, computeCapability, driverVersion, driverCudaCeiling, observations })
    (fun _ => rfl) (by decide)

def ArtifactRequirements.codec : Codec ArtifactRequirements :=
  record ((required "cuda_toolkit" .string (·.cudaToolkit)).and
    (required "compiled_kernels" .bool (·.compiledKernels)))
    (fun (cudaToolkit, compiledKernels) => { cudaToolkit, compiledKernels }) (fun _ => rfl) (by decide)

def ResourceManifest.codec : Codec ResourceManifest :=
  record ((required "version" .string (·.version)).and <|
    (required "gpus" (.vec ResourceGpu.codec) (·.gpus)).and
    (required "artifact" ArtifactRequirements.codec (·.artifact)))
    (fun (version, gpus, artifact) => { version, gpus, artifact }) (fun _ => rfl) (by decide)

def EvaluationRequest.codec : Codec EvaluationRequest :=
  record ((required "version" .string (·.version)).and <|
    (required "backend" .string (·.backend)).and <|
    (skippedEmptyVec "fallback_backends" (·.fallbackBackends)).and <|
    (required "manifest_sha256" .string (·.manifestSha256)).and <|
    (required "executable" .string (·.executable)).and <|
    (required "argv" (.vec .string) (·.argv)).and <|
    (skippedEmptyMap "environment" (·.environment)).and <|
    (required "external_engine_token" .string (·.externalEngineToken)).and <|
    (required "podman_pipe" .string (·.podmanPipe)).and <|
    (skippedEmpty "wsl_distribution" (·.wslDistribution)).and <|
    (required "output_root" .string (·.outputRoot)).and <|
    (required "reservation_path" .string (·.reservationPath)).and <|
    (required "lock_invocation" (.vec .string) (·.lockInvocation)).and <|
    (required "resource_manifest" ResourceManifest.codec (·.resourceManifest)).and <|
    (required "gpu_bindings" (.vec GpuBinding.codec) (·.gpuBindings)).and <|
    (required "timeout_millis" .i64 (·.timeoutMillis)).and
    (required "max_output_bytes" .u64 (·.maxOutputBytes)))
    (fun (version, backend, fallbackBackends, manifestSha256, executable, argv, environment, externalEngineToken,
        podmanPipe, wslDistribution, outputRoot, reservationPath, lockInvocation, resourceManifest, gpuBindings,
        timeoutMillis, maxOutputBytes) =>
      { version, backend, fallbackBackends, manifestSha256, executable, argv, environment, externalEngineToken,
        podmanPipe, wslDistribution, outputRoot, reservationPath, lockInvocation, resourceManifest, gpuBindings,
        timeoutMillis, maxOutputBytes })
    (fun _ => rfl) (by decide)

/-! ## The outputs of a process -/

/-- an output that ends, read from where so much of it was captured -/
theorem read_loop_pipe (limit : ℕ) {reads : ℕ} {pipe rest : Pipe IoError} {stream : Bytes}
    {r : Except IoError BoundedBytes} (h : readBoundedLoop limit reads pipe (capture limit stream) = some (r, rest)) :
    r = (fun later => capture limit (stream ++ later)) <$> pipe.contents := by
  induction reads generalizing pipe stream with
  | zero => cases h
  | succ reads ih =>
    rcases hread : Read.read pipe readBuffer with ⟨given, pipe'⟩
    have hgives := Pipe.read_contents (by decide) hread
    rw [readBoundedLoop, hread] at h
    cases hgives with
    | failed contents =>
      cases h
      rw [contents]
      rfl
    | ended contents =>
      cases h
      rw [contents]
      exact congrArg (fun all => Except.ok (capture limit all)) (List.append_nil stream).symm
    | piece nonempty contents =>
      dsimp only at h
      rw [if_neg (mt List.length_eq_zero_iff.1 nonempty), capture_append] at h
      rw [ih h, contents, ← LawfulFunctor.comp_map]
      simp only [Function.comp_def, List.append_assoc]

theorem read_loop_returns (limit : ℕ) {reads : ℕ} {pipe : Pipe IoError} (h : pipe.size < reads) (captured : BoundedBytes) :
    (readBoundedLoop limit reads pipe captured).isSome = true := by
  induction reads generalizing pipe captured with
  | zero => cases h
  | succ reads ih =>
    rcases hread : Read.read pipe readBuffer with ⟨given, pipe'⟩
    have hgives := Pipe.read_contents (by decide) hread
    rw [readBoundedLoop, hread]
    cases hgives with
    | failed | ended => rfl
    | piece nonempty contents smaller =>
      dsimp only
      rw [if_neg (mt List.length_eq_zero_iff.1 nonempty)]
      exact ih (by omega) _

/-- what is kept of an output is the front of all there was on it, unless a read failed -/
theorem read_bounded_pipe {limit reads : ℕ} {pipe rest : Pipe IoError} {r : Except IoError BoundedBytes}
    (h : readBoundedWithin reads pipe limit = some (r, rest)) : r = capture limit <$> pipe.contents := by
  rw [readBoundedWithin, ← capture_nil limit] at h
  exact read_loop_pipe limit h

/-! ## What the client makes of a process -/

abbrev EvaluationChild := Except IoError (Child (Pipe IoError))

/-- the process took its request, and this is what there was on its outputs and how it ended -/
inductive Heard : EvaluationChild → Except IoError Bytes → Except IoError Bytes →
    Except IoError (Option (Option Int32)) → Prop where
  | heard {stdout stderr : Pipe IoError} {waited : Except IoError (Option (Option Int32))} :
      Heard (.ok ⟨some (.ok ()), some stdout, some stderr, waited⟩) stdout.contents stderr.contents waited

variable (lib : Externals) (contentsOf : Bytes → Contents)

/-- what is written to the process -/
def EvaluationRequest.line (request : EvaluationRequest) : Bytes :=
  lib.toVec (EvaluationRequest.codec.encode request) ++ [10]

/-- it ended in time, and what it wrote is a response within the bound -/
def Spoke (spawned : EvaluationChild) (status : Option Int32) (result : EvaluationResult) : Prop :=
  ∃ stdout stderr, Heard spawned (.ok stdout) (.ok stderr) (.ok (some status)) ∧ stdout.length ≤ responseLimit ∧
    fromSlice lib contentsOf stdout = .ok result

/-- a response that counts -/
def Responded (spawned : EvaluationChild) (result : EvaluationResult) : Prop :=
  ∃ status, Spoke lib contentsOf spawned status result ∧ (status = some 0 ∨ status = some 4)

/-- what is kept of the outputs where there is no response -/
def keptEvidence (stdout stderr : Bytes) (waited : Except IoError (Option (Option Int32))) : Lifecycle :=
  let evidence := Lifecycle.localFailure lib (stdout.take responseLimit) (stderr.take stderrLimit)
  match waited with
  | .error _ => evidence
  | .ok none =>
    { evidence with
      timedOut := true
      truncated := decide (responseLimit < stdout.length) || decide (stderrLimit < stderr.length) }
  | .ok (some _) => { evidence with truncated := decide (responseLimit < stdout.length) }

/-- the evidence that there is of a process: that of its response, however it exited; else its outputs, if they were
read; else nothing -/
inductive Evidence (spawned : EvaluationChild) : Lifecycle → Prop where
  | spoke {status : Option Int32} {result : EvaluationResult} (spoke : Spoke lib contentsOf spawned status result) :
      Evidence spawned result.lifecycle
  | silent {stdout stderr : Bytes} {waited : Except IoError (Option (Option Int32))}
      (heard : Heard spawned (.ok stdout) (.ok stderr) waited)
      (nothing : ∀ status result, ¬Spoke lib contentsOf spawned status result) :
      Evidence spawned (keptEvidence lib stdout stderr waited)
  | unheard (nothing : ∀ stdout stderr waited, ¬Heard spawned (.ok stdout) (.ok stderr) waited) :
      Evidence spawned (Lifecycle.localFailure lib [] [])

section
variable {lib contentsOf} {spawned : EvaluationChild} {answer : Except EvaluationFailure EvaluationResult}

theorem Heard.unique {stdout stderr stdout' stderr' : Except IoError Bytes}
    {waited waited' : Except IoError (Option (Option Int32))} (h : Heard spawned stdout stderr waited)
    (h' : Heard spawned stdout' stderr' waited') : stdout = stdout' ∧ stderr = stderr' ∧ waited = waited' := by
  cases h
  cases h'
  exact ⟨rfl, rfl, rfl⟩

theorem Spoke.unique {status status' : Option Int32} {result result' : EvaluationResult}
    (h : Spoke lib contentsOf spawned status result) (h' : Spoke lib contentsOf spawned status' result') :
    status = status' ∧ result = result' := by
  obtain ⟨stdout, stderr, hheard, -, hparse⟩ := h
  obtain ⟨stdout', stderr', hheard', -, hparse'⟩ := h'
  obtain ⟨hstdout, -, hwaited⟩ := hheard.unique hheard'
  cases hstdout
  cases hwaited
  exact ⟨rfl, Except.ok.inj (hparse.symm.trans hparse')⟩

/-- the client gives up with nothing in hand, or goes by all there was on both outputs, up to the bounds -/
theorem execute_evaluated {reads : ℕ}
    (h : ProcessEvaluationClient.executeWithin lib contentsOf reads spawned = some answer) :
    (∃ error, answer = .error (.new lib error [] [])) ∧ (∀ stdout stderr waited, ¬Heard spawned stdout stderr waited) ∨
      ∃ stdout stderr waited, Heard spawned stdout stderr waited ∧ answer =
        finishExecute lib contentsOf waited (capture responseLimit <$> stdout) (capture stderrLimit <$> stderr) := by
  rcases spawned with error | ⟨_ | error | ⟨⟨⟩⟩, _ | stdout, _ | stderr, waited⟩
  case ok.some.ok.some.some =>
    obtain ⟨⟨out, _⟩, hout, hrest⟩ := Option.bind_eq_some_iff.1 h
    obtain ⟨⟨err, _⟩, herr, hfinish⟩ := Option.bind_eq_some_iff.1 hrest
    refine .inr ⟨_, _, _, .heard, ?_⟩
    rw [← read_bounded_pipe hout, ← read_bounded_pipe herr]
    exact (Option.some.inj hfinish).symm
  all_goals
    cases h
    refine .inl ⟨⟨_, rfl⟩, ?_⟩
    rintro _ _ _ ⟨⟩

/-- the client returns, once both outputs have come to an end -/
theorem execute_returns (lib : Externals) (contentsOf : Bytes → Contents) (spawned : EvaluationChild) :
    ∃ enough, ∀ reads, enough ≤ reads →
      (ProcessEvaluationClient.executeWithin lib contentsOf reads spawned).isSome = true := by
  rcases spawned with error | ⟨_ | error | ⟨⟨⟩⟩, _ | stdout, _ | stderr, waited⟩
  case ok.some.ok.some.some =>
    refine ⟨stdout.size + stderr.size + 1, fun reads hreads => ?_⟩
    obtain ⟨out, hout⟩ := Option.isSome_iff_exists.1
      (read_loop_returns responseLimit (show stdout.size < reads by omega) ⟨[], false⟩)
    obtain ⟨err, herr⟩ := Option.isSome_iff_exists.1
      (read_loop_returns stderrLimit (show stderr.size < reads by omega) ⟨[], false⟩)
    simp only [ProcessEvaluationClient.executeWithin, readBoundedWithin, hout, herr]
    rfl
  all_goals exact ⟨0, fun _ _ => rfl⟩

/-- what is kept of two outputs that could be read -/
theorem finishExecute_cases (waited : Except IoError (Option (Option Int32))) (stdout stderr : Bytes) :
    (∃ status result, waited = .ok (some status) ∧ stdout.length ≤ responseLimit ∧
        fromSlice lib contentsOf stdout = .ok result ∧
        finishExecute lib contentsOf waited (.ok (capture responseLimit stdout)) (.ok (capture stderrLimit stderr)) =
          exitResult status (capture stderrLimit stderr) result) ∨
      (∀ status result, ¬(waited = .ok (some status) ∧ stdout.length ≤ responseLimit ∧
          fromSlice lib contentsOf stdout = .ok result)) ∧
        ∃ failure, finishExecute lib contentsOf waited (.ok (capture responseLimit stdout))
            (.ok (capture stderrLimit stderr)) = .error failure ∧
          failure.lifecycle = keptEvidence lib stdout stderr waited := by
  rcases waited with error | _ | status
  · exact .inr ⟨by rintro _ _ ⟨⟨⟩, -⟩, _, rfl, rfl⟩
  · exact .inr ⟨by rintro _ _ ⟨⟨⟩, -⟩, _, rfl, rfl⟩
  by_cases hlong : responseLimit < stdout.length
  · have hcut : (capture responseLimit stdout).truncated = true := decide_eq_true hlong
    refine .inr ⟨fun _ _ hx => absurd hlong (not_lt.2 hx.2.1), _, if_pos hcut, ?_⟩
    simp only [keptEvidence, hlong, decide_true]
    rfl
  · have hwhole : stdout.length ≤ responseLimit := not_lt.1 hlong
    have hcut : (capture responseLimit stdout).truncated ≠ true := by simpa [capture] using hlong
    have hbytes : (capture responseLimit stdout).bytes = stdout := List.take_of_length_le hwhole
    have hfinish : finishExecute lib contentsOf (.ok (some status)) (.ok (capture responseLimit stdout))
        (.ok (capture stderrLimit stderr)) = _ := if_neg hcut
    rw [hbytes] at hfinish
    rw [hfinish]
    cases fromSlice lib contentsOf stdout with
    | ok result => exact .inl ⟨status, result, rfl, hwhole, rfl, rfl⟩
    | error error =>
      refine .inr ⟨by rintro _ _ ⟨-, -, ⟨⟩⟩, _, rfl, ?_⟩
      simp only [keptEvidence, hlong, decide_false, List.take_of_length_le hwhole]
      rfl

theorem exitResult_received (status : Option Int32) (stderr : BoundedBytes) (result : EvaluationResult) :
    received (exitResult status stderr result) = result.lifecycle := by
  unfold exitResult
  split_ifs <;> rfl

/-- an output that could not be read leaves no evidence, and no answer -/
theorem finishExecute_unread {waited : Except IoError (Option (Option Int32))}
    {stdout stderr : Except IoError BoundedBytes} (h : (∃ error, stdout = .error error) ∨ ∃ error, stderr = .error error) :
    ∃ error, finishExecute lib contentsOf waited stdout stderr = .error (.new lib error [] []) := by
  rcases h with ⟨error, rfl⟩ | ⟨error, rfl⟩
  · exact ⟨_, rfl⟩
  · cases stdout with
    | error error => exact ⟨_, rfl⟩
    | ok stdout => exact ⟨_, rfl⟩

/-- what the caller is told of the process is the evidence that there is of it -/
theorem execute_evidence {reads : ℕ}
    (h : ProcessEvaluationClient.executeWithin lib contentsOf reads spawned = some answer) :
    Evidence lib contentsOf spawned (received answer) := by
  rcases execute_evaluated h with ⟨⟨error, rfl⟩, hnothing⟩ | ⟨stdout, stderr, waited, hheard, rfl⟩
  · exact .unheard fun stdout stderr waited => hnothing _ _ _
  have hunread : ((∃ error, stdout = .error error) ∨ ∃ error, stderr = .error error) →
      Evidence lib contentsOf spawned (received (finishExecute lib contentsOf waited
        (capture responseLimit <$> stdout) (capture stderrLimit <$> stderr))) := by
    intro hfailed
    have hcaptured : (∃ error, capture responseLimit <$> stdout = .error error) ∨
        ∃ error, capture stderrLimit <$> stderr = .error error := by
      rcases hfailed with ⟨error, rfl⟩ | ⟨error, rfl⟩
      · exact .inl ⟨error, rfl⟩
      · exact .inr ⟨error, rfl⟩
    obtain ⟨error, he⟩ := finishExecute_unread hcaptured
    rw [he]
    refine .unheard fun stdout' stderr' waited' hheard' => ?_
    obtain ⟨rfl, rfl, -⟩ := hheard.unique hheard'
    rcases hfailed with ⟨error, he⟩ | ⟨error, he⟩ <;> cases he
  cases stdout with
  | error error => exact hunread (.inl ⟨error, rfl⟩)
  | ok stdout =>
    cases stderr with
    | error error => exact hunread (.inr ⟨error, rfl⟩)
    | ok stderr =>
      rcases finishExecute_cases waited stdout stderr with
        ⟨status, result, rfl, hwhole, hparse, he⟩ | ⟨hnothing, failure, he, hkept⟩
      · have hreceived : received (finishExecute lib contentsOf (.ok (some status)) (.ok (capture responseLimit stdout))
            (.ok (capture stderrLimit stderr))) = result.lifecycle := by rw [he, exitResult_received]
        exact hreceived ▸ .spoke ⟨stdout, stderr, hheard, hwhole, hparse⟩
      · have hreceived : received (finishExecute lib contentsOf waited (.ok (capture responseLimit stdout))
            (.ok (capture stderrLimit stderr))) = keptEvidence lib stdout stderr waited := by rw [he, ← hkept, received]
        refine hreceived ▸ .silent hheard ?_
        intro status result hspoke
        obtain ⟨stdout', stderr', hheard', hwhole, hparse⟩ := hspoke
        obtain ⟨hsame, -, hwaited⟩ := hheard.unique hheard'
        cases hsame
        exact hnothing status result ⟨hwaited, hwhole, hparse⟩

/-- it gets a result where there is a response that counts, and nowhere else -/
theorem execute_responded {reads : ℕ}
    (h : ProcessEvaluationClient.executeWithin lib contentsOf reads spawned = some answer) (result : EvaluationResult) :
    answer = .ok result ↔ Responded lib contentsOf spawned result := by
  rcases execute_evaluated h with ⟨⟨error, rfl⟩, hnothing⟩ | ⟨stdout, stderr, waited, hheard, rfl⟩
  · refine ⟨nofun, ?_⟩
    rintro ⟨status, ⟨stdout, stderr, hheard, -⟩, -⟩
    exact absurd hheard (hnothing _ _ _)
  refine ⟨?_, ?_⟩
  · intro hok
    rcases stdout with error | stdout
    · cases hok
    rcases stderr with error | stderr
    · cases hok
    obtain ⟨hwhole, hparse, status, rfl, hstatus⟩ := finishExecute_ok hok
    exact ⟨status, ⟨stdout, stderr, hheard, hwhole, hparse⟩, hstatus⟩
  · rintro ⟨status, ⟨stdout', stderr', hheard', hwhole, hparse⟩, hstatus⟩
    obtain ⟨rfl, rfl, rfl⟩ := hheard.unique hheard'
    rcases finishExecute_cases (.ok (some status)) stdout' stderr' with
      ⟨status', result', hsame, -, hparse', he⟩ | ⟨hnothing, -⟩
    · cases hsame
      obtain rfl := Except.ok.inj (hparse.symm.trans hparse')
      exact he.trans (if_pos hstatus)
    · exact absurd ⟨rfl, hwhole, hparse⟩ (hnothing status result)

theorem Evidence.unique {told told' : Lifecycle} (h : Evidence lib contentsOf spawned told)
    (h' : Evidence lib contentsOf spawned told') : told = told' := by
  cases h with
  | spoke hspoke =>
    cases h' with
    | spoke hspoke' => rw [(hspoke.unique hspoke').2]
    | silent _ hnothing => exact absurd hspoke (hnothing _ _)
    | unheard hnothing =>
      obtain ⟨stdout, stderr, hheard, -⟩ := hspoke
      exact absurd hheard (hnothing _ _ _)
  | silent hheard hnothing =>
    cases h' with
    | spoke hspoke' => exact absurd hspoke' (hnothing _ _)
    | silent hheard' _ =>
      obtain ⟨hstdout, hstderr, rfl⟩ := hheard.unique hheard'
      rw [Except.ok.inj hstdout, Except.ok.inj hstderr]
    | unheard hnothing' => exact absurd hheard (hnothing' _ _ _)
  | unheard hnothing =>
    cases h' with
    | spoke hspoke' =>
      obtain ⟨stdout, stderr, hheard, -⟩ := hspoke'
      exact absurd hheard (hnothing _ _ _)
    | silent hheard' _ => exact absurd hheard' (hnothing _ _ _)
    | unheard => rfl

end

/-! ## A process that keeps to the wire types -/

/-- read the request, answer with what is made of it, and exit with 0 in time; what cannot be read is rejected -/
def serveEvaluation (backend : EvaluationRequest → EvaluationResult) (line : Bytes) : EvaluationChild :=
  match lib.fromStr "EvaluationRequest" EvaluationRequest.codec (contentsOf line) with
  | .ok request =>
    .ok ⟨some (.ok ()), some ⟨[.ok (lib.toVec (EvaluationResult.codec.encode (backend request)))]⟩, some ⟨[]⟩,
      .ok (some (some 0))⟩
  | .error _ => .ok ⟨some (.ok ()), some ⟨[]⟩, some ⟨[]⟩, .ok (some (some 3))⟩

theorem contents_piece (piece : Bytes) : Pipe.contents (⟨[.ok piece]⟩ : Pipe IoError) = .ok piece := by
  cases piece with
  | nil => rfl
  | cons byte piece => exact congrArg Except.ok (List.append_nil _)

/-- the client of such a process gets what the backend computes, where it fits the bound -/
theorem evaluation_served {backend : EvaluationRequest → EvaluationResult} {request : EvaluationRequest}
    (hrequest : contentsOf (request.line lib) = .json (EvaluationRequest.codec.encode request))
    (hresponse : contentsOf (lib.toVec (EvaluationResult.codec.encode (backend request))) =
      .json (EvaluationResult.codec.encode (backend request)))
    (hfits : (lib.toVec (EvaluationResult.codec.encode (backend request))).length ≤ responseLimit) {reads : ℕ}
    {answer : Except EvaluationFailure EvaluationResult} (h : ProcessEvaluationClient.executeWithin lib contentsOf reads
      (serveEvaluation lib contentsOf backend (request.line lib)) = some answer) : answer = .ok (backend request) := by
  let response := lib.toVec (EvaluationResult.codec.encode (backend request))
  have hserve : serveEvaluation lib contentsOf backend (request.line lib) =
      .ok ⟨some (.ok ()), some ⟨[.ok response]⟩, some ⟨[]⟩, .ok (some (some 0))⟩ := by
    rw [serveEvaluation, hrequest, Externals.fromStr_encode]
  have hread : fromSlice lib contentsOf response = .ok (backend request) := by
    rw [fromSlice, hresponse]
    simp only [Codec.decode_encode]
  have hheard : Heard (.ok ⟨some (.ok ()), some ⟨[.ok response]⟩, some ⟨[]⟩, .ok (some (some 0))⟩)
      (Pipe.contents ⟨[.ok response]⟩) (Pipe.contents ⟨[]⟩) (.ok (some (some 0))) := .heard
  rw [contents_piece] at hheard
  refine (execute_responded h _).2 ⟨some 0, ⟨response, [], ?_, hfits, hread⟩, .inl rfl⟩
  rw [hserve]
  exact hheard

/-! ## An action through the client -/

/-- the client was asked about processes that behave like this -/
def EvaluatedThrough (nvms : Bytes → EvaluationChild) (t : Trace) : Prop :=
  ∀ request answer, (request, answer) ∈ evaluations t →
    ∃ reads, ProcessEvaluationClient.executeWithin lib contentsOf reads (nvms (request.line lib)) = some answer

/-- what is saved for an answer: its evidence, and whether it is a result that attests a success -/
theorem finishAction_saved {stateDir : PathBuf} {job : JobProvenance} {request : EvaluationRequest}
    {answer : Except EvaluationFailure EvaluationResult} {fs fs' : FileSystem} {t : Trace}
    {r : Except (Stop CliError) JobProvenance}
    (h : Run Step (finishAction lib stateDir job request answer) fs t r fs') :
    ∃ saved out, Saves stateDir saved out fs t r fs' ∧ saved.runId = job.runId ∧ saved.jobId = job.jobId ∧
      saved.lifecycle = some (trustworthyFailureLifecycle lib (received answer) request.maxOutputBytes.toNat) ∧
      (saved.success = true ↔ ∃ result, answer = .ok result ∧ Attested lib request result ∧ result.success = true) := by
  cases answer with
  | error failure => exact ⟨_, _, run_save_then.1 h, rfl, rfl, rfl, ⟨nofun, fun ⟨_, he, _⟩ => nomatch he⟩⟩
  | ok result =>
    rcases finishAction_result lib h with ⟨error, hrefused, hsaves⟩ | ⟨hvalid, hsuccess, hsaves⟩
    · refine ⟨_, _, hsaves, rfl, rfl, rfl, ⟨nofun, ?_⟩⟩
      rintro ⟨result', he, hattested, hsuccess'⟩
      obtain rfl := Except.ok.inj he
      rcases hrefused with hrefused | ⟨-, hsuccess, -⟩
      · rw [(validateEvaluationResult_ok_iff lib).2 hattested] at hrefused
        cases hrefused
      · rw [hsuccess'] at hsuccess
        cases hsuccess
    · refine ⟨_, _, hsaves, rfl, rfl, rfl, fun _ => ?_, fun _ => rfl⟩
      exact ⟨result, rfl, (validateEvaluationResult_ok_iff lib).1 hvalid, hsuccess⟩

/-- **A job on file tells of the process.** An action that asked the client about a process, and put a job in place: the
job is a success exactly when the process took its request, ended in time with 0 or 4, and wrote within the bound a result
that attests a success; and its evidence is, made trustworthy, that of the response, however the process exited; or else
what was kept of its outputs, with the mark of an overdue process; or nothing where they were not read. -/
theorem job_tells_process (nvms : Bytes → EvaluationChild) {workspaceBase stateDir : PathBuf}
    {runId actionName jobId : String} {fs fs' : FileSystem} {t : Trace} {r : Except (Stop CliError) JobProvenance}
    (h : Run Step (runActionWithClientAt lib workspaceBase stateDir runId actionName jobId) fs t r fs')
    (hthrough : EvaluatedThrough lib contentsOf nvms t)
    (hwritten : fs'.files (jobPath stateDir runId jobId).components ≠
      fs.files (jobPath stateDir runId jobId).components) {request : EvaluationRequest}
    {answer : Except EvaluationFailure EvaluationResult} (hasked : (request, answer) ∈ evaluations t) :
    ∃ saved, fs'.files (jobPath stateDir runId jobId).components =
        some (.json (JobProvenance.codec.encode saved)) ∧
      (saved.success = true ↔ ∃ result, Responded lib contentsOf (nvms (request.line lib)) result ∧
        Attested lib request result ∧ result.success = true) ∧
      (∃ told, Evidence lib contentsOf (nvms (request.line lib)) told) ∧
      ∀ told, Evidence lib contentsOf (nvms (request.line lib)) told →
        saved.lifecycle = some (trustworthyFailureLifecycle lib told request.maxOutputBytes.toNat) := by
  rcases runAction_parts lib h with ⟨-, -, rfl, -⟩ | ⟨state, service, job, t₁, t₂, t₃, rfl, hprepare, hrest⟩
  · exact absurd rfl hwritten
  obtain ⟨hslug, hjslug, -, -, hcheck, -⟩ := prepareAction_ok lib hprepare
  obtain ⟨action, closure, bindings, -, hinitial⟩ := (checkAction_ok lib hcheck).initial
  have hlook := (prepareAction_only lib stateDir runId actionName jobId).mem hprepare
  rcases hrest with ⟨error, hbuild, hsaves⟩ | ⟨request', answer', t₄, rfl, hbuild, hfinish⟩
  · rw [evaluations_unasked hlook ((build_only _ _ _ _ _).mem hbuild) hsaves.evaluations] at hasked
    cases hasked
  · obtain ⟨saved, out, hsaves, hrun, hjob, hlifecycle, hsuccess⟩ := finishAction_saved lib hfinish
    obtain ⟨reads, hexecute⟩ := hthrough request answer hasked
    rw [evaluations_asked hlook ((build_only _ _ _ _ _).mem hbuild) hsaves.evaluations] at hasked
    obtain ⟨rfl, rfl⟩ := Prod.mk.inj (List.mem_singleton.1 hasked)
    obtain ⟨-, hfile⟩ := hsaves.written hslug hjslug (by rw [hrun, hinitial]; rfl) (by rw [hjob, hinitial]; rfl) hwritten
    refine ⟨saved, hfile, ?_, ⟨_, execute_evidence hexecute⟩, ?_⟩
    · rw [hsuccess]
      exact exists_congr fun result => and_congr_left fun _ => execute_responded hexecute result
    · intro told htold
      rw [hlifecycle, (execute_evidence hexecute).unique htold]

/-- it took its request, wrote two bytes, and did not end in time -/
def overdue : EvaluationChild := .ok ⟨some (.ok ()), some ⟨[.ok [104, 105]]⟩, some ⟨[]⟩, .ok none⟩

/-- what the client makes of it -/
def overdueAnswer : Except EvaluationFailure EvaluationResult :=
  finishExecute .standard .text (.ok none) (.ok (capture responseLimit [104, 105])) (.ok (capture stderrLimit []))

theorem overdue_executed :
    ProcessEvaluationClient.executeWithin .standard .text 3 overdue = some overdueAnswer := by decide +kernel

/-- the action of `demo`, by such a process -/
def waitedOut : Trace × Except (Stop CliError) JobProvenance × FileSystem :=
  exec (perform { cleanEvaluation with evaluation := fun _ => overdueAnswer }) evaluate (runFiles demo)

theorem waitedOut_answers : (evaluations waitedOut.1).map Prod.snd = [overdueAnswer] := by decide +kernel

theorem waitedOut_written :
    (waitedOut.2.2.files (jobPath (.ofStr "runs") "demo-000000000000" "job-1").components).isSome = true := by
  decide +kernel

/-- the job of an overdue process is a failure that says so -/
theorem job_tells_process_example : ∃ saved lifecycle,
    waitedOut.2.2.files (jobPath (.ofStr "runs") "demo-000000000000" "job-1").components =
      some (.json (JobProvenance.codec.encode saved)) ∧
    saved.success = false ∧ saved.lifecycle = some lifecycle ∧ lifecycle.timedOut = true := by
  have hrun : Run Step evaluate (runFiles demo) waitedOut.1 waitedOut.2.1 waitedOut.2.2 :=
    run_perform waitedOut.eq_def.symm
  have hanswers : ∀ e ∈ evaluations waitedOut.1, e.2 = overdueAnswer := fun e he =>
    List.mem_singleton.1 (waitedOut_answers ▸ List.mem_map_of_mem (f := Prod.snd) he)
  have hthrough : EvaluatedThrough .standard .text (fun _ => overdue) waitedOut.1 := fun request answer hm =>
    ⟨3, overdue_executed.trans (congrArg some (hanswers _ hm).symm)⟩
  obtain ⟨⟨request, answer⟩, hasked, -⟩ := List.mem_map.1 (waitedOut_answers ▸ List.mem_singleton_self overdueAnswer)
  obtain ⟨saved, hfile, hsuccess, -, hlifecycle⟩ :=
    job_tells_process .standard .text (fun _ => overdue) hrun hthrough
      (by rw [runFiles_job]; exact Option.isSome_iff_ne_none.1 waitedOut_written) hasked
  have hheard : Heard overdue (.ok [104, 105]) (.ok []) (.ok none) := .heard
  have hnothing : ∀ status result, ¬Spoke .standard .text overdue status result := by
    rintro status result ⟨stdout, stderr, hheard', -⟩
    exact nomatch (hheard.unique hheard').2.2
  refine ⟨saved, _, hfile, ?_, hlifecycle _ (.silent hheard hnothing), rfl⟩
  refine Bool.eq_false_iff.2 fun hs => ?_
  obtain ⟨result, ⟨status, hspoke, -⟩, -⟩ := hsuccess.1 hs
  exact hnothing _ _ hspoke

end PhenoCompose
