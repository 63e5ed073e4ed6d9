/-
What an action guarantees, whatever the evaluation client answers and the file system does.

- `action_fails_closed`: a job is returned only for a result that attests everything that was asked for, and is what was
  recorded.
- `recorded_evidence`: recorded evidence is bounded and agrees with its digests, and says so when it was cut.
- `action_accounted`: a run either fails in a check and changes nothing, or calls the client at most once and records one
  job, provided the closure of the action's service is complete; where it is not, the process panics.
-/
import PhenoCompose.Action

namespace PhenoCompose

open Core.Collections Core.Json Core.Path Core.Process Core.Text

variable (lib : Externals)

/-! ## The calls of the client -/

def evaluation : Event Answer → Option (EvaluationRequest × Except EvaluationFailure EvaluationResult)
  | ⟨.evaluation request, answer⟩ => some (request, answer)
  | _ => none

/-- the calls of the evaluation client in a run, with its answers -/
def evaluations (t : Trace) : List (EvaluationRequest × Except EvaluationFailure EvaluationResult) :=
  t.filterMap evaluation

theorem evaluations_looking {t : Trace} (h : ∀ e ∈ t, Event.looking e) : evaluations t = [] := by
  apply List.filterMap_eq_nil_iff.2
  intro e he
  have hl := h e he
  obtain ⟨call, a⟩ := e
  cases call
  case evaluation => exact hl.elim
  all_goals rfl

theorem evaluations_storing {t : Trace} (h : ∀ e ∈ t, Event.storing e) : evaluations t = [] := by
  apply List.filterMap_eq_nil_iff.2
  intro e he
  have hs := h e he
  obtain ⟨call, a⟩ := e
  cases call
  case evaluation => exact hs.elim
  all_goals rfl

/-! ## One save -/

section
variable {stateDir : PathBuf} {runId jobId : String} {saved : JobProvenance}
  {out r : Except (Stop CliError) JobProvenance} {fs fs' : FileSystem} {t : Trace}

/-- a save that goes through puts exactly the file of the job in place; one that does not leaves no such file -/
theorem Saves.spec (h : Saves stateDir saved out fs t r fs') (hr : validateSlug "run_id" runId = .ok ())
    (hj : validateSlug "job_id" jobId = .ok ()) (hrun : saved.runId = runId) (hjob : saved.jobId = jobId) :
    (r = out ∧ fs'.files = Function.update fs.files (jobPath stateDir runId jobId).components
        (some (.json (JobProvenance.codec.encode saved)))) ∨
      (∃ error, r = .error (.err error)) ∧ (∃ e ∈ t, Event.saveFailed e) ∧
        fs'.files (jobPath stateDir runId jobId).components =
          fs.files (jobPath stateDir runId jobId).components := by
  subst hrun hjob
  obtain ⟨hrw, -⟩ := slug_word hr
  obtain ⟨hjw, hne⟩ := slug_word hj
  rw [jobPath_components stateDir hrw hjw]
  obtain ⟨r₀, hsave, rfl⟩ := h
  rcases save_job_spec hrw hjw hne hsave with ⟨rfl, hfile⟩ | ⟨error, rfl, hfailed, processId, hkept⟩
  · exact .inl ⟨rfl, hfile⟩
  · exact .inr ⟨⟨error, rfl⟩, hfailed, hkept _ (jobTemporary_ne _ _ _ _).symm⟩

theorem Saves.evaluations (h : Saves stateDir saved out fs t r fs') : evaluations t = [] := by
  obtain ⟨r₀, hsave, -⟩ := h
  exact evaluations_storing ((save_job_only stateDir saved).mem hsave)

end

/-! ## What is recorded for an answer -/

/-- the evidence in an answer of the client -/
def received : Except EvaluationFailure EvaluationResult → Lifecycle
  | .ok result => result.lifecycle
  | .error failure => failure.lifecycle

section
variable {job saved : JobProvenance} {request : EvaluationRequest} {answer : Except EvaluationFailure EvaluationResult}
  {out : Except (Stop CliError) JobProvenance}

theorem Recorded.runId (h : Recorded lib job request answer saved out) :
    saved.runId = job.runId ∧ saved.jobId = job.jobId ∧ saved.maxOutputBytes = job.maxOutputBytes := by
  cases h <;> exact ⟨rfl, rfl, rfl⟩

theorem Recorded.manifestSha256 (h : Recorded lib job request answer saved out) :
    saved.manifestSha256 = job.manifestSha256 := by
  cases h <;> rfl

/-- a job is marked as a success exactly when it is returned -/
theorem Recorded.success_iff (h : Recorded lib job request answer saved out) :
    saved.success = true ↔ ∃ returned, out = .ok returned := by
  cases h with
  | failure | rejected => exact ⟨fun h => absurd h Bool.false_ne_true, fun ⟨_, he⟩ => nomatch he⟩
  | succeeded => exact ⟨fun _ => ⟨_, rfl⟩, fun _ => rfl⟩

theorem Recorded.lifecycle (h : Recorded lib job request answer saved out) : saved.lifecycle =
    some (trustworthyFailureLifecycle lib (received answer) request.maxOutputBytes.toNat) := by
  cases h <;> rfl

end

/-! ## An evaluation that goes well -/

def cleanResult : EvaluationResult where
  version := actionVersion
  success := true
  errorCode := ""
  errorMessage := ""
  lifecycle :=
    { exitCode := 0
      durationMs := 1200
      timedOut := false
      truncated := false
      stdout := "ok"
      stderr := ""
      stdoutSha256 := "2689367b205c16ce32ed4200942b8b8b1e262dfc70d9bc9fbc77c49699a4f1df"
      stderrSha256 := "e3b0c44298fc1c149afbf4c8996fb92427ae41e4649b934ca495991b7852b855" }
  provenance :=
    { manifestSha256 := (twoContainers demo).manifestSha256
      effectiveEngine := "podman"
      resolvedProvider := "podman"
      executionPlane := "nanovms"
      podmanPipe := defaultPodmanPipe
      gpuUuids := [uuidA]
      jobDirectory := ""
      outputRootCreated := true
      outputRootAvailableBytes := none
      toolkitVersion := none
      toolkitRoot := none
      toolkitExecutable := none }
  released := true

def cleanEvaluation : Script where
  podman _ := .ok ⟨true, [], []⟩
  lifecycle _ := .ok ⟨serviceLifecycleVersion, true, "", "", ∅, "podman", "podman", defaultPodmanPipe⟩
  evaluation _ := .ok cleanResult
  clock := .ok 0
  currentDir := .ok (.ofStr "/work")
  processId := 7

/-- the action of `demo`, started from /work -/
def evaluate : Proc CliError JobProvenance :=
  runActionWithClientAt .standard (.ofStr "/work") (.ofStr "runs") "demo-000000000000" "evaluate" "job-1"

/-- its calls, its outcome and the files it leaves -/
def evaluated : Trace × Except (Stop CliError) JobProvenance × FileSystem :=
  exec (perform cleanEvaluation) evaluate (runFiles demo)

theorem evaluated_run : Run Step evaluate (runFiles demo) evaluated.1 evaluated.2.1 evaluated.2.2 :=
  run_perform evaluated.eq_def.symm

theorem evaluated_ok : ∃ job, evaluated.2.1 = .ok job ∧
    (evaluated.2.2.files (jobPath (.ofStr "runs") "demo-000000000000" "job-1").components).isSome = true := by
  have h : (evaluated.2.1.isOk &&
      (evaluated.2.2.files (jobPath (.ofStr "runs") "demo-000000000000" "job-1").components).isSome) = true := by
    decide +kernel
  obtain ⟨hok, hfile⟩ := Bool.and_eq_true_iff.1 h
  cases hr : evaluated.2.1 with
  | ok job => exact ⟨job, rfl, hfile⟩
  | error e =>
    rw [hr] at hok
    cases hok

/-! ## Fail closed -/

variable {workspaceBase stateDir : PathBuf} {runId actionName jobId : String} {fs fs' : FileSystem} {t : Trace}

/-- the calls of the client in the parts of a run that did not ask it, and of one that did -/
theorem evaluations_unasked {t₁ t₂ t₃ : Trace} (h₁ : ∀ e ∈ t₁, Event.looking e) (h₂ : ∀ e ∈ t₂, Event.looking e)
    (h₃ : evaluations t₃ = []) : evaluations (t₁ ++ (t₂ ++ t₃)) = [] := by
  rw [evaluations, List.filterMap_append, List.filterMap_append]
  exact List.append_eq_nil_iff.2 ⟨evaluations_looking h₁, List.append_eq_nil_iff.2 ⟨evaluations_looking h₂, h₃⟩⟩

theorem evaluations_asked {t₁ t₂ t₃ : Trace} {request : EvaluationRequest}
    {answer : Except EvaluationFailure EvaluationResult} (h₁ : ∀ e ∈ t₁, Event.looking e)
    (h₂ : ∀ e ∈ t₂, Event.looking e) (h₃ : evaluations t₃ = []) :
    evaluations (t₁ ++ (t₂ ++ ⟨.evaluation request, answer⟩ :: t₃)) = [(request, answer)] := by
  have hone : evaluations (⟨.evaluation request, answer⟩ :: t₃ : Trace) = (request, answer) :: evaluations t₃ := rfl
  have happ : ∀ u v : Trace, evaluations (u ++ v) = evaluations u ++ evaluations v := fun _ _ => List.filterMap_append
  calc evaluations (t₁ ++ (t₂ ++ ⟨.evaluation request, answer⟩ :: t₃)) =
      evaluations t₁ ++ (evaluations t₂ ++ (request, answer) :: evaluations t₃) := by rw [happ, happ, hone]
    _ = [(request, answer)] := by rw [evaluations_looking h₁, evaluations_looking h₂, h₃, List.nil_append, List.nil_append]

/-- what a result has attested of a job and of the run it belongs to -/
structure Warrants (state : RunState) (job : JobProvenance) (request : EvaluationRequest) (result : EvaluationResult) :
    Prop where
  version : result.version = actionVersion
  manifestSha256 : eqIgnoreAsciiCase result.provenance.manifestSha256 state.manifestSha256 = true
  effectiveEngine : result.provenance.effectiveEngine = "podman"
  resolvedProvider : result.provenance.resolvedProvider = "podman"
  executionPlane : result.provenance.executionPlane = "nanovms"
  podmanPipe : result.provenance.podmanPipe = request.podmanPipe ∧ request.podmanPipe = defaultPodmanPipe
  gpuUuids : result.provenance.gpuUuids.Perm (job.gpuBindings.map (·.uuid))
  gpuUuids_nodup : result.provenance.gpuUuids.Nodup
  duration_nonneg : 0 ≤ result.lifecycle.durationMs
  duration_le : result.lifecycle.durationMs ≤ job.timeoutMillis
  stdout_le : result.lifecycle.stdout.utf8ByteSize ≤ job.maxOutputBytes.toNat
  stderr_le : result.lifecycle.stderr.utf8ByteSize ≤ job.maxOutputBytes.toNat
  stdoutSha256 : eqIgnoreAsciiCase (lib.sha256Hex (bytes result.lifecycle.stdout))
    result.lifecycle.stdoutSha256 = true
  stderrSha256 : eqIgnoreAsciiCase (lib.sha256Hex (bytes result.lifecycle.stderr))
    result.lifecycle.stderrSha256 = true
  success : result.success = true
  released : result.released = true
  exitCode : result.lifecycle.exitCode = 0
  timedOut : result.lifecycle.timedOut = false
  truncated : result.lifecycle.truncated = false
  errorCode : result.errorCode = ""
  errorMessage : result.errorMessage = ""

/-- a job that was returned is the one that was saved, for a result that attests what was requested -/
structure Returned (job : JobProvenance) (request : EvaluationRequest) (result : EvaluationResult)
    (saved returned : JobProvenance) : Prop where
  saved : saved = returned
  attested : Attested lib request result
  result_success : result.success = true
  gpuBindings : returned.gpuBindings = job.gpuBindings
  timeoutMillis : returned.timeoutMillis = job.timeoutMillis
  maxOutputBytes : returned.maxOutputBytes = job.maxOutputBytes
  success : returned.success = true
  lifecycle : returned.lifecycle = some result.lifecycle

theorem Recorded.returned {job saved returned : JobProvenance} {request : EvaluationRequest}
    {answer : Except EvaluationFailure EvaluationResult} (h : Recorded lib job request answer saved (.ok returned)) :
    ∃ result, answer = .ok result ∧ Returned lib job request result saved returned := by
  cases h with
  | succeeded attested success =>
    exact ⟨_, rfl, rfl, attested, success, rfl, rfl, rfl, rfl, congrArg some (trustworthy_attested lib attested)⟩

/-- the GPUs, the limits and the route of a returned job are those of its request -/
theorem Returned.warrants {state : RunState} {job job' saved returned : JobProvenance} {request : EvaluationRequest}
    {result : EvaluationResult} (h : Returned lib job' request result saved returned) (hr : Requested state job request)
    (hd : (job.gpuBindings.map (·.uuid)).Nodup) (hb : job'.gpuBindings = job.gpuBindings)
    (ht : job'.timeoutMillis = job.timeoutMillis) (hm : job'.maxOutputBytes = job.maxOutputBytes) :
    Warrants lib state returned request result := by
  obtain ⟨released, exitCode, timedOut, truncated, errorCode, errorMessage⟩ := h.attested.success h.result_success
  have hperm : result.provenance.gpuUuids.Perm (returned.gpuBindings.map (·.uuid)) := by
    rw [h.gpuBindings, hb]
    apply (List.perm_ext_iff_of_nodup h.attested.gpuUuids_nodup hd).2
    intro uuid
    rw [← h.attested.gpuUuids, hr.gpuBindings]
  have htime : request.timeoutMillis = returned.timeoutMillis := by rw [hr.timeoutMillis, h.timeoutMillis, ht]
  have hmax : request.maxOutputBytes = returned.maxOutputBytes := by
    rw [hr.maxOutputBytes, h.maxOutputBytes, hm]
  exact
    { version := h.attested.version
      manifestSha256 := hr.manifestSha256 ▸ h.attested.manifestSha256
      effectiveEngine := h.attested.effectiveEngine
      resolvedProvider := h.attested.resolvedProvider
      executionPlane := h.attested.executionPlane
      podmanPipe := ⟨h.attested.podmanPipe, hr.podmanPipe⟩
      gpuUuids := hperm
      gpuUuids_nodup := h.attested.gpuUuids_nodup
      duration_nonneg := h.attested.duration_nonneg
      duration_le := htime ▸ h.attested.duration_le
      stdout_le := hmax ▸ h.attested.stdout_le
      stderr_le := hmax ▸ h.attested.stderr_le
      stdoutSha256 := ((validateEvidenceHash_ok_iff lib).1 h.attested.stdoutSha256).2.2
      stderrSha256 := ((validateEvidenceHash_ok_iff lib).1 h.attested.stderrSha256).2.2
      success := h.result_success
      released, exitCode, timedOut, truncated, errorCode, errorMessage }

/-- **Actions fail closed.** A job is returned only if the client was asked once and its result attested the version, the
digest of the run, the exact route, the GPUs of the job and bounded, hashed evidence of a clean exit; the job is then a
success, holds that evidence unchanged, and is what the file of the job contains. -/
theorem action_fails_closed {job : JobProvenance}
    (h : Run Step (runActionWithClientAt lib workspaceBase stateDir runId actionName jobId) fs t (.ok job) fs') :
    ∃ state request result,
      (∃ contents, fs.files (statePath stateDir runId).components = some contents ∧
        lib.fromStr "RunState" RunState.codec contents = .ok state) ∧
      evaluations t = [(request, .ok result)] ∧ Warrants lib state job request result ∧
      job.success = true ∧ job.lifecycle = some result.lifecycle ∧
      fs'.files (jobPath stateDir runId jobId).components = some (.json (JobProvenance.codec.encode job)) := by
  generalize hr : Except.ok job = r at h
  cases runAction_run lib h with
  | refused => cases hr
  | unbuilt checked built saves =>
    obtain ⟨r₀, -, rfl⟩ := saves
    cases r₀ <;> cases hr
  | @asked state service job₀ saved request answer out r t₁ t₂ t₃ fs' checked built recorded saves =>
    subst hr
    obtain ⟨hslug, hjslug, hstate, -, hcheck, -⟩ := prepareAction_ok lib checked
    have hprepared := checkAction_ok lib hcheck
    obtain ⟨action, closure, bindings, -, hinitial⟩ := hprepared.initial
    have hids := recorded.runId
    rcases saves.spec hslug hjslug (by rw [hids.1, hinitial]; rfl) (by rw [hids.2.1, hinitial]; rfl) with
      ⟨rfl, hfile⟩ | ⟨⟨_, he⟩, -⟩
    swap
    · cases he
    have hcalls : evaluations (t₁ ++ (t₂ ++ ⟨.evaluation request, answer⟩ :: t₃)) = [(request, answer)] :=
      evaluations_asked ((prepareAction_only lib _ _ _ _).mem checked) ((build_only _ _ _ _ _).mem built)
        saves.evaluations
    obtain ⟨result, rfl, hreturned⟩ := recorded.returned
    have hwarrants := hreturned.warrants lib (build_ok built) hprepared.distinct rfl rfl rfl
    exact ⟨state, request, result, hstate, hcalls, hwarrants, hreturned.success, hreturned.lifecycle,
      by rw [hfile, Function.update_self, hreturned.saved]⟩

theorem fails_closed_example : ∃ job state request result,
    (∃ contents, (runFiles demo).files (statePath (.ofStr "runs") "demo-000000000000").components = some contents ∧
      Externals.standard.fromStr "RunState" RunState.codec contents = .ok state) ∧
    evaluations evaluated.1 = [(request, .ok result)] ∧ Warrants .standard state job request result ∧
    job.success = true ∧ job.lifecycle = some result.lifecycle ∧
    evaluated.2.2.files (jobPath (.ofStr "runs") "demo-000000000000" "job-1").components =
      some (.json (JobProvenance.codec.encode job)) := by
  obtain ⟨job, hok, -⟩ := evaluated_ok
  have hrun := evaluated_run
  rw [hok] at hrun
  exact ⟨job, action_fails_closed .standard hrun⟩

/-! ## Recorded evidence -/

theorem localFailure_consistent (maxOutputBytes : ℕ) :
    Consistent lib (Lifecycle.localFailure lib [] []) maxOutputBytes where
  stdout_le := Nat.zero_le _
  stderr_le := Nat.zero_le _
  stdoutSha256 := eqIgnoreAsciiCase_refl _
  stderrSha256 := eqIgnoreAsciiCase_refl _

/-- the recorded text of an output is shorter than this many bytes -/
def Lifecycle.Shorter (lifecycle : Lifecycle) (stdout stderr : ℕ) : Prop :=
  lifecycle.stdout.utf8ByteSize < stdout ∨ lifecycle.stderr.utf8ByteSize < stderr

/-- what the sanitiser shortened, it has flagged -/
theorem trustworthy_shorter {lifecycle : Lifecycle} {maxOutputBytes : ℕ}
    (h : (trustworthyFailureLifecycle lib lifecycle maxOutputBytes).Shorter lifecycle.stdout.utf8ByteSize
      lifecycle.stderr.utf8ByteSize) :
    (trustworthyFailureLifecycle lib lifecycle maxOutputBytes).truncated = true := by
  rcases trustworthy_truncated lib lifecycle maxOutputBytes with ht | ⟨hout, herr, -⟩
  · exact ht
  · rw [Lifecycle.Shorter, hout, herr] at h
    rcases h with h | h <;> exact absurd h (lt_irrefl _)

/-- **Recorded evidence is self-consistent.** If a run put a job in place, its evidence is bounded by the limit of the job
and has the digests of its own text, and it is marked as cut if it is shorter than what the client answered, or than the
bytes that were captured where the answer was made from captured bytes. -/
theorem recorded_evidence {r : Except (Stop CliError) JobProvenance}
    (h : Run Step (runActionWithClientAt lib workspaceBase stateDir runId actionName jobId) fs t r fs')
    (hwritten : fs'.files (jobPath stateDir runId jobId).components ≠
      fs.files (jobPath stateDir runId jobId).components) :
    ∃ job lifecycle,
      fs'.files (jobPath stateDir runId jobId).components = some (.json (JobProvenance.codec.encode job)) ∧
      job.lifecycle = some lifecycle ∧ Consistent lib lifecycle job.maxOutputBytes.toNat ∧
      (∀ request answer, (request, answer) ∈ evaluations t →
        lifecycle.Shorter (received answer).stdout.utf8ByteSize (received answer).stderr.utf8ByteSize →
          lifecycle.truncated = true) ∧
      ∀ request error out err, (request, .error (EvaluationFailure.new lib error out err)) ∈ evaluations t →
        lifecycle.Shorter out.length err.length → lifecycle.truncated = true := by
  cases runAction_run lib h with
  | refused => exact absurd rfl hwritten
  | @unbuilt state service job error t₁ t₂ t₃ r fs' checked built saves =>
    obtain ⟨hslug, hjslug, -, -, hcheck, -⟩ := prepareAction_ok lib checked
    obtain ⟨action, closure, bindings, -, rfl⟩ := (checkAction_ok lib hcheck).initial
    rcases saves.spec hslug hjslug rfl rfl with ⟨-, hfile⟩ | ⟨-, -, hkept⟩
    swap
    · exact absurd hkept hwritten
    rw [evaluations_unasked ((prepareAction_only lib _ _ _ _).mem checked) ((build_only _ _ _ _ _).mem built)
      saves.evaluations]
    exact ⟨_, _, by rw [hfile, Function.update_self], rfl, localFailure_consistent lib _,
      fun _ _ hm => absurd hm List.not_mem_nil, fun _ _ _ _ hm => absurd hm List.not_mem_nil⟩
  | @asked state service job saved request answer out r t₁ t₂ t₃ fs' checked built recorded saves =>
    obtain ⟨hslug, hjslug, -, -, hcheck, -⟩ := prepareAction_ok lib checked
    obtain ⟨action, closure, bindings, -, hinitial⟩ := (checkAction_ok lib hcheck).initial
    obtain ⟨hrun, hjob, hmax⟩ := recorded.runId
    rcases saves.spec hslug hjslug (by rw [hrun, hinitial]; rfl) (by rw [hjob, hinitial]; rfl) with
      ⟨-, hfile⟩ | ⟨-, -, hkept⟩
    swap
    · exact absurd hkept hwritten
    have hlimit : saved.maxOutputBytes = request.maxOutputBytes := by rw [hmax, (build_ok built).maxOutputBytes]
    rw [evaluations_asked ((prepareAction_only lib _ _ _ _).mem checked) ((build_only _ _ _ _ _).mem built)
      saves.evaluations]
    refine ⟨saved, _, by rw [hfile, Function.update_self], recorded.lifecycle,
      hlimit ▸ trustworthy_consistent lib _ _, fun request' answer' hm hs => ?_, fun request' error o e hm hs => ?_⟩
    · cases List.mem_singleton.1 hm
      exact trustworthy_shorter lib hs
    · cases List.mem_singleton.1 hm
      -- what was decoded has at least as many bytes as what was captured
      have hout : o.length ≤ (EvaluationFailure.new lib error o e).lifecycle.stdout.utf8ByteSize :=
        length_le_fromUtf8Lossy o
      have herr : e.length ≤ (EvaluationFailure.new lib error o e).lifecycle.stderr.utf8ByteSize :=
        length_le_fromUtf8Lossy e
      exact trustworthy_shorter lib (hs.imp (fun h => h.trans_le hout) fun h => h.trans_le herr)

/-- no job is on file before the action -/
theorem runFiles_job : (runFiles demo).files (jobPath (.ofStr "runs") "demo-000000000000" "job-1").components = none :=
  FileSystem.put_files_ne _ _ (by decide)

theorem evidence_example : ∃ job lifecycle,
    evaluated.2.2.files (jobPath (.ofStr "runs") "demo-000000000000" "job-1").components =
      some (.json (JobProvenance.codec.encode job)) ∧
    job.lifecycle = some lifecycle ∧ Consistent .standard lifecycle job.maxOutputBytes.toNat := by
  obtain ⟨-, -, hfile⟩ := evaluated_ok
  have hwritten : evaluated.2.2.files (jobPath (.ofStr "runs") "demo-000000000000" "job-1").components ≠
      (runFiles demo).files (jobPath (.ofStr "runs") "demo-000000000000" "job-1").components := by
    rw [runFiles_job]
    exact Option.isSome_iff_ne_none.1 hfile
  obtain ⟨job, lifecycle, hf, hl, hc, -⟩ := recorded_evidence .standard evaluated_run hwritten
  exact ⟨job, lifecycle, hf, hl, hc⟩

/-! ## Accounting -/

variable (workspaceBase stateDir runId actionName jobId fs)

/-- the file of the run, if it can be read, asks for nothing that is not there -/
def Intact : Prop :=
  validateSlug "run_id" runId = .ok () → validateSlug "job_id" jobId = .ok () → ∀ contents state,
    fs.files (statePath stateDir runId).components = some contents →
      lib.fromStr "RunState" RunState.codec contents = .ok state → Complete state actionName

/-- the existence check missed a job that is there, and no step of the save that followed failed -/
def Overlooked (t : Trace) : Prop :=
  (fs.files (jobPath stateDir runId jobId).components).isSome = true ∧
    ⟨.pathExists (jobPath stateDir runId jobId).components, false⟩ ∈ t ∧ ∀ e ∈ t, ¬Event.saveFailed e

/-- a check failed: an error, no call of the client, no change -/
structure CheckFailed (t : Trace) (r : Except (Stop CliError) JobProvenance) (fs' : FileSystem) : Prop where
  refused : ∃ error, r = .error (.err error) ∧
    Run Step (prepareAction lib stateDir runId actionName jobId) fs t (.error (.err error)) fs'
  unchanged : fs' = fs
  uncalled : evaluations t = []

/-- the checks passed; the client was called once, or not at all for want of a request; and one job was recorded -/
structure JobRecorded (t : Trace) (r : Except (Stop CliError) JobProvenance) (fs' : FileSystem) : Prop where
  called : ∃ state service job t₁ t₂ t₃, t = t₁ ++ (t₂ ++ t₃) ∧
    Run Step (prepareAction lib stateDir runId actionName jobId) fs t₁ (.ok (state, service, job)) fs ∧
    ((∃ error, Run Step (buildEvaluationRequest workspaceBase stateDir state job service) fs t₂
        (.error (.err error)) fs ∧ evaluations t = []) ∨
      ∃ request answer, Run Step (buildEvaluationRequest workspaceBase stateDir state job service) fs t₂
        (.ok request) fs ∧ evaluations t = [(request, answer)])
  recorded : (∀ e ∈ t, ¬Event.saveFailed e) →
    fs.files (jobPath stateDir runId jobId).components = none ∧
    ∃ saved, fs'.files = Function.update fs.files (jobPath stateDir runId jobId).components
        (some (.json (JobProvenance.codec.encode saved))) ∧
      (saved.success = true ↔ ∃ returned, r = .ok returned)

variable {workspaceBase stateDir runId actionName jobId fs}

/-- over an intact file, a check fails with an error -/
theorem prepareAction_error (hi : Intact lib stateDir runId actionName jobId fs) {e : Stop CliError}
    (h : Run Step (prepareAction lib stateDir runId actionName jobId) fs t (.error e) fs') :
    ∃ error, e = .err error := by
  rcases run_lift_bind.1 h with ⟨⟨⟩, hr, h₁⟩ | ⟨_, hr, -, he, -⟩
  swap
  · cases he
    exact refuseIf_raises _ _ _ hr
  rcases run_lift_bind.1 h₁ with ⟨⟨⟩, hj, h₂⟩ | ⟨_, hj, -, he, -⟩
  swap
  · cases he
    exact refuseIf_raises _ _ _ hj
  rcases run_bind.1 h₂ with ⟨state, t₁, u, t₂, hload, h₃, rfl⟩ | ⟨_, hload, he⟩
  swap
  · cases he
    exact (run_loadState_error lib hload).2
  obtain ⟨-, rfl, contents, hc, hdecode, -⟩ := (run_loadState lib).1 hload
  have hcomplete := hi hr hj contents state hc hdecode
  rcases run_lift_bind.1 h₃ with ⟨⟨service, job⟩, -, h₄⟩ | ⟨_, hcheck, -, he, -⟩
  swap
  · cases he
    exact checkAction_raises lib hcomplete _ _ _ hcheck
  obtain ⟨present, v, t₃, -, h₅, rfl⟩ := run_sys_bind.1 h₄
  cases present with
  | true => exact ⟨_, Except.error.inj (run_fail.1 h₅).2.1⟩
  | false => cases (run_pure.1 h₅).2.1

/-- a check that fails is not one that found no job -/
theorem refused_unfound {e : Stop CliError}
    (h : Run Step (prepareAction lib stateDir runId actionName jobId) fs t (.error e) fs') (file : Location) :
    ⟨.pathExists file, false⟩ ∉ t := by
  have hunchecking : Only Event.unchecking (loadState lib stateDir runId) := by
    refine (Only.lift _).bind fun _ => (Only.call fun _ => trivial).bind fun contents => ?_
    cases contents with
    | ok contents => exact Only.lift _
    | error error =>
      dsimp only
      split_ifs
      all_goals exact Only.fail _
  rcases run_lift_bind.1 h with ⟨⟨⟩, -, h₁⟩ | ⟨_, -, rfl, -, -⟩
  swap
  · exact List.not_mem_nil
  rcases run_lift_bind.1 h₁ with ⟨⟨⟩, -, h₂⟩ | ⟨_, -, rfl, -, -⟩
  swap
  · exact List.not_mem_nil
  rcases run_bind.1 h₂ with ⟨state, t₁, u, t₂, hload, h₃, rfl⟩ | ⟨_, hload, -⟩
  swap
  · exact fun hm => hunchecking.mem hload _ hm
  refine fun hm => (List.mem_append.1 hm).elim (fun hm => hunchecking.mem hload _ hm) fun hm => ?_
  rcases run_lift_bind.1 h₃ with ⟨⟨service, job⟩, -, h₄⟩ | ⟨_, -, rfl, -, -⟩
  swap
  · cases hm
  obtain ⟨present, v, t₃, -, h₅, rfl⟩ := run_sys_bind.1 h₄
  cases present with
  | true =>
    obtain ⟨rfl, -, -⟩ := run_fail.1 h₅
    cases List.mem_singleton.1 hm
  | false => cases (run_pure.1 h₅).2.1

/-- over a file that is not intact, the process panics -/
theorem runAction_panics (hi : ¬Intact lib stateDir runId actionName jobId fs) (workspaceBase : PathBuf) :
    ∃ t message, Run Step (prepareAction lib stateDir runId actionName jobId) fs t (.error (.panic message)) fs ∧
      Run Step (runActionWithClientAt lib workspaceBase stateDir runId actionName jobId) fs t
        (.error (.panic message)) fs := by
  simp only [Intact, Classical.not_imp, not_forall] at hi
  obtain ⟨hr, hj, contents, state, hc, hdecode, hmissing⟩ := hi
  obtain ⟨message, hpanic⟩ := checkAction_panics lib hmissing runId jobId
  have hload : Run Step (loadState lib stateDir runId) fs _ (.ok state) fs :=
    (run_loadState lib).2 ⟨hr, rfl, contents, hc, hdecode, rfl⟩
  have hprepare : Run Step (prepareAction lib stateDir runId actionName jobId) fs _ (.error (.panic message)) fs :=
    run_lift_bind.2 (.inl ⟨(), hr, run_lift_bind.2 (.inl ⟨(), hj,
      hload.bind (run_lift_bind.2 (.inr ⟨_, hpanic, rfl, rfl, rfl⟩))⟩)⟩)
  exact ⟨_, message, hprepare, run_bind.2 (.inr ⟨_, hprepare, rfl⟩)⟩

/-- checks do not both fail and pass on the same answers -/
theorem prepared_once {t₁ t₂ : Trace} {e : Stop CliError} {prepared : RunState × Service × JobProvenance}
    {u v : FileSystem} (h : Run Step (prepareAction lib stateDir runId actionName jobId) fs t₁ (.ok prepared) u)
    (h' : Run Step (prepareAction lib stateDir runId actionName jobId) fs (t₁ ++ t₂) (.error e) v) : False := by
  cases (h.deterministic h').2

/-- a panic is neither a failed check nor a recorded job -/
theorem unaccounted (hi : ¬Intact lib stateDir runId actionName jobId fs) (workspaceBase : PathBuf) :
    ∃ t r fs', Run Step (runActionWithClientAt lib workspaceBase stateDir runId actionName jobId) fs t r fs' ∧
      ¬Overlooked stateDir runId jobId fs t ∧ ¬CheckFailed lib stateDir runId actionName jobId fs t r fs' ∧
      ¬JobRecorded lib workspaceBase stateDir runId actionName jobId fs t r fs' := by
  obtain ⟨t, message, hprepare, hrun⟩ := runAction_panics lib hi workspaceBase
  refine ⟨t, _, fs, hrun, fun hmissed => refused_unfound lib hprepare _ hmissed.2.1, fun hfailed => ?_,
    fun hrecorded => ?_⟩
  · obtain ⟨error, he, -⟩ := hfailed.refused
    cases he
  · obtain ⟨state, service, job, t₁, t₂, t₃, rfl, hchecked, -⟩ := hrecorded.called
    exact prepared_once lib hchecked hprepare

/-- what a save that went through did -/
theorem Saves.recorded {saved : JobProvenance} {out r : Except (Stop CliError) JobProvenance} {t₁ : Trace}
    (h : Saves stateDir saved out fs t r fs') (hr : validateSlug "run_id" runId = .ok ())
    (hj : validateSlug "job_id" jobId = .ok ()) (hrun : saved.runId = runId) (hjob : saved.jobId = jobId)
    (hsuccess : saved.success = true ↔ ∃ returned, out = .ok returned) (ht : t ⊆ t₁)
    (hquiet : ∀ e ∈ t₁, ¬Event.saveFailed e) :
    ∃ saved, fs'.files = Function.update fs.files (jobPath stateDir runId jobId).components
        (some (.json (JobProvenance.codec.encode saved))) ∧
      (saved.success = true ↔ ∃ returned, r = .ok returned) := by
  rcases h.spec hr hj hrun hjob with ⟨rfl, hfile⟩ | ⟨-, ⟨e, he, hfailed⟩, -⟩
  · exact ⟨saved, hfile, hsuccess⟩
  · exact absurd hfailed (hquiet e (ht he))

/-- a job that is there and was missed is replaced, and that is neither a failed check nor a new job -/
theorem Overlooked.unaccounted {workspaceBase : PathBuf} {r : Except (Stop CliError) JobProvenance}
    (h : Overlooked stateDir runId jobId fs t) :
    ¬CheckFailed lib stateDir runId actionName jobId fs t r fs' ∧
      ¬JobRecorded lib workspaceBase stateDir runId actionName jobId fs t r fs' := by
  obtain ⟨hthere, hmissed, hquiet⟩ := h
  refine ⟨fun hfailed => ?_, fun hrecorded => ?_⟩
  · obtain ⟨error, -, hprepare⟩ := hfailed.refused
    exact refused_unfound lib hprepare _ hmissed
  · rw [(hrecorded.recorded hquiet).1] at hthere
    cases hthere

/-- **Every action is accounted for, over intact files and unless a job is overlooked.** The file of the run asks for
nothing that is not there, if and only if of every run this holds: it either fails in a check, with an error and nothing
changed, or calls the client at most once and records one job, marked as a success exactly when it is returned, and never
both; unless its existence check missed a job that is there, and nothing kept that from being replaced. -/
theorem action_accounted (workspaceBase stateDir : PathBuf) (runId actionName jobId : String) (fs : FileSystem) :
    (∀ t r fs', Run Step (runActionWithClientAt lib workspaceBase stateDir runId actionName jobId) fs t r fs' →
        (Xor (CheckFailed lib stateDir runId actionName jobId fs t r fs')
            (JobRecorded lib workspaceBase stateDir runId actionName jobId fs t r fs') ↔
          ¬Overlooked stateDir runId jobId fs t)) ↔
      Intact lib stateDir runId actionName jobId fs := by
  refine ⟨?_, ?_⟩
  · intro hall
    by_contra hi
    obtain ⟨t, r, fs', hrun, hmissed, hfailed, hrecorded⟩ := unaccounted lib hi workspaceBase
    exact ((hall t r fs' hrun).2 hmissed).elim (fun h => hfailed h.1) fun h => hrecorded h.1
  · intro hi t r fs' hrun
    refine ⟨fun haccounted hmissed => ?_, fun hseen => ?_⟩
    · obtain ⟨hfailed, hrecorded⟩ : ¬CheckFailed lib stateDir runId actionName jobId fs t r fs' ∧
          ¬JobRecorded lib workspaceBase stateDir runId actionName jobId fs t r fs' := hmissed.unaccounted lib
      exact haccounted.elim (fun h => hfailed h.1) fun h => hrecorded h.1
    have hexclusive : CheckFailed lib stateDir runId actionName jobId fs t r fs' →
        ¬JobRecorded lib workspaceBase stateDir runId actionName jobId fs t r fs' := by
      intro hfailed hrecorded
      obtain ⟨error, -, hprepare⟩ := hfailed.refused
      obtain ⟨state, service, job, t₁, t₂, t₃, rfl, hchecked, -⟩ := hrecorded.called
      exact prepared_once lib hchecked hprepare
    -- a job that was not found is not there, if no step of its save failed
    have hfresh : ⟨.pathExists (jobPath stateDir runId jobId).components, false⟩ ∈ t →
        (∀ e ∈ t, ¬Event.saveFailed e) → fs.files (jobPath stateDir runId jobId).components = none :=
      fun hm hquiet => Option.not_isSome_iff_eq_none.1 fun hthere => hseen ⟨hthere, hm, hquiet⟩
    cases runAction_run lib hrun with
    | refused checked =>
      obtain ⟨error, rfl⟩ := prepareAction_error lib hi checked
      have hfailed : CheckFailed lib stateDir runId actionName jobId fs t _ fs :=
        ⟨⟨error, rfl, checked⟩, rfl, evaluations_looking ((prepareAction_only lib _ _ _ _).mem checked)⟩
      exact .inl ⟨hfailed, hexclusive hfailed⟩
    | @unbuilt state service job error t₁ t₂ t₃ r fs' checked built saves =>
      obtain ⟨hr, hj, -, -, hcheck, hfound⟩ := prepareAction_ok lib checked
      obtain ⟨action, closure, bindings, -, rfl⟩ := (checkAction_ok lib hcheck).initial
      have hrecorded : JobRecorded lib workspaceBase stateDir runId actionName jobId fs (t₁ ++ (t₂ ++ t₃)) r fs' := by
        refine ⟨⟨state, service, _, t₁, t₂, t₃, rfl, checked, .inl ⟨error, built, ?_⟩⟩,
          fun hquiet => ⟨hfresh (List.mem_append_left _ hfound) hquiet, ?_⟩⟩
        · exact evaluations_unasked ((prepareAction_only lib _ _ _ _).mem checked) ((build_only _ _ _ _ _).mem built)
            saves.evaluations
        · refine saves.recorded hr hj rfl rfl ⟨nofun, fun ⟨_, he⟩ => nomatch he⟩ (fun e he => ?_) hquiet
          exact List.mem_append_right _ (List.mem_append_right _ he)
      exact .inr ⟨hrecorded, fun hfailed => hexclusive hfailed hrecorded⟩
    | @asked state service job saved request answer out r t₁ t₂ t₃ fs' checked built recorded saves =>
      obtain ⟨hr, hj, -, -, hcheck, hfound⟩ := prepareAction_ok lib checked
      obtain ⟨action, closure, bindings, -, hinitial⟩ := (checkAction_ok lib hcheck).initial
      obtain ⟨hrun, hjob, -⟩ := recorded.runId
      have hrecorded : JobRecorded lib workspaceBase stateDir runId actionName jobId fs
          (t₁ ++ (t₂ ++ ⟨.evaluation request, answer⟩ :: t₃)) r fs' := by
        refine ⟨⟨state, service, _, t₁, t₂, _, rfl, checked, .inr ⟨request, answer, built, ?_⟩⟩,
          fun hquiet => ⟨hfresh (List.mem_append_left _ hfound) hquiet, ?_⟩⟩
        · exact evaluations_asked ((prepareAction_only lib _ _ _ _).mem checked) ((build_only _ _ _ _ _).mem built)
            saves.evaluations
        · refine saves.recorded hr hj (by rw [hrun, hinitial]; rfl) (by rw [hjob, hinitial]; rfl) recorded.success_iff
            (fun e he => ?_) hquiet
          exact List.mem_append_right _ (List.mem_append_right _ (List.mem_cons_of_mem _ he))
      exact .inr ⟨hrecorded, fun hfailed => hexclusive hfailed hrecorded⟩

/-- an action on a service that the stored manifest does not have: the process panics -/
theorem ghost_unaccounted : ∃ t r fs',
    Run Step evaluate (runFiles (twoServices "demo" uuidA [] "ghost")) t r fs' ∧
    ¬Xor (CheckFailed .standard (.ofStr "runs") "demo-000000000000" "evaluate" "job-1"
        (runFiles (twoServices "demo" uuidA [] "ghost")) t r fs')
      (JobRecorded .standard (.ofStr "/work") (.ofStr "runs") "demo-000000000000" "evaluate" "job-1"
        (runFiles (twoServices "demo" uuidA [] "ghost")) t r fs') := by
  have hi : ¬Intact .standard (.ofStr "runs") "demo-000000000000" "evaluate" "job-1"
      (runFiles (twoServices "demo" uuidA [] "ghost")) := by
    intro hi
    have hcomplete := hi rfl rfl _ (twoContainers (twoServices "demo" uuidA [] "ghost"))
      (FileSystem.put_files_same _ _ _) (Externals.standard.fromStr_encode _ _ _)
    have hghost := hcomplete rfl rfl _ rfl "ghost" .refl
    exact absurd hghost (by decide)
  obtain ⟨t, r, fs', hrun, -, hfailed, hrecorded⟩ := unaccounted .standard hi (.ofStr "/work")
  exact ⟨t, r, fs', hrun, fun h => h.elim (fun h => hfailed h.1) fun h => hrecorded h.1⟩

end PhenoCompose
