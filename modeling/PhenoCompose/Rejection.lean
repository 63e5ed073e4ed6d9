/-
What a failed action is recorded as.

`persistJobFailure` fills in the code and the message of the error where the job has none. The job is filled from the
client's result before that is validated, so a result that is refused can bring its own.

- `failure_recorded`: the ways a failed job comes to be recorded, and what it held before.
- `rejection_recorded_iff`: the record of a failed action says why it failed, unless a refused result said something else.
- `refusal_overridden`: a result with another version is refused and recorded under the code it carried.
-/
import PhenoCompose.ActionResults

namespace PhenoCompose

open Core.Json Core.Path Core.Process

variable (lib : Externals)

/-! ## Failed jobs -/

/-- the error of a failed job is recorded where the job had none, or the same, before -/
theorem failed_texts (job : JobProvenance) (error : CliError) :
    (job.failed error).errorCode = error.code ∧ (job.failed error).errorMessage = error.message ↔
      (job.errorCode = "" ∨ job.errorCode = error.code) ∧
        (job.errorMessage = "" ∨ job.errorMessage = error.message) := by
  have htext : ∀ held text : String, (if held = "" then text else held) = text ↔ held = "" ∨ held = text := by
    intro held text
    split_ifs with h
    · exact iff_of_true rfl (.inl h)
    · rw [or_iff_right h]
  exact and_congr (htext _ _) (htext _ _)

/-- why an action that got an answer failed: the client, the checks on its result, or the result itself -/
inductive FailedBy (request : EvaluationRequest) : Except EvaluationFailure EvaluationResult → CliError → Prop where
  | client (failure : EvaluationFailure) : FailedBy request (.error failure) failure.error
  | refused {result : EvaluationResult} {error : CliError}
      (checked : validateEvaluationResult lib request result = Err error) : FailedBy request (.ok result) error
  | rejected {result : EvaluationResult} (checked : validateEvaluationResult lib request result = .ok ())
      (success : result.success = false) : FailedBy request (.ok result) (rejection result)

/-- the job that an answer of the client is recorded in -/
def JobProvenance.withAnswer (job : JobProvenance) (request : EvaluationRequest) :
    Except EvaluationFailure EvaluationResult → JobProvenance
  | .error failure => job.withFailure lib request failure
  | .ok result => job.withResult lib request result

theorem finishAction_failed {stateDir : PathBuf} {job : JobProvenance} {request : EvaluationRequest}
    {answer : Except EvaluationFailure EvaluationResult} {fs fs' : FileSystem} {t : Trace}
    {r : Except (Stop CliError) JobProvenance}
    (h : Run Step (finishAction lib stateDir job request answer) fs t r fs') :
    (∃ error, FailedBy lib request answer error ∧
        Saves stateDir ((job.withAnswer lib request answer).failed error) (.error (.err error)) fs t r fs') ∨
      ∃ saved, saved.runId = job.runId ∧ saved.jobId = job.jobId ∧ Saves stateDir saved (.ok saved) fs t r fs' := by
  cases answer with
  | error failure => exact .inl ⟨_, .client failure, run_save_then.1 h⟩
  | ok result =>
    rcases finishAction_result lib h with ⟨error, hrefused | ⟨hvalid, hsuccess, rfl⟩, hsaves⟩ | ⟨-, -, hsaves⟩
    · exact .inl ⟨error, .refused hrefused, hsaves⟩
    · exact .inl ⟨_, .rejected hvalid hsuccess, hsaves⟩
    · exact .inr ⟨{ job.withResult lib request result with success := true }, rfl, rfl, hsaves⟩

/-! ## Runs -/

variable {workspaceBase stateDir : PathBuf} {runId actionName jobId : String} {fs fs' : FileSystem} {t : Trace}

/-- how a failed job with the error `e` came to be recorded, from the job `job` -/
inductive RecordedFailure (t : Trace) (e : CliError) (job : JobProvenance) : Prop where
  | unasked (silent : evaluations t = []) (code : job.errorCode = "") (message : job.errorMessage = "")
  | asked {request : EvaluationRequest} {answer : Except EvaluationFailure EvaluationResult} {initial : JobProvenance}
      (called : evaluations t = [(request, answer)]) (failed : FailedBy lib request answer e)
      (code : initial.errorCode = "") (message : initial.errorMessage = "")
      (filled : job = initial.withAnswer lib request answer)

/-- a save that put a file in place went through, and the run returned what was to be returned then -/
theorem Saves.written {saved : JobProvenance} {out r : Except (Stop CliError) JobProvenance}
    (h : Saves stateDir saved out fs t r fs') (hr : validateSlug "run_id" runId = .ok ())
    (hj : validateSlug "job_id" jobId = .ok ()) (hrun : saved.runId = runId) (hjob : saved.jobId = jobId)
    (hwritten : fs'.files (jobPath stateDir runId jobId).components ≠
      fs.files (jobPath stateDir runId jobId).components) :
    r = out ∧ fs'.files (jobPath stateDir runId jobId).components =
      some (.json (JobProvenance.codec.encode saved)) := by
  rcases h.spec hr hj hrun hjob with ⟨hout, hfile⟩ | ⟨-, -, hkept⟩
  · exact ⟨hout, by rw [hfile, Function.update_self]⟩
  · exact absurd hkept hwritten

theorem withAnswer_ids (job : JobProvenance) (request : EvaluationRequest)
    (answer : Except EvaluationFailure EvaluationResult) :
    (job.withAnswer lib request answer).runId = job.runId ∧ (job.withAnswer lib request answer).jobId = job.jobId := by
  cases answer <;> exact ⟨rfl, rfl⟩

theorem failure_recorded {e : CliError}
    (h : Run Step (runActionWithClientAt lib workspaceBase stateDir runId actionName jobId) fs t
      (.error (.err e)) fs')
    (hwritten : fs'.files (jobPath stateDir runId jobId).components ≠
      fs.files (jobPath stateDir runId jobId).components) :
    ∃ job, fs'.files (jobPath stateDir runId jobId).components =
      some (.json (JobProvenance.codec.encode (job.failed e))) ∧ RecordedFailure lib t e job := by
  rcases runAction_parts lib h with ⟨-, -, rfl, -⟩ | ⟨state, service, job, t₁, t₂, t₃, rfl, hprepare, hrest⟩
  · exact absurd rfl hwritten
  obtain ⟨hslug, hjslug, -, -, hcheck, -⟩ := prepareAction_ok lib hprepare
  obtain ⟨action, closure, bindings, -, rfl⟩ := (checkAction_ok lib hcheck).initial
  have hlook := (prepareAction_only lib stateDir runId actionName jobId).mem hprepare
  rcases hrest with ⟨error, hbuild, hsaves⟩ | ⟨request, answer, t₄, rfl, hbuild, hfinish⟩
  · obtain ⟨hout, hfile⟩ := hsaves.written hslug hjslug rfl rfl hwritten
    cases hout
    exact ⟨_, hfile, .unasked (evaluations_unasked hlook ((build_only _ _ _ _ _).mem hbuild) hsaves.evaluations) rfl rfl⟩
  · rcases finishAction_failed lib hfinish with ⟨error, hfailed, hsaves⟩ | ⟨saved, hrun, hjob, hsaves⟩
    · obtain ⟨hrun, hjob⟩ := withAnswer_ids lib { initialJob lib state runId actionName jobId action service closure
        bindings with outputRoot := request.outputRoot } request answer
      obtain ⟨hout, hfile⟩ := hsaves.written hslug hjslug hrun hjob hwritten
      cases hout
      exact ⟨_, hfile, .asked (evaluations_asked hlook ((build_only _ _ _ _ _).mem hbuild) hsaves.evaluations) hfailed
        rfl rfl rfl⟩
    · obtain ⟨hout, -⟩ := hsaves.written hslug hjslug hrun hjob hwritten
      cases hout

/-- a refused result, if it is one, brought no texts of its own, or the same -/
def RefusalKept (request : EvaluationRequest) (result : EvaluationResult) : Prop :=
  ∀ error, validateEvaluationResult lib request result = Err error →
    (result.errorCode = "" ∨ result.errorCode = error.code) ∧
      (result.errorMessage = "" ∨ result.errorMessage = error.message)

/-- **A failed job says why it failed** exactly when no refused result brought a code or a message of its own. -/
theorem rejection_recorded_iff {e : CliError}
    (h : Run Step (runActionWithClientAt lib workspaceBase stateDir runId actionName jobId) fs t
      (.error (.err e)) fs')
    (hwritten : fs'.files (jobPath stateDir runId jobId).components ≠
      fs.files (jobPath stateDir runId jobId).components) :
    ∃ saved, fs'.files (jobPath stateDir runId jobId).components =
        some (.json (JobProvenance.codec.encode saved)) ∧ saved.success = false ∧
      (saved.errorCode = e.code ∧ saved.errorMessage = e.message ↔
        ∀ request result, (request, .ok result) ∈ evaluations t → RefusalKept lib request result) := by
  obtain ⟨job, hfile, hrecorded⟩ := failure_recorded lib h hwritten
  refine ⟨_, hfile, rfl, ?_⟩
  rw [failed_texts]
  cases hrecorded with
  | unasked silent code message =>
    rw [silent]
    exact iff_of_true ⟨.inl code, .inl message⟩ fun _ _ hm => absurd hm List.not_mem_nil
  | asked called failed code message filled =>
    subst filled
    rw [called]
    cases failed with
    | client failure =>
      refine iff_of_true ⟨.inl code, .inl message⟩ fun request result hm => ?_
      cases List.mem_singleton.1 hm
    | @refused result _ checked =>
      refine ⟨fun htexts request' result' hm => ?_, fun hkept => ?_⟩
      · cases List.mem_singleton.1 hm
        intro error herror
        rw [checked] at herror
        cases herror
        exact htexts
      · exact hkept _ result (List.mem_singleton_self _) _ checked
    | @rejected result checked success =>
      have htext : ∀ held text : String, held = "" ∨ held = if held = "" then text else held := by
        intro held text
        split_ifs with hempty
        · exact .inl hempty
        · exact .inr rfl
      refine iff_of_true ⟨htext _ _, htext _ _⟩ fun request' result' hm => ?_
      cases List.mem_singleton.1 hm
      intro error herror
      rw [checked] at herror
      cases herror

/-- the action of `demo`, answered so: its calls, its outcome and the files it leaves -/
def answered (result : EvaluationResult) : Trace × Except (Stop CliError) JobProvenance × FileSystem :=
  exec (perform { cleanEvaluation with evaluation := fun _ => .ok result }) evaluate (runFiles demo)

/-- the code that the file of the job holds -/
def recordedCode (fs : FileSystem) : Option String :=
  match fs.files (jobPath (.ofStr "runs") "demo-000000000000" "job-1").components with
  | some (.json value) => (JobProvenance.codec.decode value).map (·.errorCode)
  | _ => none

def returnedCode : Except (Stop CliError) JobProvenance → Option String
  | .error (.err e) => some e.code
  | _ => none

theorem answered_failed {result : EvaluationResult} {code : String}
    (h : returnedCode (answered result).2.1 = some code) : ∃ e, e.code = code ∧
      Run Step evaluate (runFiles demo) (answered result).1 (.error (.err e)) (answered result).2.2 := by
  have hrun : Run Step evaluate (runFiles demo) (answered result).1 (answered result).2.1 (answered result).2.2 :=
    run_perform (answered.eq_def result).symm
  rcases hr : (answered result).2.1 with (e | message | _) | job
  · rw [hr] at h hrun
    exact ⟨e, Option.some.inj h, hrun⟩
  all_goals
    rw [hr] at h
    cases h

theorem answered_written {result : EvaluationResult} {code : String}
    (h : recordedCode (answered result).2.2 = some code) :
    (answered result).2.2.files (jobPath (.ofStr "runs") "demo-000000000000" "job-1").components ≠
      (runFiles demo).files (jobPath (.ofStr "runs") "demo-000000000000" "job-1").components := by
  intro he
  rw [recordedCode, he, runFiles_job] at h
  cases h

/-- a result of another version that says no more -/
def unexplainedResult : EvaluationResult :=
  { cleanResult with version := "v0", success := false, errorCode := "", errorMessage := "" }

theorem unexplained_codes : recordedCode (answered unexplainedResult).2.2 = some "nvms_version_mismatch" ∧
    returnedCode (answered unexplainedResult).2.1 = some "nvms_version_mismatch" := by
  decide +kernel

theorem unexplained_evaluations :
    ∀ e ∈ evaluations (answered unexplainedResult).1, e.2.toOption = some unexplainedResult := by
  decide +kernel

/-- the refusal of such a result is what is recorded -/
theorem rejection_recorded_example : ∃ e saved, e.code = "nvms_version_mismatch" ∧
    Run Step evaluate (runFiles demo) (answered unexplainedResult).1 (.error (.err e)) (answered unexplainedResult).2.2 ∧
    (answered unexplainedResult).2.2.files (jobPath (.ofStr "runs") "demo-000000000000" "job-1").components =
      some (.json (JobProvenance.codec.encode saved)) ∧
    saved.success = false ∧ saved.errorCode = e.code ∧ saved.errorMessage = e.message := by
  obtain ⟨e, hcode, hrun⟩ := answered_failed unexplained_codes.2
  obtain ⟨saved, hfile, hfailed, hiff⟩ :=
    rejection_recorded_iff .standard hrun (answered_written unexplained_codes.1)
  refine ⟨e, saved, hcode, hrun, hfile, hfailed, hiff.2 ?_⟩
  intro request result hm error _
  obtain rfl := Option.some.inj (unexplained_evaluations _ hm)
  exact ⟨.inl rfl, .inl rfl⟩

/-- the client answers with a result of another version that carries texts of its own -/
def overridingResult : EvaluationResult :=
  { cleanResult with version := "v0", success := false, errorCode := "quota_exceeded", errorMessage := "try again" }

theorem overridden_codes : recordedCode (answered overridingResult).2.2 = some "quota_exceeded" ∧
    returnedCode (answered overridingResult).2.1 = some "nvms_version_mismatch" := by
  decide +kernel

/-- the refusal is of the version, and the record says that the quota is exceeded -/
theorem refusal_overridden : ∃ e saved,
    Run Step evaluate (runFiles demo) (answered overridingResult).1 (.error (.err e)) (answered overridingResult).2.2 ∧
      (answered overridingResult).2.2.files (jobPath (.ofStr "runs") "demo-000000000000" "job-1").components =
        some (.json (JobProvenance.codec.encode saved)) ∧
      saved.success = false ∧ e.code = "nvms_version_mismatch" ∧ saved.errorCode = "quota_exceeded" := by
  obtain ⟨e, hcode, hrun⟩ := answered_failed overridden_codes.2
  obtain ⟨job, hfile, -⟩ := failure_recorded .standard hrun (answered_written overridden_codes.1)
  refine ⟨e, job.failed e, hrun, hfile, rfl, hcode, ?_⟩
  have hrecorded := overridden_codes.1
  rw [recordedCode, hfile] at hrecorded
  dsimp only at hrecorded
  rw [JobProvenance.codec.decode_encode] at hrecorded
  exact Option.some.inj hrecorded

end PhenoCompose
