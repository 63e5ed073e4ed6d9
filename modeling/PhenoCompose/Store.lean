/-
The state directory: one JSON file per run, one directory of JSON files per run for its jobs.

A state is written under a temporary name and renamed into place; a job provenance too, under a name that no other process
uses and that must not exist yet.

- `RunState.codec`, `JobProvenance.codec`: what is written is read back.
- `stateLocation`, `jobLocation` and their temporaries: where the files are, for run and job ids that are words.
- `run_save_job`: how far a save of a job gets.
- `saveState_spec`, `save_job_spec`: a save that succeeds has put exactly one file in place; one that fails has touched
  nothing but its temporary file.
- `run_loadState`: loading reads one file and changes nothing.
-/
import PhenoCompose.Podman

namespace PhenoCompose

open Core.Collections Core.Json Core.Path Core.Process Core.Text

/-! ## Records -/

inductive RunLifecycle where
  | running
  | down
deriving DecidableEq, Repr

structure RunState where
  stateVersion : String
  runId : String
  manifestSha256 : String
  provider : String
  createdUnixSeconds : UInt64
  lifecycle : RunLifecycle
  containers : BTreeMap String
  manifest : CompositionManifest
deriving DecidableEq

structure JobProvenance where
  provenanceVersion : String
  runId : String
  jobId : String
  manifestSha256 : String
  effectiveEngine : String
  resolvedProvider : String
  executionPlane : String
  action : String
  service : String
  command : List String
  image : String
  dependencyServices : List String
  gpuBindings : List GpuBinding
  timeoutMillis : Int64
  maxOutputBytes : UInt64
  outputRoot : String
  outputRootCreated : Bool
  outputRootAvailableBytes : Option UInt64
  toolkitVersion : Option String
  toolkitRoot : Option String
  toolkitExecutable : Option String
  lifecycle : Option Lifecycle
  success : Bool
  errorCode : String
  errorMessage : String
deriving DecidableEq

def RunLifecycle.codec : Codec RunLifecycle :=
  .variants (fun | .running => "running" | .down => "down") [.running, .down] (by rintro ⟨⟩ <;> rfl)

def RunState.codec : Codec RunState :=
  record ((required "state_version" .string (·.stateVersion)).and <|
    (required "run_id" .string (·.runId)).and <|
    (required "manifest_sha256" .string (·.manifestSha256)).and <|
    (required "provider" .string (·.provider)).and <|
    (required "created_unix_seconds" .u64 (·.createdUnixSeconds)).and <|
    (required "lifecycle" RunLifecycle.codec (·.lifecycle)).and <|
    (required "containers" (.btreeMap .string) (·.containers)).and
    (required "manifest" CompositionManifest.codec (·.manifest)))
    (fun (stateVersion, runId, manifestSha256, provider, createdUnixSeconds, lifecycle, containers, manifest) =>
      { stateVersion, runId, manifestSha256, provider, createdUnixSeconds, lifecycle, containers, manifest })
    (fun _ => rfl) (by decide)

def GpuBinding.codec : Codec GpuBinding :=
  record ((required "uuid" .string (·.uuid)).and <|
    (required "cuda_toolkit" .string (·.cudaToolkit)).and
    (required "cdi_device" .string (·.cdiDevice)))
    (fun (uuid, cudaToolkit, cdiDevice) => { uuid, cudaToolkit, cdiDevice }) (fun _ => rfl) (by decide)

def Lifecycle.codec : Codec Lifecycle :=
  record ((required "exit_code" .i32 (·.exitCode)).and <|
    (required "duration_ms" .i64 (·.durationMs)).and <|
    (required "timed_out" .bool (·.timedOut)).and <|
    (required "truncated" .bool (·.truncated)).and <|
    (required "stdout" .string (·.stdout)).and <|
    (required "stderr" .string (·.stderr)).and <|
    (required "stdout_sha256" .string (·.stdoutSha256)).and
    (required "stderr_sha256" .string (·.stderrSha256)))
    (fun (exitCode, durationMs, timedOut, truncated, stdout, stderr, stdoutSha256, stderrSha256) =>
      { exitCode, durationMs, timedOut, truncated, stdout, stderr, stdoutSha256, stderrSha256 })
    (fun _ => rfl) (by decide)

/-- `#[serde(default, skip_serializing_if = "Option::is_none")]` -/
def skippedNone {σ α : Type} (name : String) (c : Codec (Option α)) (get : σ → Option α) : Fields σ (Option α) :=
  skipped name c none Option.isNone (fun _ => Option.isNone_iff_eq_none.1) get

/-- `#[serde(default, skip_serializing_if = "String::is_empty")]` -/
def skippedEmpty {σ : Type} (name : String) (get : σ → String) : Fields σ String :=
  skipped name .string "" (· == "") (fun _ h => by simpa using h) get

def JobProvenance.codec : Codec JobProvenance :=
  record ((required "provenance_version" .string (·.provenanceVersion)).and <|
    (required "run_id" .string (·.runId)).and <|
    (required "job_id" .string (·.jobId)).and <|
    (required "manifest_sha256" .string (·.manifestSha256)).and <|
    (required "effective_engine" .string (·.effectiveEngine)).and <|
    (required "resolved_provider" .string (·.resolvedProvider)).and <|
    (required "execution_plane" .string (·.executionPlane)).and <|
    (required "action" .string (·.action)).and <|
    (required "service" .string (·.service)).and <|
    (required "command" (.vec .string) (·.command)).and <|
    (required "image" .string (·.image)).and <|
    (required "dependency_services" (.vec .string) (·.dependencyServices)).and <|
    (required "gpu_bindings" (.vec GpuBinding.codec) (·.gpuBindings)).and <|
    (required "timeout_millis" .i64 (·.timeoutMillis)).and <|
    (required "max_output_bytes" .u64 (·.maxOutputBytes)).and <|
    (defaulted "output_root" .string "" (·.outputRoot)).and <|
    (defaulted "output_root_created" .bool false (·.outputRootCreated)).and <|
    (defaulted "output_root_available_bytes" (.option .u64 Codec.u64_ne_null) none
      (·.outputRootAvailableBytes)).and <|
    (skippedNone "toolkit_version" optionString (·.toolkitVersion)).and <|
    (skippedNone "toolkit_root" optionString (·.toolkitRoot)).and <|
    (skippedNone "toolkit_executable" optionString (·.toolkitExecutable)).and <|
    -- an `Option` without `default`: a missing member is `None`, a missing element is not
    (field "lifecycle" (.option Lifecycle.codec record_ne_null) (·.lifecycle) (some none) none Option.isNone
      fun _ h => by rw [Option.isNone_iff_eq_none.1 h]).and <|
    (required "success" .bool (·.success)).and <|
    (skippedEmpty "error_code" (·.errorCode)).and
    (skippedEmpty "error_message" (·.errorMessage)))
    (fun (provenanceVersion, runId, jobId, manifestSha256, effectiveEngine, resolvedProvider, executionPlane,
        action, service, command, image, dependencyServices, gpuBindings, timeoutMillis, maxOutputBytes,
        outputRoot, outputRootCreated, outputRootAvailableBytes, toolkitVersion, toolkitRoot,
        toolkitExecutable, lifecycle, success, errorCode, errorMessage) =>
      { provenanceVersion, runId, jobId, manifestSha256, effectiveEngine, resolvedProvider, executionPlane,
        action, service, command, image, dependencyServices, gpuBindings, timeoutMillis, maxOutputBytes,
        outputRoot, outputRootCreated, outputRootAvailableBytes, toolkitVersion, toolkitRoot,
        toolkitExecutable, lifecycle, success, errorCode, errorMessage })
    (fun _ => rfl) (by decide)

/-! ## Where files are -/

def validateSlug (field value : String) : Result Unit :=
  let valid := value ≠ "" ∧ value.utf8ByteSize ≤ 128 ∧ (value.toList.head?.any Char.isAlphanum = true) ∧
    isWord value = true
  refuseIf (¬valid) <| .validation (field ++ "_invalid") (field ++ " must be a path-safe ASCII slug")

def statePath (stateDir : PathBuf) (runId : String) : PathBuf := stateDir.join (.ofStr (runId ++ ".json"))

def jobsPath (stateDir : PathBuf) (runId : String) : PathBuf := stateDir.join (.ofStr (runId ++ ".jobs"))

def jobPath (stateDir : PathBuf) (runId jobId : String) : PathBuf :=
  (jobsPath stateDir runId).join (.ofStr (jobId ++ ".json"))

/-! ## Loading and saving -/

/-- `result.map_err(|error| CliError::io(code, error))?` -/
def ioResult {α : Type} (code : String) : Except IoError α → Proc CliError α
  | .ok a => pure a
  | .error error => fail (.io code error)

variable (lib : Externals)

def loadState (stateDir : PathBuf) (runId : String) : Proc CliError RunState := do
  validateSlug "run_id" runId
  match ← sys (.readToString (statePath stateDir runId).components) with
  | .error error =>
    if error.notFound then fail (.notFound "run_not_found" ("no persisted run state for " ++ runId))
    else fail (.io "state_read" error)
  | .ok input => lib.fromStr "RunState" RunState.codec input

def saveState (stateDir : PathBuf) (state : RunState) : Proc CliError Unit := do
  ioResult "state_dir_create" (← sys (.createDirAll stateDir.components))
  let path := statePath stateDir state.runId
  let temporary := path.withExtension (bytes "json.tmp")
  let contents := Contents.json (RunState.codec.encode state)
  ioResult "state_write" (← sys (.write temporary.components contents))
  ioResult "state_commit" (← sys (.rename temporary.components path.components))

def jobTemporaryExtension (processId : UInt32) : String := "json." ++ toString processId.toNat ++ ".tmp"

def jobTemporary (path : PathBuf) (processId : UInt32) : PathBuf :=
  path.withExtension (bytes (jobTemporaryExtension processId))

def saveJobProvenance (stateDir : PathBuf) (job : JobProvenance) : Proc CliError Unit := do
  let path := jobPath stateDir job.runId job.jobId
  match path.parent with
  | none => fail (.validation "job_path" "job provenance path has no parent")
  | some parent => do
    ioResult "job_dir_create" (← sys (.createDirAll parent))
    let processId ← sys .processId
    let temporary := (jobTemporary path processId).components
    let contents := Contents.json (JobProvenance.codec.encode job)
    ioResult "job_write" (← sys (.createNew temporary))
    let writeResult ← attempt (do
      ioResult "job_write" (← sys (.writeAll temporary contents))
      ioResult "job_write" (← sys (.syncAll temporary)) : Proc CliError Unit)
    match writeResult with
    | .error error => do
      let _ ← sys (.removeFile temporary)
      fail error
    | .ok _ => do
      match ← sys (.rename temporary path.components) with
      | .ok _ => pure ()
      | .error error => do
        let _ ← sys (.removeFile temporary)
        fail (.io "job_commit" error)

def loadJobProvenance (stateDir : PathBuf) (runId jobId : String) : Proc CliError JobProvenance := do
  validateSlug "run_id" runId
  validateSlug "job_id" jobId
  let input ← ioResult "job_read" (← sys (.readToString (jobPath stateDir runId jobId).components))
  lib.fromStr "JobProvenance" JobProvenance.codec input

def unixSeconds : Proc CliError UInt64 := do
  match ← sys .clock with
  | .ok seconds => pure seconds
  | .error message => fail (.backend "clock" message)

def absolutePath (path : PathBuf) : Proc CliError PathBuf := do
  if path.isAbsolute then pure path
  else
    let directory ← ioResult "current_dir" (← sys .currentDir)
    pure (directory.join path)

/-! ## Ids that are words -/

theorem validateSlug_ok_iff {field value : String} {u : Unit} :
    validateSlug field value = .ok u ↔ value ≠ "" ∧ value.utf8ByteSize ≤ 128 ∧
      value.toList.head?.any Char.isAlphanum = true ∧ isWord value = true := by
  rw [validateSlug, refuseIf_ok, not_not]

theorem slug_word {field value : String} {u : Unit} (h : validateSlug field value = .ok u) :
    isWord value = true ∧ value ≠ "" := by
  obtain ⟨hne, -, -, hw⟩ := validateSlug_ok_iff.1 h
  exact ⟨hw, hne⟩

theorem sep_not_mem_word {s : String} (hs : isWord s = true) : sep ∉ bytes s := by
  intro h
  rcases byte_of_word hs h with h | h <;> exact absurd h (by decide)

/-- a word with a suffix is a plain file name -/
theorem plain_word {s tail : String} (hs : isWord s = true) (ht : sep ∉ bytes tail) (hl : 3 ≤ (bytes tail).length) :
    Plain (bytes (s ++ tail)) := by
  have hlen : 3 ≤ (bytes (s ++ tail)).length := by rw [bytes_append, List.length_append]; omega
  refine ⟨?_, ?_, ?_, ?_⟩
  · rw [bytes_append, List.mem_append, not_or]
    exact ⟨sep_not_mem_word hs, ht⟩
  all_goals intro h; rw [h] at hlen; simp at hlen

/-- the file of a run -/
def stateLocation (stateDir : PathBuf) (runId : String) : Location :=
  stateDir.components ++ [.normal (bytes (runId ++ ".json"))]

def stateTemporary (stateDir : PathBuf) (runId : String) : Location :=
  stateDir.components ++ [.normal (bytes (runId ++ ".json.tmp"))]

/-- the directory of a run's jobs -/
def jobsLocation (stateDir : PathBuf) (runId : String) : Location :=
  stateDir.components ++ [.normal (bytes (runId ++ ".jobs"))]

def jobLocation (stateDir : PathBuf) (runId jobId : String) : Location :=
  jobsLocation stateDir runId ++ [.normal (bytes (jobId ++ ".json"))]

def jobTemporaryLocation (stateDir : PathBuf) (runId jobId : String) (processId : UInt32) : Location :=
  jobsLocation stateDir runId ++ [.normal (bytes (jobId ++ ("." ++ jobTemporaryExtension processId)))]

theorem statePath_components (stateDir : PathBuf) {runId : String} (h : isWord runId = true) :
    (statePath stateDir runId).components = stateLocation stateDir runId :=
  components_join_plain stateDir (plain_word h (by decide) (by decide))

/-- the extension of a word's file is replaced after the word -/
theorem withExtension_word (base : PathBuf) {s tail : String} (hs : isWord s = true) (hne : s ≠ "")
    (ht : sep ∉ bytes ("." ++ tail)) (hl : 2 ≤ (bytes tail).length) :
    (base.join (.ofStr (s ++ ".json"))).withExtension (bytes tail) = base.join (.ofStr (s ++ ("." ++ tail))) := by
  have hdot : bytes (s ++ ".json") = bytes s ++ dot :: bytes "json" := by rw [bytes_append]; rfl
  have hdot' : bytes (s ++ ("." ++ tail)) = bytes s ++ dot :: bytes tail := by rw [bytes_append, bytes_append]; rfl
  have hp : Plain (bytes (s ++ ".json")) := plain_word hs (by decide) (by decide)
  have hp' : Plain (bytes (s ++ ("." ++ tail))) := by
    refine plain_word hs ht ?_
    rw [bytes_append, List.length_append]
    have : (bytes ".").length = 1 := rfl
    omega
  have hs' : bytes s ≠ [] := fun h => hne (bytes_inj.1 h)
  have ht' : bytes tail ≠ [] := fun h => by rw [h] at hl; simp at hl
  rw [hdot] at hp
  rw [hdot'] at hp'
  rw [PathBuf.ofStr, hdot, PathBuf.ofStr, hdot']
  exact withExtension_join base hs' (by decide) ht' hp hp'

theorem stateTemporary_components (stateDir : PathBuf) {runId : String} (h : isWord runId = true)
    (hne : runId ≠ "") :
    ((statePath stateDir runId).withExtension (bytes "json.tmp")).components = stateTemporary stateDir runId := by
  rw [statePath, withExtension_word stateDir h hne (by decide) (by decide)]
  exact components_join_plain stateDir (plain_word h (by decide) (by decide))

theorem jobsPath_components (stateDir : PathBuf) {runId : String} (h : isWord runId = true) :
    (jobsPath stateDir runId).components = jobsLocation stateDir runId :=
  components_join_plain stateDir (plain_word h (by decide) (by decide))

theorem jobPath_components (stateDir : PathBuf) {runId jobId : String} (hr : isWord runId = true)
    (hj : isWord jobId = true) :
    (jobPath stateDir runId jobId).components = jobLocation stateDir runId jobId := by
  rw [jobPath, PathBuf.ofStr, components_join_plain _ (plain_word hj (by decide) (by decide)),
    jobsPath_components stateDir hr]
  rfl

theorem jobPath_parent (stateDir : PathBuf) {runId jobId : String} (hr : isWord runId = true)
    (hj : isWord jobId = true) : (jobPath stateDir runId jobId).parent = some (jobsLocation stateDir runId) := by
  rw [jobPath, PathBuf.ofStr, parent_join _ (plain_word hj (by decide) (by decide)),
    jobsPath_components stateDir hr]

theorem isWord_toString (n : ℕ) : isWord (toString n) = true := by
  rw [isWord, List.all_eq_true]
  intro c hc
  have hc' : c ∈ Nat.toDigits 10 n := by simpa using hc
  have hd : c.isDigit = true := Nat.isDigit_of_mem_toDigits (by decide) (by decide) hc'
  simp [Char.isAlphanum, hd]

theorem jobTemporary_no_sep (processId : UInt32) : sep ∉ bytes ("." ++ jobTemporaryExtension processId) := by
  simp only [jobTemporaryExtension, bytes_append, List.mem_append, not_or]
  exact ⟨by decide, ⟨by decide, sep_not_mem_word (isWord_toString _)⟩, by decide⟩

theorem jobTemporaryExtension_length (processId : UInt32) :
    4 ≤ (bytes (jobTemporaryExtension processId)).length := by
  have h : (bytes ".tmp").length = 4 := rfl
  rw [jobTemporaryExtension, bytes_append, List.length_append]
  omega

/-- the temporary file of a job has a plain name -/
theorem plain_jobTemporary {jobId : String} (hj : isWord jobId = true) (processId : UInt32) :
    Plain (bytes (jobId ++ ("." ++ jobTemporaryExtension processId))) := by
  refine plain_word hj (jobTemporary_no_sep processId) ?_
  have := jobTemporaryExtension_length processId
  rw [bytes_append, List.length_append]
  omega

theorem jobTemporary_components (stateDir : PathBuf) {runId jobId : String} (hr : isWord runId = true)
    (hj : isWord jobId = true) (hne : jobId ≠ "") (processId : UInt32) :
    (jobTemporary (jobPath stateDir runId jobId) processId).components =
      jobTemporaryLocation stateDir runId jobId processId := by
  have hlen := jobTemporaryExtension_length processId
  rw [jobTemporary, jobPath, withExtension_word _ hj hne (jobTemporary_no_sep processId) (by omega),
    PathBuf.ofStr, components_join_plain _ (plain_jobTemporary hj processId), jobsPath_components stateDir hr]
  rfl

theorem stateTemporary_ne (stateDir : PathBuf) (runId : String) :
    stateTemporary stateDir runId ≠ stateLocation stateDir runId := by
  intro h
  have hb : bytes (runId ++ ".json.tmp") = bytes (runId ++ ".json") := by
    simpa [stateTemporary, stateLocation] using h
  rw [bytes_append, bytes_append] at hb
  exact absurd (List.append_cancel_left hb) (by decide)

theorem jobTemporary_ne (stateDir : PathBuf) (runId jobId : String) (processId : UInt32) :
    jobTemporaryLocation stateDir runId jobId processId ≠ jobLocation stateDir runId jobId := by
  intro h
  have hb : bytes (jobId ++ ("." ++ jobTemporaryExtension processId)) = bytes (jobId ++ ".json") := by
    simpa [jobTemporaryLocation, jobLocation] using h
  rw [bytes_append jobId, bytes_append jobId] at hb
  have hlen := congrArg List.length (List.append_cancel_left hb)
  have h1 : (bytes ".").length = 1 := rfl
  have h5 : (bytes "json.").length = 5 := rfl
  have h5' : (bytes ".json").length = 5 := rfl
  simp only [jobTemporaryExtension, bytes_append, List.length_append, h1, h5, h5'] at hlen
  omega

/-! ## What loading and saving do -/

theorem run_io_bind {α β : Type} {code : String} {x : Except IoError α} {f : α → Proc CliError β}
    {r : Except (Stop CliError) β} {fs fs' : FileSystem} {t : Trace} :
    Run Step (ioResult code x >>= f) fs t r fs' ↔
      (∃ a, x = .ok a ∧ Run Step (f a) fs t r fs') ∨
        ∃ e, x = .error e ∧ t = [] ∧ r = .error (.err (.io code e)) ∧ fs' = fs := by
  cases x with
  | ok a => exact ⟨fun h => .inl ⟨a, rfl, h⟩, by rintro (⟨_, ⟨⟩, h⟩ | ⟨_, ⟨⟩, _⟩); exact h⟩
  | error e =>
    refine (run_done : Run Step (.done _) _ _ _ _ ↔ _).trans ⟨fun h => .inr ⟨e, rfl, h⟩, ?_⟩
    intro hx
    rcases hx with ⟨_, ⟨⟩, _⟩ | ⟨_, ⟨⟩, h⟩
    exact h

theorem run_io_bind_ok {α β : Type} {code : String} {x : Except IoError α} {f : α → Proc CliError β} {b : β}
    {fs fs' : FileSystem} {t : Trace} :
    Run Step (ioResult code x >>= f) fs t (.ok b) fs' ↔ ∃ a, x = .ok a ∧ Run Step (f a) fs t (.ok b) fs' := by
  simp [run_io_bind]

theorem run_io {α : Type} {code : String} {x : Except IoError α} {r : Except (Stop CliError) α} {fs fs' : FileSystem}
    {t : Trace} : Run Step (ioResult code x) fs t r fs' ↔
      t = [] ∧ r = x.mapError (fun e => .err (.io code e)) ∧ fs' = fs := by
  cases x <;> exact run_done

/-- loading reads one file, changes nothing, and gives what the file decodes to -/
theorem run_loadState {stateDir : PathBuf} {runId : String} {state : RunState} {fs fs' : FileSystem} {t : Trace} :
    Run Step (loadState lib stateDir runId) fs t (.ok state) fs' ↔
      validateSlug "run_id" runId = .ok () ∧ fs' = fs ∧ ∃ contents,
        fs.files (statePath stateDir runId).components = some contents ∧
        lib.fromStr "RunState" RunState.codec contents = .ok state ∧
        t = [⟨.readToString (statePath stateDir runId).components, .ok contents⟩] := by
  rw [loadState, run_lift_bind]
  refine ⟨?_, ?_⟩
  · intro hx
    rcases hx with ⟨⟨⟩, hslug, h⟩ | ⟨e, -, -, he, -⟩
    · obtain ⟨a, u, t', hstep, hrest, rfl⟩ := run_sys_bind.1 h
      cases a with
      | error error =>
        dsimp only at hrest
        split_ifs at hrest <;> simp at hrest
      | ok contents =>
        obtain ⟨rfl, hfile⟩ := hstep
        obtain ⟨rfl, hr, rfl⟩ := run_lift.1 hrest
        exact ⟨hslug, rfl, contents, hfile, hr.symm, rfl⟩
    · cases he
  · intro hx
    obtain ⟨hslug, rfl, contents, hfile, hr, rfl⟩ := hx
    refine .inl ⟨(), hslug, run_sys_bind.2 ⟨.ok contents, fs', [], ⟨rfl, hfile⟩, ?_, rfl⟩⟩
    exact run_lift.2 ⟨rfl, hr.symm, rfl⟩

/-- a load that fails has an error to report and changes nothing -/
theorem run_loadState_error {stateDir : PathBuf} {runId : String} {e : Stop CliError} {fs fs' : FileSystem}
    {t : Trace} (h : Run Step (loadState lib stateDir runId) fs t (.error e) fs') :
    fs' = fs ∧ ∃ error, e = .err error := by
  rw [loadState, run_lift_bind] at h
  rcases h with ⟨⟨⟩, -, h⟩ | ⟨e', he', -, he, rfl⟩
  · obtain ⟨a, u, t', hstep, hrest, rfl⟩ := run_sys_bind.1 h
    cases a with
    | error error =>
      obtain ⟨rfl, -⟩ := hstep
      dsimp only at hrest
      split_ifs at hrest
      all_goals
        obtain ⟨-, he, rfl⟩ := run_fail.1 hrest
        exact ⟨rfl, _, Except.error.inj he⟩
    | ok contents =>
      obtain ⟨rfl, -⟩ := hstep
      obtain ⟨-, he, rfl⟩ := run_lift.1 hrest
      exact ⟨rfl, lib.fromStr_raises _ _ _ _ he.symm⟩
  · cases he
    exact ⟨rfl, refuseIf_raises _ _ _ he'⟩

theorem run_unixSeconds {r : Except (Stop CliError) UInt64} {fs fs' : FileSystem} {t : Trace} :
    Run Step unixSeconds fs t r fs' ↔
      fs' = fs ∧ ∃ a, t = [⟨.clock, a⟩] ∧ r = a.mapError fun message => .err (.backend "clock" message) := by
  rw [unixSeconds, run_sys_bind]
  refine ⟨?_, ?_⟩
  · intro hx
    obtain ⟨a, u, t', hu, h, rfl⟩ := hx
    obtain rfl : u = fs := hu
    cases a with
    | ok seconds => obtain ⟨rfl, rfl, rfl⟩ := run_pure.1 h; exact ⟨rfl, _, rfl, rfl⟩
    | error message => obtain ⟨rfl, rfl, rfl⟩ := run_fail.1 h; exact ⟨rfl, _, rfl, rfl⟩
  · intro hx
    obtain ⟨rfl, a, rfl, rfl⟩ := hx
    refine ⟨a, fs', [], rfl, ?_, rfl⟩
    cases a with
    | ok seconds => exact run_pure.2 ⟨rfl, rfl, rfl⟩
    | error message => exact run_fail.2 ⟨rfl, rfl, rfl⟩

/-- **A save of a state** either puts the file in place, over what was there, or reports an error and has touched at most
its temporary file. -/
theorem saveState_spec {stateDir : PathBuf} (state : RunState) (hw : isWord state.runId = true)
    (hne : state.runId ≠ "") {fs fs' : FileSystem} {t : Trace} {r : Except (Stop CliError) Unit}
    (h : Run Step (saveState stateDir state) fs t r fs') :
    (r = .ok () ∧ fs'.files (stateLocation stateDir state.runId) = some (.json (RunState.codec.encode state)) ∧
        ∀ l, l ≠ stateLocation stateDir state.runId → l ≠ stateTemporary stateDir state.runId →
          fs'.files l = fs.files l) ∨
      ∃ error, r = .error (.err error) ∧ ∀ l, l ≠ stateTemporary stateDir state.runId → fs'.files l = fs.files l := by
  have hpath := statePath_components stateDir hw
  have htmp := stateTemporary_components stateDir hw hne
  rw [saveState, run_sys_bind] at h
  obtain ⟨made, u, t₁, hmade, hm, rfl⟩ := h
  have hu : u.files = fs.files := by
    cases made with
    | ok => rw [hmade.1]; rfl
    | error => obtain ⟨m, -, rfl⟩ := hmade; rfl
  rcases run_io_bind.1 hm with ⟨-, -, hw⟩ | ⟨e, -, -, rfl, rfl⟩
  · dsimp only at hw
    rw [htmp, hpath] at hw
    obtain ⟨written, v, t₂, hwritten, hr, rfl⟩ := run_sys_bind.1 hw
    have hv : ∀ l, l ≠ stateTemporary stateDir state.runId → v.files l = fs.files l := by
      intro l hl
      rw [← hu]
      cases written with
      | ok => rw [hwritten.1, FileSystem.put_files_ne _ _ hl]
      | error =>
        rcases hwritten with rfl | ⟨torn, rfl⟩
        · rfl
        · rw [FileSystem.put_files_ne _ _ hl]
    rcases run_io_bind.1 hr with ⟨_, rfl, hr⟩ | ⟨e, -, -, rfl, rfl⟩
    · obtain ⟨renamed, w, t₃, hrenamed, hend, rfl⟩ := run_sys_bind.1 hr
      obtain ⟨rfl, rfl, rfl⟩ := run_io.1 hend
      cases renamed with
      | ok =>
        obtain ⟨contents, hc, rfl, -⟩ := hrenamed
        obtain ⟨rfl, -⟩ := hwritten
        obtain rfl : contents = .json (RunState.codec.encode state) := by simpa [eq_comm] using hc
        refine .inl ⟨rfl, FileSystem.put_files_same _ _ _, fun l hl hl' => ?_⟩
        rw [FileSystem.put_files_ne _ _ hl, FileSystem.put_files_ne _ _ hl', hv l hl']
      | error e =>
        obtain rfl : fs' = v := hrenamed
        exact .inr ⟨_, rfl, hv⟩
    · exact .inr ⟨_, rfl, hv⟩
  · exact .inr ⟨_, rfl, fun l _ => by rw [hu]⟩

theorem ioResult_only {α : Type} {P : Event Answer → Prop} (code : String) (x : Except IoError α) :
    Only P (ioResult code x) := by
  cases x
  · exact Only.fail _
  · exact Only.pure _

/-- loading a state only reads a file -/
theorem loadState_reads {P : Event Answer → Prop} (h : ∀ file a, P ⟨.readToString file, a⟩) (stateDir : PathBuf)
    (runId : String) : Only P (loadState lib stateDir runId) := by
  apply (Only.lift _).bind
  intro _
  apply (Only.call fun a => h _ a).bind
  intro a
  cases a with
  | error error =>
    dsimp only
    split_ifs
    · exact Only.fail _
    · exact Only.fail _
  | ok contents => exact Only.lift _

theorem loadState_only (stateDir : PathBuf) (runId : String) :
    Only Event.looking (loadState lib stateDir runId) := loadState_reads lib (fun _ _ => trivial) stateDir runId

theorem saveState_only (stateDir : PathBuf) (state : RunState) : Only Event.storing (saveState stateDir state) := by
  apply (Only.call fun _ => trivial).bind
  intro _
  apply (ioResult_only _ _).bind
  intro _
  apply (Only.call fun _ => trivial).bind
  intro _
  apply (ioResult_only _ _).bind
  intro _
  exact (Only.call fun _ => trivial).bind fun _ => ioResult_only _ _

/-- a call that the save of this job to this file makes -/
def Saving (file : Location) (job : JobProvenance) : Event Answer → Prop
  | ⟨.processId, _⟩ | ⟨.createDirAll _, _⟩ | ⟨.createNew _, _⟩ | ⟨.syncAll _, _⟩ | ⟨.removeFile _, _⟩ => True
  | ⟨.writeAll _ contents, _⟩ => contents = .json (JobProvenance.codec.encode job)
  | ⟨.rename _ to_, _⟩ => to_ = file
  | _ => False

theorem save_job_saving (stateDir : PathBuf) (job : JobProvenance) :
    Only (Saving (jobPath stateDir job.runId job.jobId).components job) (saveJobProvenance stateDir job) := by
  rw [saveJobProvenance]
  dsimp only
  split
  · exact Only.fail _
  · apply (Only.call fun _ => trivial).bind
    intro _
    apply (ioResult_only _ _).bind
    intro _
    apply (Only.call fun _ => trivial).bind
    intro processId
    apply (Only.call fun _ => trivial).bind
    intro _
    refine (ioResult_only _ _).bind fun _ => .bind (.attempt ?_) fun written => ?_
    · apply (Only.call fun _ => rfl).bind
      intro _
      apply (ioResult_only _ _).bind
      intro _
      exact (Only.call fun _ => trivial).bind fun _ => ioResult_only _ _
    · cases written with
      | error e => exact (Only.call fun _ => trivial).bind fun _ => Only.fail _
      | ok =>
        apply (Only.call fun _ => rfl).bind
        intro renamed
        cases renamed with
        | ok => exact Only.pure _
        | error e => exact (Only.call fun _ => trivial).bind fun _ => Only.fail _

theorem save_job_only (stateDir : PathBuf) (job : JobProvenance) :
    Only Event.storing (saveJobProvenance stateDir job) := by
  refine (save_job_saving stateDir job).imp ?_
  intro e h
  obtain ⟨call, a⟩ := e
  cases call
  case processId | createDirAll | createNew | writeAll | syncAll | rename | removeFile => trivial
  all_goals exact h.elim

theorem ioResult_safe {α : Type} (code : String) (x : Except IoError α) : Safe (ioResult code x) := by
  cases x
  · exact Safe.fail _
  · exact Safe.pure _

theorem saveState_safe (stateDir : PathBuf) (state : RunState) : Safe (saveState stateDir state) := by
  apply (Safe.call _).bind
  intro _
  apply (ioResult_safe _ _).bind
  intro _
  apply (Safe.call _).bind
  intro _
  apply (ioResult_safe _ _).bind
  intro _
  exact (Safe.call _).bind fun _ => ioResult_safe _ _

/-- making a directory makes none in it -/
theorem addDirs_below (fs : FileSystem) (directory : Location) (name : Component) :
    (fs.addDirs directory).dirs (directory ++ [name]) = fs.dirs (directory ++ [name]) := by
  have hlong : (directory ++ [name]).isPrefixOf directory = false := by
    rw [Bool.eq_false_iff, ne_eq, List.isPrefixOf_iff_prefix]
    intro hp
    have := hp.length_le
    simp at this
  simp [FileSystem.addDirs, hlong]

/-- where nothing is in the way, a state can be saved, and no directory is made but the way to it -/
theorem saveState_runs {stateDir : PathBuf} (state : RunState) (hw : isWord state.runId = true)
    (hne : state.runId ≠ "") {fs : FileSystem} (hfree : ∀ d, d <+: stateDir.components → fs.files d = none)
    (hdir : fs.dirs (stateLocation stateDir state.runId) = false)
    (htmp : fs.dirs (stateTemporary stateDir state.runId) = false) :
    ∃ t fs', Run Step (saveState stateDir state) fs t (.ok ()) fs' ∧
      fs'.dirs = (fs.addDirs stateDir.components).dirs := by
  have hparent : ∀ name, (fs.addDirs stateDir.components).hasParent (stateDir.components ++ [name]) = true := by
    intro name
    rw [FileSystem.hasParent, List.dropLast_concat]
    cases hc : stateDir.components <;> simp [FileSystem.addDirs]
  have hcreate : Step fs (.createDirAll stateDir.components) (.ok ()) (fs.addDirs stateDir.components) :=
    ⟨rfl, hfree⟩
  have hwrite : Step (fs.addDirs stateDir.components)
      (.write (stateTemporary stateDir state.runId) (.json (RunState.codec.encode state))) (.ok ())
      ((fs.addDirs stateDir.components).put (stateTemporary stateDir state.runId)
        (some (.json (RunState.codec.encode state)))) :=
    ⟨rfl, hparent _, (addDirs_below _ _ _).trans htmp⟩
  have hrename : Step ((fs.addDirs stateDir.components).put (stateTemporary stateDir state.runId)
      (some (.json (RunState.codec.encode state))))
      (.rename (stateTemporary stateDir state.runId) (stateLocation stateDir state.runId)) (.ok ())
      ((((fs.addDirs stateDir.components).put (stateTemporary stateDir state.runId)
        (some (.json (RunState.codec.encode state)))).put (stateTemporary stateDir state.runId) none).put
        (stateLocation stateDir state.runId) (some (.json (RunState.codec.encode state)))) :=
    ⟨_, FileSystem.put_files_same _ _ _, rfl, hparent _, (addDirs_below _ _ _).trans hdir⟩
  rw [saveState]
  dsimp only
  rw [stateTemporary_components stateDir hw hne, statePath_components stateDir hw]
  refine ⟨_, _, run_sys_bind.2 ⟨.ok (), _, _, hcreate, run_io_bind.2 (.inl ⟨(), rfl,
    run_sys_bind.2 ⟨.ok (), _, _, hwrite, run_io_bind.2 (.inl ⟨(), rfl,
      run_sys_bind.2 ⟨.ok (), _, _, hrename, run_io.2 ⟨rfl, rfl, rfl⟩, rfl⟩⟩), rfl⟩⟩), rfl⟩, ?_⟩
  rfl

/-- a file operation of a save that did not go through -/
def Event.saveFailed : Event Answer → Prop
  | ⟨.createDirAll _, a⟩ | ⟨.createNew _, a⟩ | ⟨.writeAll _ _, a⟩ | ⟨.syncAll _, a⟩ | ⟨.rename _ _, a⟩ =>
    ∃ e, a = .error e
  | _ => False

/-- writing a file and syncing it -/
def writeAndSync (file : Location) (contents : Contents) : Proc CliError Unit := do
  ioResult "job_write" (← sys (.writeAll file contents))
  ioResult "job_write" (← sys (.syncAll file))

theorem writeAndSync_safe (file : Location) (contents : Contents) : Safe (writeAndSync file contents) := by
  apply (Safe.call _).bind
  intro _
  exact (ioResult_safe _ _).bind fun _ => (Safe.call _).bind fun _ => ioResult_safe _ _

theorem run_writeAndSync {file : Location} {contents : Contents} {fs fs' : FileSystem} {t : Trace}
    {r : Except (Stop CliError) Unit} (h : Run Step (writeAndSync file contents) fs t r fs') :
    (r = .ok () ∧ t = [⟨.writeAll file contents, .ok ()⟩, ⟨.syncAll file, .ok ()⟩] ∧
        fs' = fs.put file (some contents)) ∨
      ∃ error, r = .error (.err error) ∧ (∃ e ∈ t, Event.saveFailed e) ∧ ∃ torn, fs' = fs.put file (some torn) := by
  obtain ⟨written, u, t₁, hwritten, h₁, rfl⟩ := run_sys_bind.1 h
  rcases run_io_bind.1 h₁ with ⟨⟨⟩, rfl, h₂⟩ | ⟨e, rfl, rfl, rfl, rfl⟩
  · obtain ⟨synced, v, t₂, hsynced, h₃, rfl⟩ := run_sys_bind.1 h₂
    obtain rfl : v = u := hsynced
    obtain ⟨rfl, rfl, rfl⟩ := run_io.1 h₃
    cases synced with
    | ok => exact .inl ⟨rfl, rfl, hwritten⟩
    | error e => exact .inr ⟨_, rfl, ⟨_, .tail _ (.head _), e, rfl⟩, contents, hwritten⟩
  · exact .inr ⟨_, rfl, ⟨_, .head _, e, rfl⟩, hwritten⟩

/-- a file that could not be completed may go, or stay -/
theorem remove_elsewhere {file : Location} {fs fs' : FileSystem} {a : Except IoError Unit}
    (h : Step fs (.removeFile file) a fs') {l : Location} (hl : l ≠ file) : fs'.files l = fs.files l := by
  cases a with
  | ok => rw [h.1, FileSystem.put_files_ne _ _ hl]
  | error => rw [show fs' = fs from h]

/-- how far a save of a job gets, and what it has done then -/
inductive JobSave (path : PathBuf) (job : JobProvenance) (fs : FileSystem) :
    Trace → Except (Stop CliError) Unit → FileSystem → Prop where
  | noParent {error : CliError} (none : path.parent = none) : JobSave path job fs [] (.error (.err error)) fs
  | noDirectory {parent : Location} {e : IoError} {error : CliError} {fs' : FileSystem}
      (made : Step fs (.createDirAll parent) (.error e) fs') :
      JobSave path job fs [⟨.createDirAll parent, .error e⟩] (.error (.err error)) fs'
  | notCreated {parent : Location} {processId : UInt32} {e : IoError} {error : CliError} {u : FileSystem}
      (made : Step fs (.createDirAll parent) (.ok ()) u) :
      JobSave path job fs [⟨.createDirAll parent, .ok ()⟩, ⟨.processId, processId⟩,
        ⟨.createNew (jobTemporary path processId).components, .error e⟩] (.error (.err error)) u
  | notWritten {parent : Location} {processId : UInt32} {error : CliError} {a : Except IoError Unit}
      {u v w fs' : FileSystem} {t : Trace} (made : Step fs (.createDirAll parent) (.ok ()) u)
      (created : Step u (.createNew (jobTemporary path processId).components) (.ok ()) v)
      (written : Run Step (writeAndSync (jobTemporary path processId).components
        (.json (JobProvenance.codec.encode job))) v t (.error (.err error)) w)
      (removed : Step w (.removeFile (jobTemporary path processId).components) a fs') :
      JobSave path job fs (⟨.createDirAll parent, .ok ()⟩ :: ⟨.processId, processId⟩ ::
        ⟨.createNew (jobTemporary path processId).components, .ok ()⟩ ::
        (t ++ [⟨.removeFile (jobTemporary path processId).components, a⟩])) (.error (.err error)) fs'
  | notRenamed {parent : Location} {processId : UInt32} {e : IoError} {error : CliError} {a : Except IoError Unit}
      {u v w fs' : FileSystem} {t : Trace} (made : Step fs (.createDirAll parent) (.ok ()) u)
      (created : Step u (.createNew (jobTemporary path processId).components) (.ok ()) v)
      (written : Run Step (writeAndSync (jobTemporary path processId).components
        (.json (JobProvenance.codec.encode job))) v t (.ok ()) w)
      (removed : Step w (.removeFile (jobTemporary path processId).components) a fs') :
      JobSave path job fs (⟨.createDirAll parent, .ok ()⟩ :: ⟨.processId, processId⟩ ::
        ⟨.createNew (jobTemporary path processId).components, .ok ()⟩ ::
        (t ++ [⟨.rename (jobTemporary path processId).components path.components, .error e⟩,
          ⟨.removeFile (jobTemporary path processId).components, a⟩])) (.error (.err error)) fs'
  | saved {parent : Location} {processId : UInt32} {u v w fs' : FileSystem} {t : Trace}
      (made : Step fs (.createDirAll parent) (.ok ()) u)
      (created : Step u (.createNew (jobTemporary path processId).components) (.ok ()) v)
      (written : Run Step (writeAndSync (jobTemporary path processId).components
        (.json (JobProvenance.codec.encode job))) v t (.ok ()) w)
      (renamed : Step w (.rename (jobTemporary path processId).components path.components) (.ok ()) fs') :
      JobSave path job fs (⟨.createDirAll parent, .ok ()⟩ :: ⟨.processId, processId⟩ ::
        ⟨.createNew (jobTemporary path processId).components, .ok ()⟩ ::
        (t ++ [⟨.rename (jobTemporary path processId).components path.components, .ok ()⟩])) (.ok ()) fs'

theorem run_save_job {stateDir : PathBuf} {job : JobProvenance} {fs fs' : FileSystem} {t : Trace}
    {r : Except (Stop CliError) Unit} (h : Run Step (saveJobProvenance stateDir job) fs t r fs') :
    JobSave (jobPath stateDir job.runId job.jobId) job fs t r fs' := by
  rw [saveJobProvenance] at h
  dsimp only at h
  generalize jobPath stateDir job.runId job.jobId = path at h ⊢
  cases hparent : path.parent with
  | none =>
    rw [hparent] at h
    obtain ⟨rfl, rfl, rfl⟩ := run_fail.1 h
    exact .noParent hparent
  | some parent =>
    rw [hparent] at h
    obtain ⟨made, u, t₁, hmade, h₁, rfl⟩ := run_sys_bind.1 h
    rcases run_io_bind.1 h₁ with ⟨⟨⟩, rfl, h₂⟩ | ⟨e, rfl, rfl, rfl, rfl⟩
    swap
    · exact .noDirectory hmade
    obtain ⟨processId, u', t₂, hu', h₃, rfl⟩ := run_sys_bind.1 h₂
    obtain rfl : u' = u := hu'
    obtain ⟨created, v, t₃, hcreated, h₄, rfl⟩ := run_sys_bind.1 h₃
    rcases run_io_bind.1 h₄ with ⟨⟨⟩, rfl, h₅⟩ | ⟨e, rfl, rfl, rfl, rfl⟩
    swap
    · obtain rfl : fs' = u' := hcreated
      exact .notCreated hmade
    obtain ⟨written, t₄, w, t₅, hwritten, h₆, rfl⟩ := (run_attempt_bind (writeAndSync_safe _ _)).1 h₅
    cases written with
    | error error =>
      obtain ⟨removed, w', t₆, hremoved, h₇, rfl⟩ := run_sys_bind.1 h₆
      obtain ⟨rfl, rfl, rfl⟩ := run_fail.1 h₇
      exact .notWritten hmade hcreated hwritten hremoved
    | ok =>
      obtain ⟨renamed, w', t₆, hrenamed, h₇, rfl⟩ := run_sys_bind.1 h₆
      cases renamed with
      | ok =>
        obtain ⟨rfl, rfl, rfl⟩ := run_pure.1 h₇
        exact .saved hmade hcreated hwritten hrenamed
      | error e =>
        obtain rfl : w' = w := hrenamed
        obtain ⟨removed, w'', t₇, hremoved, h₈, rfl⟩ := run_sys_bind.1 h₇
        obtain ⟨rfl, rfl, rfl⟩ := run_fail.1 h₈
        exact .notRenamed hmade hcreated hwritten hremoved

/-- **A save of a job** either puts exactly its file in place, or reports an error, has seen a file operation fail, and has
touched at most its temporary file. -/
theorem save_job_spec {stateDir : PathBuf} {job : JobProvenance} (hr : isWord job.runId = true)
    (hj : isWord job.jobId = true) (hne : job.jobId ≠ "") {fs fs' : FileSystem} {t : Trace}
    {r : Except (Stop CliError) Unit} (h : Run Step (saveJobProvenance stateDir job) fs t r fs') :
    (r = .ok () ∧ fs'.files =
        Function.update fs.files (jobLocation stateDir job.runId job.jobId)
          (some (.json (JobProvenance.codec.encode job)))) ∨
      ∃ error, r = .error (.err error) ∧ (∃ e ∈ t, Event.saveFailed e) ∧ ∃ processId, ∀ l,
        l ≠ jobTemporaryLocation stateDir job.runId job.jobId processId → fs'.files l = fs.files l := by
  have hpath := jobPath_components stateDir hr hj
  have htmp := jobTemporary_components stateDir hr hj hne
  cases run_save_job h with
  | noParent none => cases (jobPath_parent stateDir hr hj).symm.trans none
  | noDirectory made =>
    obtain ⟨m, -, rfl⟩ := made
    exact .inr ⟨_, rfl, ⟨_, List.mem_singleton_self _, _, rfl⟩, 0, fun l _ => rfl⟩
  | notCreated made =>
    obtain ⟨rfl, -⟩ := made
    exact .inr ⟨_, rfl, ⟨_, .tail _ (.tail _ (.head _)), _, rfl⟩, 0, fun l _ => rfl⟩
  | @notWritten _ processId _ _ _ _ _ _ _ made created written removed =>
    obtain ⟨rfl, -⟩ := made
    obtain ⟨rfl, -⟩ := created
    rcases run_writeAndSync written with ⟨⟨⟩, -⟩ | ⟨_, -, ⟨e, he, hfailed⟩, torn, rfl⟩
    refine .inr ⟨_, rfl, ⟨e, by simp [he], hfailed⟩, processId, fun l hl => ?_⟩
    rw [← htmp] at hl
    rw [remove_elsewhere removed hl, FileSystem.put_files_ne _ _ hl, FileSystem.put_files_ne _ _ hl]
    rfl
  | @notRenamed _ processId e _ _ _ _ _ _ _ made created written removed =>
    obtain ⟨rfl, -⟩ := made
    obtain ⟨rfl, -⟩ := created
    rcases run_writeAndSync written with ⟨-, -, rfl⟩ | ⟨_, ⟨⟩, -⟩
    refine .inr ⟨_, rfl, ⟨_, .tail _ (.tail _ (.tail _ (List.mem_append_right _ (.head _)))), e, rfl⟩, processId,
      fun l hl => ?_⟩
    rw [← htmp] at hl
    rw [remove_elsewhere removed hl, FileSystem.put_files_ne _ _ hl, FileSystem.put_files_ne _ _ hl]
    rfl
  | saved made created written renamed =>
    obtain ⟨rfl, -⟩ := made
    obtain ⟨rfl, hnone, -⟩ := created
    rcases run_writeAndSync written with ⟨-, -, rfl⟩ | ⟨_, ⟨⟩, -⟩
    obtain ⟨contents, hc, rfl, -⟩ := renamed
    obtain rfl : contents = .json (JobProvenance.codec.encode job) := by simpa [eq_comm] using hc
    -- the temporary file is gone, and was not there before
    refine .inl ⟨rfl, ?_⟩
    rw [hpath]
    simp only [FileSystem.put, Function.update_idem]
    rw [← hnone, Function.update_eq_self]
    rfl

/-! ## A run of two containers -/

def twoContainers (manifest : CompositionManifest) : RunState where
  stateVersion := "phenocompose.run/v0"
  runId := "demo-000000000000"
  manifestSha256 := "0000000000000000000000000000000000000000000000000000000000000000"
  provider := "podman"
  createdUnixSeconds := 0
  lifecycle := .running
  containers := .ofList [("api", "c1"), ("db", "c2")] compare
  manifest := manifest

/-- a state directory with that run in it -/
def runFiles (manifest : CompositionManifest) : FileSystem :=
  FileSystem.empty.put (statePath (.ofStr "runs") "demo-000000000000").components
    (some (.json (RunState.codec.encode (twoContainers manifest))))

end PhenoCompose
