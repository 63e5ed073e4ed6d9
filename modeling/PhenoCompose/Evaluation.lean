/-
The evaluation request that an action sends to NanoVMS, the checks on the result, and what is kept of an outcome that
cannot be trusted.

- `Attested`: what a result satisfies that passes `validateEvaluationResult`.
- `Consistent`: what recorded evidence satisfies, whatever was received: bounded text, and a digest of that text.
- `trustworthy_consistent`, `trustworthy_truncated`: the sanitiser establishes the first and never hides a cut.
-/
import PhenoCompose.Lifecycle
import PhenoCompose.Core.Path

namespace PhenoCompose

open Core.Collections Core.Json Core.Path Core.Process Core.Text

/-! ## Wire types -/

def actionVersion : String := "nanovms.io/evaluation-action/v1"

def resourceVersion : String := "nanovms.io/resources/v1"

structure GpuBinding where
  uuid : String
  cudaToolkit : String
  cdiDevice : String
deriving DecidableEq, Repr

structure ResourceObservation where
  scope : String
  scopeId : String
  observedIndex : Int32
deriving DecidableEq

structure ResourceGpu where
  uuid : String
  name : Option String
  architecture : Option String
  computeCapability : Option String
  driverVersion : String
  driverCudaCeiling : String
  observations : List ResourceObservation
deriving DecidableEq

structure ArtifactRequirements where
  cudaToolkit : String
  compiledKernels : Bool
deriving DecidableEq, Repr

structure ResourceManifest where
  version : String
  gpus : List ResourceGpu
  artifact : ArtifactRequirements
deriving DecidableEq

structure EvaluationRequest where
  version : String
  backend : String
  fallbackBackends : List String
  manifestSha256 : String
  executable : String
  argv : List String
  environment : BTreeMap String
  externalEngineToken : String
  podmanPipe : String
  wslDistribution : String
  outputRoot : String
  reservationPath : String
  lockInvocation : List String
  resourceManifest : ResourceManifest
  gpuBindings : List GpuBinding
  timeoutMillis : Int64
  maxOutputBytes : UInt64
deriving DecidableEq

structure Lifecycle where
  exitCode : Int32
  durationMs : Int64
  timedOut : Bool
  truncated : Bool
  stdout : String
  stderr : String
  stdoutSha256 : String
  stderrSha256 : String
deriving DecidableEq

structure EvaluationProvenance where
  manifestSha256 : String
  effectiveEngine : String
  resolvedProvider : String
  executionPlane : String
  podmanPipe : String
  gpuUuids : List String
  jobDirectory : String
  outputRootCreated : Bool
  outputRootAvailableBytes : Option UInt64
  toolkitVersion : Option String
  toolkitRoot : Option String
  toolkitExecutable : Option String
deriving DecidableEq

structure EvaluationResult where
  version : String
  success : Bool
  errorCode : String
  errorMessage : String
  lifecycle : Lifecycle
  provenance : EvaluationProvenance
  released : Bool
deriving DecidableEq

structure EvaluationFailure where
  error : CliError
  lifecycle : Lifecycle
deriving DecidableEq

variable (lib : Externals)

/-- the evidence of an outcome seen by this process: lossily decoded text beside the digest of the raw bytes -/
def Lifecycle.localFailure (stdout stderr : Bytes) : Lifecycle where
  exitCode := -1
  durationMs := 0
  timedOut := false
  truncated := false
  stdout := fromUtf8Lossy stdout
  stderr := fromUtf8Lossy stderr
  stdoutSha256 := lib.sha256Hex stdout
  stderrSha256 := lib.sha256Hex stderr

def EvaluationFailure.new (error : CliError) (stdout stderr : Bytes) : EvaluationFailure where
  error := error
  lifecycle := Lifecycle.localFailure lib stdout stderr

/-! ## Checks -/

def validateEvidenceHash (label : String) (evidence : Bytes) (claimed : String) : Result Unit := do
  refuseIf (claimed.utf8ByteSize ≠ 64 ∨ ¬claimed.toList.all isAsciiHexdigit) <|
    .backend "nvms_evidence_hash_invalid" ("NanoVMS " ++ label ++ " hash is not a SHA-256 hex digest")
  refuseIf (¬eqIgnoreAsciiCase (lib.sha256Hex evidence) claimed) <|
    .backend "nvms_evidence_hash_mismatch" ("NanoVMS " ++ label ++ " hash does not match bounded evidence")

/-- the job directory is absolute and its parent is the output root, as paths compare -/
def jobDirectoryMatches (outputRoot jobDirectory : String) : Prop :=
  (PathBuf.ofStr jobDirectory).isAbsolute = true ∧
    (PathBuf.ofStr jobDirectory).parent = some (PathBuf.ofStr outputRoot).components

instance (outputRoot jobDirectory : String) : Decidable (jobDirectoryMatches outputRoot jobDirectory) := by
  unfold jobDirectoryMatches; infer_instance

def validateEvaluationResult (request : EvaluationRequest) (result : EvaluationResult) : Result Unit := do
  refuseIf (result.version ≠ actionVersion) <|
    .backend "nvms_version_mismatch" ("unexpected NanoVMS action version " ++ lib.debugStr result.version)
  let provenance := result.provenance
  refuseIf (¬eqIgnoreAsciiCase provenance.manifestSha256 request.manifestSha256) <|
    .backend "nvms_manifest_mismatch" "NanoVMS returned a different manifest digest"
  refuseIf (provenance.effectiveEngine ≠ "podman" ∨ provenance.resolvedProvider ≠ "podman" ∨
      provenance.executionPlane ≠ "nanovms") <|
    .backend "nvms_route_mismatch"
      "NanoVMS did not attest the exact podman provider through the nanovms execution plane"
  refuseIf (provenance.podmanPipe ≠ request.podmanPipe) <|
    .backend "nvms_pipe_mismatch" "NanoVMS returned a different Podman pipe"
  refuseIf (provenance.jobDirectory ≠ "" ∧ ¬jobDirectoryMatches request.outputRoot provenance.jobDirectory) <|
    .backend "nvms_output_root_mismatch" "NanoVMS returned a job directory outside the requested output root"
  let expected : BTreeSet := .ofList (request.gpuBindings.map (·.uuid)) compare
  let actual : BTreeSet := .ofList provenance.gpuUuids compare
  refuseIf (expected ≠ actual ∨ actual.size ≠ provenance.gpuUuids.length) <|
    .backend "nvms_gpu_binding_mismatch" "NanoVMS returned different or duplicate GPU UUID bindings"
  let lifecycle := result.lifecycle
  refuseIf (lifecycle.durationMs < 0 ∨ request.timeoutMillis < lifecycle.durationMs ∨
      request.maxOutputBytes.toNat < lifecycle.stdout.utf8ByteSize ∨
      request.maxOutputBytes.toNat < lifecycle.stderr.utf8ByteSize) <|
    .backend "nvms_lifecycle_limits" "NanoVMS lifecycle evidence exceeded the requested bounds"
  validateEvidenceHash lib "stdout" (bytes lifecycle.stdout) lifecycle.stdoutSha256
  validateEvidenceHash lib "stderr" (bytes lifecycle.stderr) lifecycle.stderrSha256
  refuseIf (result.success = true ∧ (result.released = false ∨ lifecycle.exitCode ≠ 0 ∨ lifecycle.timedOut = true ∨
      lifecycle.truncated = true ∨ result.errorCode ≠ "" ∨ result.errorMessage ≠ "")) <|
    .backend "nvms_success_inconsistent" "NanoVMS success result contains failure lifecycle evidence"

/-! ## Sanitising -/

/-- at most `limit` bytes of the text, cut between two characters; the flag is raised by a cut -/
def boundedString (value : String) (limit : ℕ) (truncated : Bool) : String × Bool :=
  if value.utf8ByteSize ≤ limit then (value, truncated)
  else (String.ofList (truncate value.toList (floorCharBoundary value.toList limit)), true)

/-- the claimed digest when it is right, the digest of the text otherwise -/
def evidenceHash (label text claimed : String) : String :=
  match validateEvidenceHash lib label (bytes text) claimed with
  | .ok _ => claimed
  | .error _ => lib.sha256Hex (bytes text)

def trustworthyFailureLifecycle (lifecycle : Lifecycle) (maxOutputBytes : ℕ) : Lifecycle :=
  let stdout := boundedString lifecycle.stdout maxOutputBytes lifecycle.truncated
  let stderr := boundedString lifecycle.stderr maxOutputBytes stdout.2
  { lifecycle with
    stdout := stdout.1
    stderr := stderr.1
    truncated := stderr.2
    stdoutSha256 := evidenceHash lib "stdout" stdout.1 lifecycle.stdoutSha256
    stderrSha256 := evidenceHash lib "stderr" stderr.1 lifecycle.stderrSha256 }

/-! ## What a result attests -/

structure Attested (request : EvaluationRequest) (result : EvaluationResult) : Prop where
  version : result.version = actionVersion
  manifestSha256 : eqIgnoreAsciiCase result.provenance.manifestSha256 request.manifestSha256
  effectiveEngine : result.provenance.effectiveEngine = "podman"
  resolvedProvider : result.provenance.resolvedProvider = "podman"
  executionPlane : result.provenance.executionPlane = "nanovms"
  podmanPipe : result.provenance.podmanPipe = request.podmanPipe
  jobDirectory : result.provenance.jobDirectory ≠ "" →
    jobDirectoryMatches request.outputRoot result.provenance.jobDirectory
  gpuUuids : ∀ uuid, uuid ∈ request.gpuBindings.map (·.uuid) ↔ uuid ∈ result.provenance.gpuUuids
  gpuUuids_nodup : result.provenance.gpuUuids.Nodup
  duration_nonneg : 0 ≤ result.lifecycle.durationMs
  duration_le : result.lifecycle.durationMs ≤ request.timeoutMillis
  stdout_le : result.lifecycle.stdout.utf8ByteSize ≤ request.maxOutputBytes.toNat
  stderr_le : result.lifecycle.stderr.utf8ByteSize ≤ request.maxOutputBytes.toNat
  stdoutSha256 : validateEvidenceHash lib "stdout" (bytes result.lifecycle.stdout)
    result.lifecycle.stdoutSha256 = .ok ()
  stderrSha256 : validateEvidenceHash lib "stderr" (bytes result.lifecycle.stderr)
    result.lifecycle.stderrSha256 = .ok ()
  success : result.success = true → result.released = true ∧ result.lifecycle.exitCode = 0 ∧
    result.lifecycle.timedOut = false ∧ result.lifecycle.truncated = false ∧ result.errorCode = "" ∧
    result.errorMessage = ""

theorem validateEvidenceHash_ok_iff {label claimed : String} {evidence : Bytes} {u : Unit} :
    validateEvidenceHash lib label evidence claimed = .ok u ↔
      claimed.utf8ByteSize = 64 ∧ claimed.toList.all isAsciiHexdigit ∧
        eqIgnoreAsciiCase (lib.sha256Hex evidence) claimed := by
  simp only [validateEvidenceHash, bind_eq_ok, refuseIf_ok, not_or, not_not]
  exact ⟨fun ⟨_, ⟨h, h'⟩, h''⟩ => ⟨h, h', h''⟩, fun ⟨h, h', h''⟩ => ⟨(), ⟨h, h'⟩, h''⟩⟩

/-- the checks accept exactly the attested results -/
theorem validateEvaluationResult_ok_iff {request : EvaluationRequest} {result : EvaluationResult} :
    validateEvaluationResult lib request result = .ok () ↔ Attested lib request result := by
  have hsuccess : ¬(result.success = true ∧ (result.released = false ∨ result.lifecycle.exitCode ≠ 0 ∨
      result.lifecycle.timedOut = true ∨ result.lifecycle.truncated = true ∨ result.errorCode ≠ "" ∨
      result.errorMessage ≠ "")) ↔
      (result.success = true → result.released = true ∧ result.lifecycle.exitCode = 0 ∧
        result.lifecycle.timedOut = false ∧ result.lifecycle.truncated = false ∧ result.errorCode = "" ∧
        result.errorMessage = "") := by
    simp only [not_and, not_or, Bool.not_eq_false, Bool.not_eq_true, not_not]
  simp only [validateEvaluationResult, bind_eq_ok, refuseIf_ok, hsuccess]
  simp only [not_or, not_and, not_not, Int64.not_lt, Nat.not_lt, set_ofList_eq_iff, set_size_eq_length_iff]
  refine ⟨?_, ?_⟩
  · intro hx
    obtain ⟨-, hv, -, hm, -, ⟨he, hr, hx⟩, -, hp, -, hj, -, ⟨hu, hn⟩, -, ⟨hd, ht, ho, hr'⟩, ⟨⟩, hso, ⟨⟩, hse, hs⟩ := hx
    exact ⟨hv, hm, he, hr, hx, hp, hj, hu, hn, hd, ht, ho, hr', hso, hse, hs⟩
  · intro hx
    obtain ⟨hv, hm, he, hr, hx, hp, hj, hu, hn, hd, ht, ho, hr', hso, hse, hs⟩ := hx
    exact ⟨(), hv, (), hm, (), ⟨he, hr, hx⟩, (), hp, (), hj, (), ⟨hu, hn⟩, (), ⟨hd, ht, ho, hr'⟩, (), hso, (), hse, hs⟩

/-! ## Recorded evidence -/

/-- bounded text with a digest of it -/
structure Consistent (lifecycle : Lifecycle) (maxOutputBytes : ℕ) : Prop where
  stdout_le : lifecycle.stdout.utf8ByteSize ≤ maxOutputBytes
  stderr_le : lifecycle.stderr.utf8ByteSize ≤ maxOutputBytes
  stdoutSha256 : eqIgnoreAsciiCase lifecycle.stdoutSha256 (lib.sha256Hex (bytes lifecycle.stdout))
  stderrSha256 : eqIgnoreAsciiCase lifecycle.stderrSha256 (lib.sha256Hex (bytes lifecycle.stderr))

theorem eqIgnoreAsciiCase_symm {a b : String} (h : eqIgnoreAsciiCase a b = true) :
    eqIgnoreAsciiCase b a = true := by
  simp only [eqIgnoreAsciiCase, beq_iff_eq] at h ⊢
  exact h.symm

theorem evidenceHash_matches (label text claimed : String) :
    eqIgnoreAsciiCase (evidenceHash lib label text claimed) (lib.sha256Hex (bytes text)) = true := by
  unfold evidenceHash
  cases h : validateEvidenceHash lib label (bytes text) claimed with
  | ok u => exact eqIgnoreAsciiCase_symm ((validateEvidenceHash_ok_iff lib).1 h).2.2
  | error e => exact eqIgnoreAsciiCase_refl _

/-- a text within the limit is kept with the flag; a longer one is cut to the limit and the flag raised -/
theorem boundedString_spec (value : String) (limit : ℕ) (truncated : Bool) :
    (boundedString value limit truncated).1.utf8ByteSize ≤ limit ∧
      ((boundedString value limit truncated = (value, truncated)) ∨ (boundedString value limit truncated).2 = true) := by
  unfold boundedString
  split_ifs with h
  · exact ⟨h, .inl rfl⟩
  · exact ⟨(utf8ByteSize_truncate_le _ _).trans (floorCharBoundary_le _ _), .inr rfl⟩

theorem boundedString_flag (value : String) (limit : ℕ) : (boundedString value limit true).2 = true := by
  rcases (boundedString_spec value limit true).2 with h | h
  · rw [h]
  · exact h

theorem trustworthy_consistent (lifecycle : Lifecycle) (maxOutputBytes : ℕ) :
    Consistent lib (trustworthyFailureLifecycle lib lifecycle maxOutputBytes) maxOutputBytes where
  stdout_le := (boundedString_spec _ _ _).1
  stderr_le := (boundedString_spec _ _ _).1
  stdoutSha256 := evidenceHash_matches lib _ _ _
  stderrSha256 := evidenceHash_matches lib _ _ _

/-- nothing is cut without the flag: either it is raised, or both texts are as received and so is the flag -/
theorem trustworthy_truncated (lifecycle : Lifecycle) (maxOutputBytes : ℕ) :
    (trustworthyFailureLifecycle lib lifecycle maxOutputBytes).truncated = true ∨
      ((trustworthyFailureLifecycle lib lifecycle maxOutputBytes).stdout = lifecycle.stdout ∧
        (trustworthyFailureLifecycle lib lifecycle maxOutputBytes).stderr = lifecycle.stderr ∧
        lifecycle.truncated = false) := by
  simp only [trustworthyFailureLifecycle]
  rcases (boundedString_spec lifecycle.stdout maxOutputBytes lifecycle.truncated).2 with ho | ho
  · rw [ho]
    rcases (boundedString_spec lifecycle.stderr maxOutputBytes lifecycle.truncated).2 with he | he
    · rw [he]
      cases lifecycle.truncated
      · exact .inr ⟨rfl, rfl, rfl⟩
      · exact .inl rfl
    · exact .inl he
  · rw [ho]
    exact .inl (boundedString_flag _ _)

/-- evidence that passed the checks is kept unchanged -/
theorem trustworthy_attested {request : EvaluationRequest} {result : EvaluationResult}
    (h : Attested lib request result) :
    trustworthyFailureLifecycle lib result.lifecycle request.maxOutputBytes.toNat = result.lifecycle := by
  have hkeep : ∀ (value : String) (truncated : Bool), value.utf8ByteSize ≤ request.maxOutputBytes.toNat →
      boundedString value request.maxOutputBytes.toNat truncated = (value, truncated) :=
    fun value truncated hle => if_pos hle
  rw [trustworthyFailureLifecycle, hkeep _ _ h.stdout_le, hkeep _ _ h.stderr_le]
  simp only [evidenceHash, h.stdoutSha256, h.stderrSha256]

end PhenoCompose
