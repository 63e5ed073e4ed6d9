/-
The lifecycle request that a mutating apply sends to NanoVMS, and the checks on the result.

The digest is computed on the canonical copy of the manifest, the request from the manifest as it was written. Hence
`lifecycle_request_determined`: two manifests with the same canonical copy produce the same request, in canonical form,
exactly when their selectors were canonical to begin with.
-/
import PhenoCompose.ServiceGraph

namespace PhenoCompose

open Core.Collections Core.Process Core.Text

/-! ## Wire types -/

def serviceLifecycleVersion : String := "nanovms.io/service-lifecycle/v1"

def defaultPodmanPipe : String := "npipe:////./pipe/podman-machine-default"

structure ServiceLifecycleIntent where
  phase : String
  service : String
  image : Option String
  dependsOn : List String
deriving DecidableEq, Repr

structure ServiceDefinition where
  image : String
  dependsOn : List String
  command : List String
  environment : BTreeMap String
  cpuMillis : Option UInt32
  memoryBytes : Option UInt64
  gpuUuids : List String
deriving DecidableEq

structure ServiceLifecycleRequest where
  version : String
  schemaVersion : String
  manifestSha256 : String
  runId : String
  wslDistribution : String
  podmanPipe : String
  order : List String
  intents : List ServiceLifecycleIntent
  services : BTreeMap ServiceDefinition
deriving DecidableEq

structure ServiceLifecycleResult where
  version : String
  success : Bool
  errorCode : String
  errorMessage : String
  containers : BTreeMap String
  effectiveEngine : String
  resolvedProvider : String
  podmanPipe : String
deriving DecidableEq

structure ServiceLifecycleFailure where
  error : CliError
  result : ServiceLifecycleResult
deriving DecidableEq

/-! ## Request and result -/

def serviceDefinition (service : Service) : ServiceDefinition where
  image := service.image
  dependsOn := service.dependsOn
  command := service.command
  environment := service.environment
  cpuMillis := service.resources.bind (·.cpuMillis)
  memoryBytes := service.resources.bind (·.memoryBytes)
  gpuUuids := ((service.resources.bind (·.gpu)).map (·.uuids)).getD []

def lifecycleIntent (intent : ServiceIntent) : ServiceLifecycleIntent where
  phase := match intent.phase with
    | .create => "create"
    | .start => "start"
  service := intent.service
  image := intent.image
  dependsOn := intent.dependsOn

def buildLifecycleRequest (manifest : CompositionManifest) (plan : LifecyclePlan) (runId manifestSha256 : String) :
    ServiceLifecycleRequest where
  version := serviceLifecycleVersion
  schemaVersion := lifecycleSchemaVersion
  manifestSha256 := manifestSha256
  runId := runId
  wslDistribution := manifest.runtime.wslDistribution.getD ""
  podmanPipe := defaultPodmanPipe
  order := plan.order
  intents := plan.intents.map lifecycleIntent
  services := manifest.services.map fun _ service => serviceDefinition service

variable (lib : Externals)

def validateLifecycleResult (request : ServiceLifecycleRequest) (result : ServiceLifecycleResult) : Result Unit := do
  refuseIf (result.version ≠ serviceLifecycleVersion) <|
    .backend "nvms_version_mismatch" ("unexpected NanoVMS lifecycle version " ++ lib.debugStr result.version)
  refuseIf (result.success = false) <|
    .backend (if result.errorCode = "" then "nvms_lifecycle_failed" else result.errorCode) result.errorMessage
  refuseIf (result.effectiveEngine ≠ "podman" ∨ result.resolvedProvider ≠ "podman") <|
    .backend "nvms_route_mismatch" "NanoVMS did not attest the podman provider for service lifecycle"
  refuseIf (result.podmanPipe ≠ request.podmanPipe) <|
    .backend "nvms_pipe_mismatch" "NanoVMS returned a different Podman pipe"
  request.order.forM fun service =>
    refuseIf (service ∉ result.containers) <|
      .backend "nvms_container_missing" ("NanoVMS lifecycle result is missing container for service " ++ service)

/-! ## Run ids -/

def sanitizeChar (character : Char) : Char :=
  if character.isAlphanum || character == '-' then character.toLower else '-'

def sanitizeName (name : String) : String := String.ofList (name.toList.map sanitizeChar)

/-- `&value[..end]`: panics unless `end` is in range and between two characters -/
def sliceTo (value : String) (end_ : ℕ) : Result String :=
  if isCharBoundary value.toList end_ then .ok (String.ofList (truncate value.toList end_))
  else .error (.panic "byte index is not a char boundary")

def runId (manifest : CompositionManifest) (manifestSha256 : String) : Result String := do
  let digest ← sliceTo manifestSha256 12
  .ok (sanitizeName manifest.metadata.name ++ "-" ++ digest)

/-- the request of an apply of this manifest -/
def lifecycleRequest (manifest : CompositionManifest) : Result ServiceLifecycleRequest := do
  let plan ← manifest.plan lib
  let lifecycle ← planLifecycle manifest plan.manifestSha256
  let runId ← runId manifest plan.manifestSha256
  .ok (buildLifecycleRequest manifest lifecycle runId plan.manifestSha256)

theorem isCharBoundary_ascii {cs : List Char} (h : ∀ c ∈ cs, c.utf8Size = 1) {n : ℕ} (hn : n ≤ cs.length) :
    isCharBoundary cs n = true ∧ truncate cs n = cs.take n := by
  induction cs generalizing n with
  | nil =>
    obtain rfl : n = 0 := by simpa using hn
    simp [isCharBoundary, truncate]
  | cons c cs ih =>
    have hc := h c List.mem_cons_self
    cases n with
    | zero => simp [isCharBoundary, truncate, hc]
    | succ n =>
      obtain ⟨hb, ht⟩ := ih (fun d hd => h d (List.mem_cons_of_mem c hd)) (Nat.le_of_succ_le_succ hn)
      simp [isCharBoundary, truncate, hc, hb, ht]

/-- the first twelve digits of a digest -/
def shortDigest (bytes : Bytes) : String := String.ofList ((lib.sha256Hex bytes).toList.take 12)

theorem slice_digest (bytes : Bytes) : sliceTo (lib.sha256Hex bytes) 12 = .ok (shortDigest lib bytes) := by
  have hascii : ∀ c ∈ (lib.sha256Hex bytes).toList, c.utf8Size = 1 := fun c hc => (hex_chars _ c hc).2.2
  have h := isCharBoundary_ascii hascii (show 12 ≤ _ by rw [Externals.sha256Hex_length]; omega)
  rw [sliceTo, if_pos h.1, h.2, shortDigest]

theorem runId_ok (manifest : CompositionManifest) (bytes : Bytes) :
    runId manifest (lib.sha256Hex bytes) =
      .ok (sanitizeName manifest.metadata.name ++ "-" ++ shortDigest lib bytes) := by
  rw [runId, slice_digest, ok_bind]

theorem sanitizeChar_alphanum (c : Char) : (sanitizeChar c).isAlphanum = c.isAlphanum := by
  unfold sanitizeChar
  cases hc : c.isAlphanum with
  | true => simp [alphanum_toLower, hc]
  | false =>
    split_ifs with h
    · rw [alphanum_toLower, hc]
    · rfl

theorem sanitizeChar_word (c : Char) : ((sanitizeChar c).isAlphanum || sanitizeChar c == '-') = true := by
  rw [sanitizeChar_alphanum]
  cases hc : c.isAlphanum with
  | true => rfl
  | false =>
    by_cases hh : c = '-'
    · subst hh; decide
    · rw [sanitizeChar, hc, beq_false_of_ne hh]
      rfl

theorem isWord_sanitizeName (name : String) : isWord (sanitizeName name) = true := by
  rw [isWord, sanitizeName, String.toList_ofList, List.all_map, List.all_eq_true]
  intro c _
  rw [Function.comp_apply, sanitizeChar_word, Bool.true_or]

theorem isWord_shortDigest (input : Bytes) : isWord (shortDigest lib input) = true := by
  rw [isWord, shortDigest, String.toList_ofList, List.all_eq_true]
  intro c hc
  have h : c.isAlphanum = true := (hex_chars _ c (List.mem_of_mem_take hc)).2.1
  rw [h, Bool.true_or, Bool.true_or]

theorem isWord_runId {manifest : CompositionManifest} {input : Bytes} {run : String}
    (h : runId manifest (lib.sha256Hex input) = .ok run) : isWord run = true := by
  rw [runId_ok] at h
  rw [← Except.ok.inj h]
  exact isWord_append (isWord_append (isWord_sanitizeName _) (by decide)) (isWord_shortDigest lib input)

/-- the request of a valid manifest -/
theorem Valid.request_eq {manifest : CompositionManifest} (h : Valid manifest) :
    ∃ lifecycle run, planLifecycle manifest (lib.sha256Hex (manifest.canonicalBytes lib)) = .ok lifecycle ∧
      runId manifest (lib.sha256Hex (manifest.canonicalBytes lib)) = .ok run ∧
      manifest.serviceOrder = .ok lifecycle.order ∧
      lifecycleRequest lib manifest = .ok
        (buildLifecycleRequest manifest lifecycle run (lib.sha256Hex (manifest.canonicalBytes lib))) := by
  obtain ⟨lifecycle, hl, ho⟩ := h.planLifecycle_eq (lib.sha256Hex (manifest.canonicalBytes lib))
  refine ⟨lifecycle, _, hl, runId_ok lib manifest _, ho, ?_⟩
  rw [lifecycleRequest, h.plan_eq lib, ok_bind, hl, ok_bind, runId_ok, ok_bind]

/-! ## What is sent and what is hashed -/

/-- `GPU-` and a lower-case UUID -/
def IsCanonical (uuid : String) : Prop := canonicalGpuUuid uuid = some uuid

/-- every selector in the request is canonical -/
def ServiceLifecycleRequest.Canonical (request : ServiceLifecycleRequest) : Prop :=
  ∀ (name : String) definition, request.services[name]? = some definition →
    ∀ uuid ∈ definition.gpuUuids, IsCanonical uuid

theorem build_canonical_iff (manifest : CompositionManifest) (plan : LifecyclePlan) (run sha : String) :
    (buildLifecycleRequest manifest plan run sha).Canonical ↔ manifest.Selectors IsCanonical := by
  simp only [ServiceLifecycleRequest.Canonical, buildLifecycleRequest, Std.ExtTreeMap.getElem?_map]
  refine ⟨?_, ?_⟩
  · intro h name service hs
    exact h name (serviceDefinition service) (by rw [hs]; rfl)
  · intro h name definition hd
    obtain ⟨service, hs, rfl⟩ := Option.map_eq_some_iff.1 hd
    exact h name service hs

/-- **What is sent is determined by what is hashed, for canonical selectors only.** Two valid manifests with the same
canonical copy have the same digest; their requests are the same and in canonical form exactly when both manifests
spelled every selector canonically. -/
theorem lifecycle_request_determined (m₁ m₂ : CompositionManifest) (h₁ : m₁.validate lib = .ok ())
    (h₂ : m₂.validate lib = .ok ()) (p₁ p₂ : Plan) (hp₁ : m₁.plan lib = .ok p₁) (hp₂ : m₂.plan lib = .ok p₂)
    (hn : p₁.normalized = p₂.normalized) :
    p₁.manifestSha256 = p₂.manifestSha256 ∧
      runId m₁ p₁.manifestSha256 = runId m₂ p₂.manifestSha256 ∧
      ((∃ r, lifecycleRequest lib m₁ = .ok r ∧ lifecycleRequest lib m₂ = .ok r ∧ r.Canonical) ↔
        m₁.Selectors IsCanonical ∧ m₂.Selectors IsCanonical) := by
  have hv₁ := (validate_ok_iff lib).1 h₁
  have hv₂ := (validate_ok_iff lib).1 h₂
  obtain ⟨-, rfl⟩ := (plan_ok_iff lib).1 hp₁
  obtain ⟨-, rfl⟩ := (plan_ok_iff lib).1 hp₂
  have hc : m₁.canonical = m₂.canonical := hn
  have hsha : m₁.canonicalBytes lib = m₂.canonicalBytes lib := by
    rw [CompositionManifest.canonicalBytes, hc, CompositionManifest.canonicalBytes]
  have hname : m₁.metadata = m₂.metadata := congrArg (·.metadata) hc
  refine ⟨congrArg lib.sha256Hex hsha, by rw [runId_ok, runId_ok, hname, hsha], ?_, ?_⟩
  · intro hx
    obtain ⟨r, hr₁, hr₂, hcan⟩ := hx
    obtain ⟨l₁, run₁, -, -, -, he₁⟩ := hv₁.request_eq lib
    obtain ⟨l₂, run₂, -, -, -, he₂⟩ := hv₂.request_eq lib
    rw [he₁] at hr₁
    rw [he₂] at hr₂
    cases hr₁
    have hcan₂ := hcan
    rw [← Except.ok.inj hr₂] at hcan₂
    exact ⟨(build_canonical_iff m₁ l₁ run₁ _).1 hcan, (build_canonical_iff m₂ l₂ run₂ _).1 hcan₂⟩
  · intro hx
    obtain ⟨hs₁, hs₂⟩ := hx
    -- canonical spellings make each manifest its own canonical copy
    have hm : m₁ = m₂ := by rw [← canonical_eq_self hs₁, hc, canonical_eq_self hs₂]
    subst hm
    obtain ⟨l, run, -, -, -, he⟩ := hv₁.request_eq lib
    exact ⟨_, he, he, (build_canonical_iff m₁ l run _).2 hs₁⟩

/-- the same composition with its GPU spelled in another way -/
def bare : CompositionManifest := twoServices "demo" "8F2B3C4D-0000-4000-8000-00000000000A" [] "api"

theorem bare_canonical : bare.canonical = demo.canonical := by decide +kernel

theorem determined_example : ∃ p₁ p₂, demo.plan .standard = .ok p₁ ∧ bare.plan .standard = .ok p₂ ∧
    p₁.manifestSha256 = p₂.manifestSha256 ∧ runId demo p₁.manifestSha256 = runId bare p₂.manifestSha256 ∧
    ((∃ r, lifecycleRequest .standard demo = .ok r ∧ lifecycleRequest .standard bare = .ok r ∧ r.Canonical) ↔
      demo.Selectors IsCanonical ∧ bare.Selectors IsCanonical) :=
  have h₁ := ((validate_ok_iff .standard).1 demo_valid).plan_eq .standard
  have h₂ := ((validate_ok_iff .standard).1 (rfl : bare.validate .standard = .ok ())).plan_eq .standard
  ⟨_, _, h₁, h₂, lifecycle_request_determined .standard demo bare demo_valid rfl _ _ h₁ h₂ bare_canonical.symm⟩

/-- two spellings of one GPU: the same digest, different requests -/
theorem spelling_changes_request : ∃ p₁ p₂, demo.validate .standard = .ok () ∧ bare.validate .standard = .ok () ∧
    demo.plan .standard = .ok p₁ ∧ bare.plan .standard = .ok p₂ ∧ p₁.normalized = p₂.normalized ∧
    lifecycleRequest .standard demo ≠ lifecycleRequest .standard bare := by
  have hv₁ := (validate_ok_iff .standard).1 demo_valid
  have hv₂ := (validate_ok_iff .standard).1 (rfl : bare.validate .standard = .ok ())
  refine ⟨_, _, demo_valid, rfl, hv₁.plan_eq .standard, hv₂.plan_eq .standard, bare_canonical.symm, fun he => ?_⟩
  obtain ⟨_, _, -, -, -, he₁⟩ := hv₁.request_eq .standard
  obtain ⟨_, _, -, -, -, he₂⟩ := hv₂.request_eq .standard
  have hservices := congrArg (·.services["api"]?) (Except.ok.inj (he₁.symm.trans (he.trans he₂)))
  simp only [buildLifecycleRequest, Std.ExtTreeMap.getElem?_map] at hservices
  have hone : demo.services["api"]? = some (gpuService ["db"] uuidA) := rfl
  have htwo : bare.services["api"]? = some (gpuService ["db"] "8F2B3C4D-0000-4000-8000-00000000000A") := rfl
  rw [hone, htwo] at hservices
  exact absurd hservices (by decide)

end PhenoCompose
