/-
The composition manifest: its types, and how `serde` writes and reads them. Every record refuses unknown members; the
codecs carry the proof that what is written is read back, with members in any order.
-/
import PhenoCompose.Error

namespace PhenoCompose

open Core.Collections Core.Json

def manifestApiVersion : String := "phenocompose.dev/v0"

inductive ManifestKind where
  | composition
deriving DecidableEq, Repr

structure Metadata where
  name : String
  labels : BTreeMap String
deriving DecidableEq

inductive Platform where
  | linux
  | windowsWsl
deriving DecidableEq, Repr

structure Toolkit where
  name : String
  version : String
deriving DecidableEq, Repr

structure Environment where
  platform : Platform
  toolkit : Toolkit
  variables_ : BTreeMap String
deriving DecidableEq

inductive RuntimeProvider where
  | podman
  | nvms
  | placeholder
deriving DecidableEq, Repr

inductive ExternalEngineToken where
  | docker
deriving DecidableEq, Repr

inductive EffectiveEngine where
  | podman
deriving DecidableEq, Repr

structure PortageCompatibility where
  externalEngineToken : ExternalEngineToken
  effectiveEngine : EffectiveEngine
deriving DecidableEq, Repr

structure RuntimeSpec where
  provider : RuntimeProvider
  capability : String
  wslDistribution : Option String
  portageCompatibility : Option PortageCompatibility
deriving DecidableEq, Repr

inductive ProviderStatus where
  | available
  | placeholder
  | unsupported
deriving DecidableEq, Repr

structure ProviderDeclaration where
  capability : String
  status : ProviderStatus
  implementation : Option String
deriving DecidableEq, Repr

inductive GpuVendor where
  | nvidia
  | amd
deriving DecidableEq, Repr

structure GpuRequirements where
  vendor : GpuVendor
  uuids : List String
deriving DecidableEq, Repr

structure ResourceRequirements where
  cpuMillis : Option UInt32
  memoryBytes : Option UInt64
  gpu : Option GpuRequirements
deriving DecidableEq, Repr

structure HealthCheck where
  command : List String
  intervalSeconds : UInt32
  timeoutSeconds : UInt32
  retries : UInt32
deriving DecidableEq, Repr

structure Service where
  image : String
  dependsOn : List String
  command : List String
  environment : BTreeMap String
  resources : Option ResourceRequirements
  healthCheck : Option HealthCheck
deriving DecidableEq

structure Action where
  service : String
  command : List String
  outputRoot : Option String
deriving DecidableEq, Repr

inductive ArtifactKind where
  | ociImage
  | file
  | directory
deriving DecidableEq, Repr

structure Artifact where
  name : String
  kind : ArtifactKind
  source : String
  publisher : String
deriving DecidableEq, Repr

structure Teardown where
  order : List String
  removeVolumes : Bool
deriving DecidableEq, Repr

inductive ProvenanceFormat where
  | phenocomposeV0
deriving DecidableEq, Repr

structure ProvenanceRequirements where
  required : Bool
  format : ProvenanceFormat
  include_ : BTreeSet
deriving DecidableEq

structure CompositionManifest where
  apiVersion : String
  kind : ManifestKind
  metadata : Metadata
  environment : Environment
  runtime : RuntimeSpec
  providers : BTreeMap ProviderDeclaration
  services : BTreeMap Service
  actions : BTreeMap Action
  artifacts : List Artifact
  teardown : Teardown
  provenance : ProvenanceRequirements
deriving DecidableEq

/-- `service.resources.as_ref().and_then(|resources| resources.gpu.as_ref())` -/
def Service.gpu (service : Service) : Option GpuRequirements := service.resources.bind (·.gpu)

/-! ## Codecs -/

def ManifestKind.codec : Codec ManifestKind :=
  .variants (fun | .composition => "Composition") [.composition] (by rintro ⟨⟩; rfl)

def Metadata.codec : Codec Metadata :=
  record ((required "name" .string (·.name)).and
    (defaulted "labels" (.btreeMap .string) ∅ (·.labels)))
    (fun (name, labels) => { name, labels }) (fun _ => rfl) (by decide)

def Platform.codec : Codec Platform :=
  .variants (fun | .linux => "linux" | .windowsWsl => "windows_wsl") [.linux, .windowsWsl] (by rintro ⟨⟩ <;> rfl)

def Toolkit.codec : Codec Toolkit :=
  record ((required "name" .string (·.name)).and
    (required "version" .string (·.version)))
    (fun (name, version) => { name, version }) (fun _ => rfl) (by decide)

def Environment.codec : Codec Environment :=
  record ((required "platform" Platform.codec (·.platform)).and <|
    (required "toolkit" Toolkit.codec (·.toolkit)).and
    (defaulted "variables" (.btreeMap .string) ∅ (·.variables_)))
    (fun (platform, toolkit, variables_) => { platform, toolkit, variables_ }) (fun _ => rfl) (by decide)

def RuntimeProvider.codec : Codec RuntimeProvider :=
  .variants (fun | .podman => "podman" | .nvms => "nvms" | .placeholder => "placeholder")
    [.podman, .nvms, .placeholder] (by rintro ⟨⟩ <;> rfl)

def ExternalEngineToken.codec : Codec ExternalEngineToken :=
  .variants (fun | .docker => "docker") [.docker] (by rintro ⟨⟩; rfl)

def EffectiveEngine.codec : Codec EffectiveEngine :=
  .variants (fun | .podman => "podman") [.podman] (by rintro ⟨⟩; rfl)

def PortageCompatibility.codec : Codec PortageCompatibility :=
  record ((required "external_engine_token" ExternalEngineToken.codec (·.externalEngineToken)).and
    (required "effective_engine" EffectiveEngine.codec (·.effectiveEngine)))
    (fun (externalEngineToken, effectiveEngine) => { externalEngineToken, effectiveEngine }) (fun _ => rfl)
    (by decide)

def optionString : Codec (Option String) := .option .string Codec.string_ne_null

def RuntimeSpec.codec : Codec RuntimeSpec :=
  record ((required "provider" RuntimeProvider.codec (·.provider)).and <|
    (required "capability" .string (·.capability)).and <|
    (defaulted "wsl_distribution" optionString none (·.wslDistribution)).and
    (defaulted "portage_compatibility" (.option PortageCompatibility.codec record_ne_null) none
      (·.portageCompatibility)))
    (fun (provider, capability, wslDistribution, portageCompatibility) =>
      { provider, capability, wslDistribution, portageCompatibility }) (fun _ => rfl) (by decide)

def ProviderStatus.codec : Codec ProviderStatus :=
  .variants (fun | .available => "available" | .placeholder => "placeholder" | .unsupported => "unsupported")
    [.available, .placeholder, .unsupported] (by rintro ⟨⟩ <;> rfl)

def ProviderDeclaration.codec : Codec ProviderDeclaration :=
  record ((required "capability" .string (·.capability)).and <|
    (required "status" ProviderStatus.codec (·.status)).and
    (defaulted "implementation" optionString none (·.implementation)))
    (fun (capability, status, implementation) => { capability, status, implementation }) (fun _ => rfl) (by decide)

def GpuVendor.codec : Codec GpuVendor :=
  .variants (fun | .nvidia => "nvidia" | .amd => "amd") [.nvidia, .amd] (by rintro ⟨⟩ <;> rfl)

def GpuRequirements.codec : Codec GpuRequirements :=
  record ((required "vendor" GpuVendor.codec (·.vendor)).and
    (required "uuids" (.vec .string) (·.uuids)))
    (fun (vendor, uuids) => { vendor, uuids }) (fun _ => rfl) (by decide)

def ResourceRequirements.codec : Codec ResourceRequirements :=
  record ((defaulted "cpu_millis" (.option .u32 Codec.u32_ne_null) none (·.cpuMillis)).and <|
    (defaulted "memory_bytes" (.option .u64 Codec.u64_ne_null) none (·.memoryBytes)).and
    (defaulted "gpu" (.option GpuRequirements.codec record_ne_null) none (·.gpu)))
    (fun (cpuMillis, memoryBytes, gpu) => { cpuMillis, memoryBytes, gpu }) (fun _ => rfl) (by decide)

def HealthCheck.codec : Codec HealthCheck :=
  record ((required "command" (.vec .string) (·.command)).and <|
    (required "interval_seconds" .u32 (·.intervalSeconds)).and <|
    (required "timeout_seconds" .u32 (·.timeoutSeconds)).and
    (required "retries" .u32 (·.retries)))
    (fun (command, intervalSeconds, timeoutSeconds, retries) =>
      { command, intervalSeconds, timeoutSeconds, retries }) (fun _ => rfl) (by decide)

def Service.codec : Codec Service :=
  record ((required "image" .string (·.image)).and <|
    (defaulted "depends_on" (.vec .string) [] (·.dependsOn)).and <|
    (defaulted "command" (.vec .string) [] (·.command)).and <|
    (defaulted "environment" (.btreeMap .string) ∅ (·.environment)).and <|
    (defaulted "resources" (.option ResourceRequirements.codec record_ne_null) none (·.resources)).and
    (defaulted "health_check" (.option HealthCheck.codec record_ne_null) none (·.healthCheck)))
    (fun (image, dependsOn, command, environment, resources, healthCheck) =>
      { image, dependsOn, command, environment, resources, healthCheck }) (fun _ => rfl) (by decide)

def Action.codec : Codec Action :=
  record ((required "service" .string (·.service)).and <|
    (required "command" (.vec .string) (·.command)).and
    (skipped "output_root" optionString none Option.isNone (fun _ => Option.isNone_iff_eq_none.1) (·.outputRoot)))
    (fun (service, command, outputRoot) => { service, command, outputRoot }) (fun _ => rfl) (by decide)

def ArtifactKind.codec : Codec ArtifactKind :=
  .variants (fun | .ociImage => "oci_image" | .file => "file" | .directory => "directory")
    [.ociImage, .file, .directory] (by rintro ⟨⟩ <;> rfl)

def Artifact.codec : Codec Artifact :=
  record ((required "name" .string (·.name)).and <|
    (required "kind" ArtifactKind.codec (·.kind)).and <|
    (required "source" .string (·.source)).and
    (required "publisher" .string (·.publisher)))
    (fun (name, kind, source, publisher) => { name, kind, source, publisher }) (fun _ => rfl) (by decide)

def Teardown.codec : Codec Teardown :=
  record ((defaulted "order" (.vec .string) [] (·.order)).and
    (required "remove_volumes" .bool (·.removeVolumes)))
    (fun (order, removeVolumes) => { order, removeVolumes }) (fun _ => rfl) (by decide)

def ProvenanceFormat.codec : Codec ProvenanceFormat :=
  .variants (fun | .phenocomposeV0 => "phenocompose_v0") [.phenocomposeV0] (by rintro ⟨⟩; rfl)

def ProvenanceRequirements.codec : Codec ProvenanceRequirements :=
  record ((Core.Json.required "required" .bool (·.required)).and <|
    (Core.Json.required "format" ProvenanceFormat.codec (·.format)).and
    (defaulted "include" .btreeSet ∅ (·.include_)))
    (fun (required, format, include_) => { required, format, include_ }) (fun _ => rfl) (by decide)

def CompositionManifest.codec : Codec CompositionManifest :=
  record ((required "api_version" .string (·.apiVersion)).and <|
    (required "kind" ManifestKind.codec (·.kind)).and <|
    (required "metadata" Metadata.codec (·.metadata)).and <|
    (required "environment" Environment.codec (·.environment)).and <|
    (required "runtime" RuntimeSpec.codec (·.runtime)).and <|
    (defaulted "providers" (.btreeMap ProviderDeclaration.codec) ∅ (·.providers)).and <|
    (required "services" (.btreeMap Service.codec) (·.services)).and <|
    (defaulted "actions" (.btreeMap Action.codec) ∅ (·.actions)).and <|
    (defaulted "artifacts" (.vec Artifact.codec) [] (·.artifacts)).and <|
    (required "teardown" Teardown.codec (·.teardown)).and
    (required "provenance" ProvenanceRequirements.codec (·.provenance)))
    (fun (apiVersion, kind, metadata, environment, runtime, providers, services, actions, artifacts, teardown,
        provenance) =>
      { apiVersion, kind, metadata, environment, runtime, providers, services, actions, artifacts, teardown,
        provenance }) (fun _ => rfl) (by decide)

/-! ## A composition of two services -/

/-- a service with one GPU -/
def gpuService (dependsOn : List String) (uuid : String) : Service where
  image := "registry.local/app:1"
  dependsOn := dependsOn
  command := ["serve"]
  environment := ∅
  resources := some { cpuMillis := none, memoryBytes := none, gpu := some { vendor := .nvidia, uuids := [uuid] } }
  healthCheck := none

def uuidA : String := "GPU-8f2b3c4d-0000-4000-8000-00000000000a"

/-- `api` needs `db`; everything `apply` and `run-action` ask for is declared -/
def twoServices (name uuid : String) (order : List String) (actionService : String) : CompositionManifest where
  apiVersion := manifestApiVersion
  kind := .composition
  metadata := { name := name, labels := ∅ }
  environment := { platform := .linux, toolkit := { name := "cuda", version := "12.4" }, variables_ := ∅ }
  runtime :=
    { provider := .podman
      capability := "oci.runtime"
      wslDistribution := none
      portageCompatibility := some { externalEngineToken := .docker, effectiveEngine := .podman } }
  providers := .ofList
    [("nanovms", { capability := "runtime.service_lifecycle", status := .available, implementation := none })] compare
  services := .ofList [("api", gpuService ["db"] uuid), ("db", gpuService [] uuid)] compare
  actions := .ofList
    [("evaluate", { service := actionService, command := ["run"], outputRoot := some "/out" })] compare
  artifacts := []
  teardown := { order := order, removeVolumes := false }
  provenance := { required := true, format := .phenocomposeV0, include_ := ∅ }

def demo : CompositionManifest := twoServices "demo" uuidA [] "api"

end PhenoCompose
