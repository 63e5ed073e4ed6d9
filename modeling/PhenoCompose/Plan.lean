/-
`CompositionManifest::plan`: GPU selectors are replaced by their canonical form in a copy of the manifest, the copy is
written as canonical JSON, and the digest of that text names the composition.

`canonical` is the same replacement as a total function; `plan_ok_iff` says that `plan` succeeds when every selector is a
UUID, with the digest of the canonical manifest and that manifest itself.
-/
import PhenoCompose.Validate

namespace PhenoCompose

open Core.Collections Core.Json Core.Process Core.Text

variable (lib : Externals)

/-! ## Model -/

structure Plan where
  schemaVersion : String
  manifestSha256 : String
  normalized : CompositionManifest

def canonicalSelector (name uuid : String) : Result String :=
  match canonicalGpuUuid uuid with
  | some canonical => .ok canonical
  | none => Err (ordinalError lib name uuid)

def Service.normalizeGpuUuids (name : String) (service : Service) : Result Service :=
  match service.resources with
  | none => .ok service
  | some resources => match resources.gpu with
    | none => .ok service
    | some gpu => do
      let uuids ← gpu.uuids.mapM (canonicalSelector lib name)
      .ok { service with resources := some { resources with gpu := some { gpu with uuids := uuids } } }

def CompositionManifest.normalizeGpuUuids (manifest : CompositionManifest) : Result CompositionManifest := do
  let services ← manifest.services.toList.mapM fun e => do
    let service ← e.2.normalizeGpuUuids lib e.1
    .ok (e.1, service)
  .ok { manifest with services := .ofList services compare }

def CompositionManifest.plan (manifest : CompositionManifest) : Result Plan := do
  let manifest ← manifest.normalizeGpuUuids lib
  let normalizedValue := canonicalize (CompositionManifest.codec.encode manifest)
  let normalizedBytes := lib.toVec normalizedValue
  let digest := lib.sha256Hex normalizedBytes
  let normalized ← lib.fromStr "CompositionManifest" CompositionManifest.codec (.json normalizedValue)
  .ok { schemaVersion := manifestApiVersion, manifestSha256 := digest, normalized := normalized }

/-! ## The canonical manifest -/

def canonicalOrSelf (uuid : String) : String := (canonicalGpuUuid uuid).getD uuid

def Service.mapUuids (f : String → String) (service : Service) : Service :=
  { service with resources := service.resources.map fun resources =>
      { resources with gpu := resources.gpu.map fun gpu => { gpu with uuids := gpu.uuids.map f } } }

/-- every GPU selector in its canonical form -/
def CompositionManifest.canonical (manifest : CompositionManifest) : CompositionManifest :=
  { manifest with services := manifest.services.map fun _ service => service.mapUuids canonicalOrSelf }

/-- the selectors of a service -/
def Service.gpuUuids (service : Service) : List String := (service.gpu.map (·.uuids)).getD []

/-- every selector of the manifest satisfies `p` -/
def CompositionManifest.Selectors (p : String → Prop) (manifest : CompositionManifest) : Prop :=
  ∀ (name : String) service, manifest.services[name]? = some service → ∀ uuid ∈ service.gpuUuids, p uuid

theorem canonicalSelector_ok_iff {name uuid canonical : String} :
    canonicalSelector lib name uuid = .ok canonical ↔
      canonicalGpuUuid uuid ≠ none ∧ canonical = canonicalOrSelf uuid := by
  unfold canonicalSelector canonicalOrSelf
  cases canonicalGpuUuid uuid <;> simp [Err, eq_comm]

theorem Service.normalizeGpuUuids_ok_iff {name : String} {service service' : Service} :
    service.normalizeGpuUuids lib name = .ok service' ↔
      (∀ uuid ∈ service.gpuUuids, canonicalGpuUuid uuid ≠ none) ∧
        service' = service.mapUuids canonicalOrSelf := by
  obtain ⟨image, dependsOn, command, environment, resources, healthCheck⟩ := service
  rcases resources with _ | ⟨cpu, memory, _ | ⟨vendor, uuids⟩⟩
  · simp [Service.normalizeGpuUuids, Service.gpuUuids, Service.gpu, Service.mapUuids, eq_comm]
  · simp [Service.normalizeGpuUuids, Service.gpuUuids, Service.gpu, Service.mapUuids, eq_comm]
  · simp only [Service.normalizeGpuUuids, bind_eq_ok,
      mapM_eq_ok fun uuid c => @canonicalSelector_ok_iff lib name uuid c]
    refine ⟨?_, ?_⟩
    · intro hx
      obtain ⟨_, ⟨hall, rfl⟩, h⟩ := hx
      exact ⟨hall, (Except.ok.inj h).symm⟩
    · intro hx
      obtain ⟨hall, rfl⟩ := hx
      exact ⟨_, ⟨hall, rfl⟩, rfl⟩

theorem normalizeGpuUuids_ok_iff {manifest manifest' : CompositionManifest} :
    manifest.normalizeGpuUuids lib = .ok manifest' ↔
      manifest.Selectors (canonicalGpuUuid · ≠ none) ∧ manifest' = manifest.canonical := by
  have hentry : ∀ (e e' : String × Service),
      (do let service ← e.2.normalizeGpuUuids lib e.1; Except.ok (e.1, service) : Result (String × Service)) = .ok e' ↔
        (∀ uuid ∈ e.2.gpuUuids, canonicalGpuUuid uuid ≠ none) ∧
          e' = (e.1, e.2.mapUuids canonicalOrSelf) := by
    intro e e'
    simp only [bind_eq_ok, Service.normalizeGpuUuids_ok_iff]
    refine ⟨?_, ?_⟩
    · intro hx
      obtain ⟨_, ⟨hall, rfl⟩, h⟩ := hx
      exact ⟨hall, (Except.ok.inj h).symm⟩
    · intro hx
      obtain ⟨hall, rfl⟩ := hx
      exact ⟨_, ⟨hall, rfl⟩, rfl⟩
  have hmap : (Std.ExtTreeMap.ofList (manifest.services.toList.map fun e =>
      (e.1, e.2.mapUuids canonicalOrSelf)) compare) = manifest.canonical.services := by
    refine ofList_of_perm ?_
    rw [CompositionManifest.canonical, Std.ExtTreeMap.toList_map]
  have hall : (∀ e ∈ manifest.services.toList, ∀ uuid ∈ e.2.gpuUuids, canonicalGpuUuid uuid ≠ none) ↔
      manifest.Selectors (canonicalGpuUuid · ≠ none) :=
    forall_entries (p := fun _ (service : Service) => ∀ uuid ∈ service.gpuUuids, canonicalGpuUuid uuid ≠ none)
  simp only [CompositionManifest.normalizeGpuUuids, bind_eq_ok, mapM_eq_ok hentry, hall]
  refine ⟨?_, ?_⟩
  · intro hx
    obtain ⟨_, ⟨hall, rfl⟩, h⟩ := hx
    exact ⟨hall, by rw [← Except.ok.inj h, hmap]; rfl⟩
  · intro hx
    obtain ⟨hall, rfl⟩ := hx
    exact ⟨_, ⟨hall, rfl⟩, by rw [hmap]; rfl⟩

/-- the text whose digest names the composition -/
def CompositionManifest.canonicalBytes (manifest : CompositionManifest) : Bytes :=
  lib.toVec (canonicalize (CompositionManifest.codec.encode manifest.canonical))

/-- a plan is the canonical manifest and the digest of its text -/
theorem plan_ok_iff {manifest : CompositionManifest} {plan : Plan} :
    manifest.plan lib = .ok plan ↔ manifest.Selectors (canonicalGpuUuid · ≠ none) ∧
      plan = ⟨manifestApiVersion, lib.sha256Hex (manifest.canonicalBytes lib), manifest.canonical⟩ := by
  have hread : ∀ m : CompositionManifest, lib.fromStr "CompositionManifest" CompositionManifest.codec
      (.json (canonicalize (CompositionManifest.codec.encode m))) = .ok m := fun m => by
    simp [Externals.fromStr, Codec.decode_canonicalize]
  simp only [CompositionManifest.plan, bind_eq_ok, normalizeGpuUuids_ok_iff, hread]
  refine ⟨?_, ?_⟩
  · intro hx
    obtain ⟨_, ⟨hall, rfl⟩, _, hr, h⟩ := hx
    cases hr
    exact ⟨hall, (Except.ok.inj h).symm⟩
  · intro hx
    obtain ⟨hall, rfl⟩ := hx
    exact ⟨_, ⟨hall, rfl⟩, _, rfl, rfl⟩

theorem Valid.selectors {manifest : CompositionManifest} (h : Valid manifest) :
    manifest.Selectors (canonicalGpuUuid · ≠ none) := by
  intro name service hs uuid huuid
  unfold Service.gpuUuids at huuid
  cases hg : service.gpu with
  | none => rw [hg] at huuid; simp at huuid
  | some gpu =>
    rw [hg] at huuid
    exact ((h.services name service hs).gpu gpu hg).2 uuid huuid

theorem Valid.plan_eq {manifest : CompositionManifest} (h : Valid manifest) :
    manifest.plan lib = .ok ⟨manifestApiVersion, lib.sha256Hex (manifest.canonicalBytes lib), manifest.canonical⟩ :=
  (plan_ok_iff lib).2 ⟨h.selectors, rfl⟩

theorem mapUuids_eq_self {f : String → String} {service : Service} (h : ∀ uuid ∈ service.gpuUuids, f uuid = uuid) :
    service.mapUuids f = service := by
  obtain ⟨image, dependsOn, command, environment, resources, healthCheck⟩ := service
  rcases resources with _ | ⟨cpu, memory, _ | ⟨vendor, uuids⟩⟩
  · rfl
  · rfl
  · have : uuids.map f = uuids := (List.map_congr_left h).trans (List.map_id uuids)
    simp [Service.mapUuids, this]

/-- selectors in canonical form already: nothing to replace -/
theorem canonical_eq_self {manifest : CompositionManifest}
    (h : manifest.Selectors fun uuid => canonicalGpuUuid uuid = some uuid) : manifest.canonical = manifest := by
  have hs : (manifest.services.map fun _ service => service.mapUuids canonicalOrSelf) = manifest.services := by
    apply Std.ExtTreeMap.ext_getElem?
    intro name
    rw [Std.ExtTreeMap.getElem?_map]
    cases hm : manifest.services[name]? with
    | none => rfl
    | some service =>
      refine congrArg some (mapUuids_eq_self fun uuid hu => ?_)
      rw [canonicalOrSelf, h name service hm uuid hu, Option.getD_some]
  rw [CompositionManifest.canonical, hs]

end PhenoCompose
