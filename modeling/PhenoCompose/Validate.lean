/-
`CompositionManifest::validate` and `canonical_gpu_uuid`.

`Valid` says in one structure what an accepted manifest satisfies; `validate_ok_iff` ties the checks to it, so nothing
later unfolds them.
-/
import PhenoCompose.ServiceOrder

namespace PhenoCompose

open Core.Collections Core.Process Core.Text

/-! ## GPU selectors -/

/-- a hyphen after 8, 12, 16 and 20 digits, hexadecimal digits elsewhere -/
def uuidChar (index : ℕ) (character : Char) : Bool :=
  if index = 8 ∨ index = 13 ∨ index = 18 ∨ index = 23 then character == '-' else isAsciiHexdigit character

def canonicalGpuUuid (value : String) : Option String :=
  let body := ((stripStart "GPU-" value).or (stripStart "gpu-" value)).getD value
  if body.utf8ByteSize ≠ 36 ∨ ¬(body.toList.zipIdx.all fun c => uuidChar c.2 c.1) then none
  else some ("GPU-" ++ toAsciiLowercase body)

/-! ## Checks -/

variable (lib : Externals)

/-- the refusal of a selector by `validate` and by `normalizeGpuUuids` -/
def ordinalError (name uuid : String) : CliError :=
  .validation "gpu_selector_invalid"
    ("service " ++ name ++ " GPU selector " ++ lib.debugStr uuid ++ " is not a UUID; ordinal indices are forbidden")

def validateGpu (name : String) (gpu : GpuRequirements) : Result Unit := do
  refuseIf (gpu.uuids = []) <|
    .validation "gpu_selector_empty" ("service " ++ name ++ " must select at least one GPU UUID")
  gpu.uuids.forM fun uuid => refuseIf (canonicalGpuUuid uuid = none) (ordinalError lib name uuid)

def validateService (services : BTreeMap Service) (name : String) (service : Service) : Result Unit := do
  refuseIf (trim name = "" ∨ trim service.image = "") <|
    .validation "service_invalid" ("service " ++ lib.debugStr name ++ " must have a non-empty name and image")
  service.dependsOn.forM fun dependency =>
    refuseIf (dependency = name ∨ dependency ∉ services) <|
      .validation "dependency_invalid" ("service " ++ name ++ " has invalid dependency " ++ dependency)
  match service.gpu with
  | none => .ok ()
  | some gpu => validateGpu lib name gpu

def validateAction (services : BTreeMap Service) (name : String) (action : Action) : Result Unit := do
  refuseIf (action.service ∉ services ∨ action.command = []) <|
    .validation "action_invalid" ("action " ++ name ++ " must reference a service and have a command")
  refuseIf (action.outputRoot = none) <|
    .validation "action_output_root_missing" ("action " ++ name ++ " must declare output_root")
  refuseIf (∃ root ∈ action.outputRoot, trim root = "") <|
    .validation "action_output_root_empty" ("action " ++ name ++ " output_root must not be empty")

def CompositionManifest.validate (manifest : CompositionManifest) : Result Unit := do
  refuseIf (manifest.apiVersion ≠ manifestApiVersion) <|
    .validation "schema_version" ("api_version must be " ++ manifestApiVersion)
  refuseIf (trim manifest.metadata.name = "") <|
    .validation "metadata_name" "metadata.name must not be empty"
  refuseIf (manifest.services = ∅) <|
    .validation "services_empty" "at least one service is required"
  manifest.services.toList.forM fun e => validateService lib manifest.services e.1 e.2
  let _ ← manifest.serviceOrder
  manifest.actions.toList.forM fun e => validateAction manifest.services e.1 e.2
  manifest.teardown.order.forM fun service =>
    refuseIf (service ∉ manifest.services) <|
      .validation "teardown_invalid" ("teardown references unknown service " ++ service)

/-! ## What an accepted manifest satisfies -/

structure ValidService (services : BTreeMap Service) (name : String) (service : Service) : Prop where
  name_not_blank : trim name ≠ ""
  image_not_blank : trim service.image ≠ ""
  dependsOn : ∀ d ∈ service.dependsOn, d ≠ name ∧ d ∈ services
  gpu : ∀ gpu, service.gpu = some gpu → gpu.uuids ≠ [] ∧ ∀ uuid ∈ gpu.uuids, canonicalGpuUuid uuid ≠ none

structure ValidAction (services : BTreeMap Service) (action : Action) : Prop where
  service : action.service ∈ services
  command : action.command ≠ []
  outputRoot : ∃ root, action.outputRoot = some root ∧ trim root ≠ ""

structure Valid (manifest : CompositionManifest) : Prop where
  apiVersion : manifest.apiVersion = manifestApiVersion
  name_not_blank : trim manifest.metadata.name ≠ ""
  services_nonempty : manifest.services ≠ ∅
  services : ∀ name service, manifest.services[name]? = some service → ValidService manifest.services name service
  order : ∃ order, manifest.serviceOrder = .ok order
  actions : ∀ (name : String) action, manifest.actions[name]? = some action → ValidAction manifest.services action
  teardown : ∀ service ∈ manifest.teardown.order, service ∈ manifest.services

theorem forall_entries {V : Type} {m : BTreeMap V} {p : String → V → Prop} :
    (∀ e ∈ m.toList, p e.1 e.2) ↔ ∀ name value, m[name]? = some value → p name value := by
  refine ⟨?_, ?_⟩
  · intro h name value hm; exact h _ (mem_toList.2 hm)
  · rintro h ⟨name, value⟩ hm; exact h name value (mem_toList.1 hm)

theorem validateGpu_ok_iff {name : String} {gpu : GpuRequirements} :
    validateGpu lib name gpu = .ok () ↔ gpu.uuids ≠ [] ∧ ∀ uuid ∈ gpu.uuids, canonicalGpuUuid uuid ≠ none := by
  simp only [validateGpu, bind_eq_ok, forM_eq_ok, refuseIf_ok]
  refine ⟨?_, ?_⟩
  · intro hx
    obtain ⟨-, he, hu⟩ := hx
    exact ⟨he, hu⟩
  · intro hx
    obtain ⟨he, hu⟩ := hx
    exact ⟨(), he, hu⟩

theorem validateService_ok_iff {services : BTreeMap Service} {name : String} {service : Service} :
    validateService lib services name service = .ok () ↔ ValidService services name service := by
  have hgpu : (match service.gpu with | none => Except.ok () | some gpu => validateGpu lib name gpu) = .ok () ↔
      ∀ gpu, service.gpu = some gpu → gpu.uuids ≠ [] ∧ ∀ uuid ∈ gpu.uuids, canonicalGpuUuid uuid ≠ none := by
    cases service.gpu <;> simp [validateGpu_ok_iff]
  simp only [validateService, bind_eq_ok, forM_eq_ok, refuseIf_ok, not_or, not_not, hgpu]
  refine ⟨?_, ?_⟩
  · intro hx
    obtain ⟨-, ⟨hn, hi⟩, -, hd, hg⟩ := hx
    exact ⟨hn, hi, hd, hg⟩
  · intro hx
    obtain ⟨hn, hi, hd, hg⟩ := hx
    exact ⟨(), ⟨hn, hi⟩, (), hd, hg⟩

theorem validateAction_ok_iff {services : BTreeMap Service} {name : String} {action : Action} :
    validateAction services name action = .ok () ↔ ValidAction services action := by
  simp only [validateAction, bind_eq_ok, refuseIf_ok, not_or, not_not]
  refine ⟨?_, ?_⟩
  · intro hx
    obtain ⟨-, ⟨hs, hc⟩, -, ho, hr⟩ := hx
    obtain ⟨root, hroot⟩ := Option.ne_none_iff_exists'.1 ho
    exact ⟨hs, hc, root, hroot, fun h => hr ⟨root, hroot, h⟩⟩
  · intro hx
    obtain ⟨hs, hc, root, hroot, ht⟩ := hx
    refine ⟨(), ⟨hs, hc⟩, (), by rw [hroot]; exact Option.some_ne_none root, ?_⟩
    intro hx
    obtain ⟨root', hr', ht'⟩ := hx
    rw [hroot, Option.mem_some_iff] at hr'
    exact ht (hr' ▸ ht')

/-- the checks accept exactly the valid manifests -/
theorem validate_ok_iff {manifest : CompositionManifest} : manifest.validate lib = .ok () ↔ Valid manifest := by
  simp only [CompositionManifest.validate, bind_eq_ok, forM_eq_ok, refuseIf_ok, not_not, validateService_ok_iff,
    validateAction_ok_iff, forall_entries (p := fun name service => ValidService manifest.services name service),
    forall_entries (p := fun _ action => ValidAction manifest.services action)]
  refine ⟨?_, ?_⟩
  · intro hx
    obtain ⟨-, ha, -, hn, -, hs, -, hsv, order, ho, -, hac, ht⟩ := hx
    exact ⟨ha, hn, hs, hsv, ⟨order, ho⟩, hac, ht⟩
  · intro hx
    obtain ⟨ha, hn, hs, hsv, ⟨order, ho⟩, hac, ht⟩ := hx
    exact ⟨(), ha, (), hn, (), hs, (), hsv, order, ho, (), hac, ht⟩

theorem Valid.closed {manifest : CompositionManifest} (h : Valid manifest) : Closed manifest.services := by
  intro a b hx
  obtain ⟨service, hs, hb⟩ := hx
  exact ((h.services a service hs).dependsOn b hb).2

theorem demo_valid : demo.validate .standard = .ok () := rfl

end PhenoCompose
