/-
`service_graph.rs`: the lifecycle plan of a composition (a create and a start intent per service, in dependency order), the
capability a mutating apply needs, and the contract a rollback is documented to follow.

`planLifecycle_ok` says what the plan of a valid manifest is.
-/
import PhenoCompose.Plan

namespace PhenoCompose

open Core.Collections Core.Process Core.Topology

def lifecycleSchemaVersion : String := "phenocompose.lifecycle/v0"

def serviceLifecycleCapability : String := "runtime.service_lifecycle"

inductive IntentPhase where
  | create
  | start
deriving DecidableEq, Repr

structure HealthCheckIntent where
  command : List String
  intervalSeconds : UInt32
  timeoutSeconds : UInt32
  retries : UInt32
deriving DecidableEq, Repr

structure ServiceIntent where
  phase : IntentPhase
  service : String
  image : Option String
  dependsOn : List String
  healthCheck : Option HealthCheckIntent
deriving DecidableEq, Repr

structure LifecyclePlan where
  schemaVersion : String
  manifestSha256 : String
  order : List String
  intents : List ServiceIntent
deriving DecidableEq, Repr

def healthCheckIntent (check : HealthCheck) : HealthCheckIntent where
  command := check.command
  intervalSeconds := check.intervalSeconds
  timeoutSeconds := check.timeoutSeconds
  retries := check.retries

/-- the two intents of one service -/
def serviceIntents (name : String) (service : Service) : List ServiceIntent :=
  [{ phase := .create
     service := name
     image := some service.image
     dependsOn := service.dependsOn
     healthCheck := none },
   { phase := .start
     service := name
     image := none
     dependsOn := service.dependsOn
     healthCheck := service.healthCheck.map healthCheckIntent }]

def planService (manifest : CompositionManifest) (name : String) : Result (List ServiceIntent) := do
  let service ← index manifest.services name
  .ok (serviceIntents name service)

def planLifecycle (manifest : CompositionManifest) (manifestSha256 : String) : Result LifecyclePlan := do
  let order ← manifest.serviceOrder
  let intents ← order.mapM (planService manifest)
  .ok { schemaVersion := lifecycleSchemaVersion, manifestSha256, order, intents := intents.flatten }

/-- the containers created so far, in the order of their creation -/
structure RollbackContract where
  created : List (String × String)

/-- the container ids a rollback stops, in the order it stops them -/
def RollbackContract.stops (contract : RollbackContract) : List String := contract.created.reverse.map Prod.snd

/-- the contract after the services of `order` that have a container were created in that order -/
def RollbackContract.ofOrder (order : List String) (containers : BTreeMap String) : RollbackContract :=
  ⟨order.filterMap fun name => (containers[name]?).map (name, ·)⟩

def ensureServiceLifecycleCapability (manifest : CompositionManifest) : Result Unit :=
  match (values manifest.providers).find? fun provider => provider.capability == serviceLifecycleCapability with
  | none =>
    Err (.unsupported "service_lifecycle_undeclared"
      "mutating apply requires a runtime.service_lifecycle provider declaration"
      serviceLifecycleCapability "undeclared")
  | some declaration => match declaration.status with
    | .available => .ok ()
    | .placeholder =>
      Err (.unsupported "service_lifecycle_placeholder"
        "runtime.service_lifecycle is declared but not yet available; mutating apply was not attempted"
        serviceLifecycleCapability (declaration.implementation.getD "placeholder"))
    | .unsupported =>
      Err (.unsupported "service_lifecycle_unsupported" "runtime.service_lifecycle is unsupported on this host"
        serviceLifecycleCapability (declaration.implementation.getD "unsupported"))

/-! ## The plan of a valid manifest -/

/-- the intents of the service with this name -/
def intentsOf (manifest : CompositionManifest) (name : String) : List ServiceIntent :=
  (manifest.services[name]?).elim [] (serviceIntents name)

theorem Valid.mem_order {manifest : CompositionManifest} (h : Valid manifest) {order : List String}
    (ho : manifest.serviceOrder = .ok order) : ∀ name, name ∈ order ↔ name ∈ manifest.services := by
  intro name
  rw [(serviceOrder_ok h.closed ho).1.mem_iff, Std.ExtTreeMap.mem_keys]

theorem mem_intentsOf {manifest : CompositionManifest} {name : String} {intent : ServiceIntent}
    (h : intent ∈ intentsOf manifest name) : intent.service = name ∧ name ∈ manifest.services := by
  cases hs : manifest.services[name]? with
  | none =>
    rw [intentsOf, hs] at h
    cases h
  | some service =>
    rw [intentsOf, hs] at h
    refine ⟨?_, mem_of_getElem? hs⟩
    rcases List.mem_pair.1 h with rfl | rfl
    · rfl
    · rfl

/-- the intents of a list of services are for services of the manifest -/
theorem intents_known {manifest : CompositionManifest} {order : List String} :
    ∀ intent ∈ order.flatMap (intentsOf manifest), intent.service ∈ manifest.services := by
  intro intent hi
  obtain ⟨name, -, hi⟩ := List.mem_flatMap.1 hi
  obtain ⟨rfl, hname⟩ := mem_intentsOf hi
  exact hname

theorem planService_ok_iff {manifest : CompositionManifest} {name : String} {intents : List ServiceIntent} :
    planService manifest name = .ok intents ↔ name ∈ manifest.services ∧ intents = intentsOf manifest name := by
  rw [planService, bind_eq_ok, Std.ExtTreeMap.mem_iff_isSome_getElem?, intentsOf]
  cases hm : manifest.services[name]? with
  | none => simp [index_ok_iff, hm]
  | some service => simp [index_ok_iff, hm, eq_comm]

theorem planLifecycle_ok {manifest : CompositionManifest} (h : Valid manifest) {order : List String}
    (ho : manifest.serviceOrder = .ok order) (sha : String) :
    planLifecycle manifest sha = .ok ⟨lifecycleSchemaVersion, sha, order, order.flatMap (intentsOf manifest)⟩ := by
  have hmap : order.mapM (planService manifest) = .ok (order.map (intentsOf manifest)) :=
    (mapM_eq_ok fun _ _ => planService_ok_iff).2 ⟨fun name hn => (h.mem_order ho name).1 hn, rfl⟩
  rw [planLifecycle, ho, ok_bind, hmap, ok_bind, List.flatMap]

/-- the plan of a valid manifest exists and lists its services in dependency order -/
theorem Valid.planLifecycle_eq {manifest : CompositionManifest} (h : Valid manifest) (sha : String) :
    ∃ lifecycle, planLifecycle manifest sha = .ok lifecycle ∧ manifest.serviceOrder = .ok lifecycle.order := by
  obtain ⟨order, ho⟩ := h.order
  exact ⟨_, planLifecycle_ok h ho sha, ho⟩

end PhenoCompose
