/-
`apply`: check the manifest and the images, have NanoVMS create the containers, and record the run.

What comes before the lifecycle call is `prepareApply`, which changes nothing; what follows it is `finishApply`, whose
ways out are the constructors of `Finish`.

- `run_rollback`: a rollback is one stop request a container, in the reverse order of the keys.
- `Planned.run_apply`: every run of a mutating apply of a valid manifest stops early or ends as `Finish` says.
- `Planned.runs_apply`: behind open gates the lifecycle call is reached, and any answer to it can be given.
-/
import PhenoCompose.Store

namespace PhenoCompose

open Core.Collections Core.Json Core.Path Core.Process Core.Text Core.Topology

structure ApplyOutput where
  runId : String
  manifestSha256 : String
  provider : String
  dryRun : Bool
  mutation : Bool
  lifecycle : LifecyclePlan
  containers : BTreeMap String
deriving DecidableEq

/-! ## Gates -/

def runtimeProviderName : RuntimeProvider → String
  | .podman => "podman"
  | .nvms => "nvms"
  | .placeholder => "placeholder"

def ensureRuntimeProvider (manifest : CompositionManifest) : Result Unit :=
  match manifest.runtime.provider with
  | .podman => .ok ()
  | .nvms =>
    Err (.unsupported "nvms_persistence_unsupported"
      "the NVMS driver cannot reattach to persisted instance IDs; apply was not attempted" "runtime.persistence" "nvms")
  | .placeholder =>
    Err (.unsupported "runtime_provider_placeholder" "the selected runtime is a capability placeholder"
      manifest.runtime.capability "placeholder")

def ensureApplyCapabilities (manifest : CompositionManifest) : Result Unit := do
  ensureRuntimeProvider manifest
  manifest.providers.toList.forM fun (name, provider) =>
    refuseIf (provider.capability ≠ serviceLifecycleCapability ∧ provider.status ≠ .available) <|
      .unsupported "provider_unavailable" ("provider declaration " ++ name ++ " is not available") provider.capability
        (provider.implementation.getD "placeholder")
  let lifecycleAvailable := (values manifest.providers).any fun provider =>
    provider.capability == serviceLifecycleCapability && provider.status == .available
  refuseIf (lifecycleAvailable = true ∧ (values manifest.services).any (·.healthCheck.isSome) = true) <|
    .unsupported "health_check_unsupported"
      "health-check enforcement is not represented by the current Runtime port" "runtime.health_check" "podman"
  refuseIf (manifest.artifacts ≠ []) <|
    .unsupported "artifact_publication_unsupported" "declared artifact publication is not implemented in Slice 1"
      "publisher.artifacts" "podman-local"
  refuseIf (manifest.teardown.removeVolumes = true) <|
    .unsupported "volume_teardown_unsupported" "volume removal is not represented by the current Runtime port"
      "runtime.volume_teardown" "podman"
  (values manifest.services).forM fun service =>
    refuseIf (∃ gpu ∈ service.gpu, gpu.vendor ≠ .nvidia) <|
      .unsupported "gpu_vendor_unsupported" "Slice 1 only maps NVIDIA UUID selectors to Podman CDI devices"
        "runtime.gpu_uuid" "podman"

/-! ## Apply -/

variable (lib : Externals)

/-- stop every container, the last key first; failures are ignored -/
def rollbackContainersFromMap (distribution : Option String) (containers : BTreeMap String) : Proc CliError Unit :=
  (values containers).reverse.forM fun id => do
    let _ ← attempt (PodmanRuntime.stop distribution id)

/-- compose and publish the image of each service that is to be created -/
def publishServices (manifest : CompositionManifest) (intents : List ServiceIntent) : Proc CliError Unit :=
  intents.forM fun intent =>
    if intent.phase ≠ .create then pure ()
    else do
      let service ← index manifest.services intent.service
      let _ ← publishImage manifest.runtime.wslDistribution intent.service service.image

/-- what a mutating apply does before it calls the lifecycle client -/
def prepareApply (manifest : CompositionManifest) (stateDir : PathBuf) (lifecycle : LifecyclePlan) (runId : String) :
    Proc CliError Unit := do
  ensureApplyCapabilities manifest
  ensureServiceLifecycleCapability manifest
  if ← sys (.pathExists (statePath stateDir runId).components) then
    fail (.conflict "run_exists" ("run " ++ runId ++ " already has persisted state"))
  else do
    PodmanLocalPublisher.probe manifest.runtime.wslDistribution
    publishServices manifest lifecycle.intents

/-- the state that apply persists -/
def runState (manifest : CompositionManifest) (request : ServiceLifecycleRequest) (containers : BTreeMap String)
    (createdUnixSeconds : UInt64) : RunState where
  stateVersion := "phenocompose.run/v0"
  runId := request.runId
  manifestSha256 := request.manifestSha256
  provider := "podman"
  createdUnixSeconds := createdUnixSeconds
  lifecycle := .running
  containers := containers
  manifest := manifest

/-- persist the run, or stop its containers -/
def recordRun (manifest : CompositionManifest) (stateDir : PathBuf) (lifecycle : LifecyclePlan)
    (request : ServiceLifecycleRequest) (containers : BTreeMap String) : Proc CliError ApplyOutput := do
  let createdUnixSeconds ← unixSeconds
  match ← attempt (saveState stateDir (runState manifest request containers createdUnixSeconds)) with
  | .error error => do
    rollbackContainersFromMap manifest.runtime.wslDistribution containers
    fail error
  | .ok _ =>
    pure
      { runId := request.runId
        manifestSha256 := request.manifestSha256
        provider := "podman"
        dryRun := false
        mutation := true
        lifecycle := lifecycle
        containers := containers }

/-- what apply does with the answer of the lifecycle client -/
def finishApply (manifest : CompositionManifest) (stateDir : PathBuf) (lifecycle : LifecyclePlan)
    (request : ServiceLifecycleRequest) (answer : Except ServiceLifecycleFailure ServiceLifecycleResult) :
    Proc CliError ApplyOutput := do
  match answer with
  | .error failure => do
    rollbackContainersFromMap manifest.runtime.wslDistribution failure.result.containers
    fail failure.error
  | .ok result => do
    match ← attempt (liftM (validateLifecycleResult lib request result)) with
    | .error error => do
      rollbackContainersFromMap manifest.runtime.wslDistribution result.containers
      fail error
    | .ok _ => recordRun manifest stateDir lifecycle request result.containers

def applyWithLifecycleClient (manifest : CompositionManifest) (stateDir : PathBuf) (dryRun : Bool) :
    Proc CliError ApplyOutput := do
  let plan ← manifest.plan lib
  let lifecycle ← planLifecycle manifest plan.manifestSha256
  let runId ← runId manifest plan.manifestSha256
  let provider := runtimeProviderName manifest.runtime.provider
  if dryRun then
    pure
      { runId := runId
        manifestSha256 := plan.manifestSha256
        provider := provider
        dryRun := true
        mutation := false
        lifecycle := lifecycle
        containers := ∅ }
  else do
    prepareApply manifest stateDir lifecycle runId
    let request := buildLifecycleRequest manifest lifecycle runId plan.manifestSha256
    let answer ← sys (.lifecycle request)
    finishApply lib manifest stateDir lifecycle request answer

/-! ## Rollback -/

/-- a stop whose outcome is ignored is one request -/
theorem run_stop_ignored {distribution : Option String} {id : String} {fs fs' : FileSystem} {t : Trace}
    {r : Except (Stop CliError) Unit} :
    Run Step (do let _ ← attempt (PodmanRuntime.stop distribution id) : Proc CliError Unit) fs t r fs' ↔
      r = .ok () ∧ fs' = fs ∧ ∃ a, t = [⟨.podman (stopCommand distribution id), a⟩] := by
  have hcaught : ∀ a, ∃ v, (caught (stopResult a) : Except (Stop CliError) (Except RuntimeError Unit)) = .ok v := by
    rintro (_ | ⟨_ | _, _, _⟩) <;> exact ⟨_, rfl⟩
  rw [run_bind]
  refine ⟨?_, ?_⟩
  · intro hx
    rcases hx with ⟨v, t₁, u, t₂, h₁, h₂, rfl⟩ | ⟨e, he, rfl⟩
    · obtain ⟨r₀, h₀, -⟩ := run_attempt.1 h₁
      obtain ⟨rfl, a, rfl, -⟩ := (stop_asks _ _ _ _ _ _).1 h₀
      obtain ⟨rfl, rfl, rfl⟩ := run_pure.1 h₂
      exact ⟨rfl, rfl, a, rfl⟩
    · obtain ⟨r₀, h₀, hr⟩ := run_attempt.1 he
      obtain ⟨rfl, a, rfl, rfl⟩ := (stop_asks _ _ _ _ _ _).1 h₀
      obtain ⟨v, hv⟩ := hcaught a
      rw [hv] at hr
      cases hr
  · intro hx
    obtain ⟨rfl, rfl, a, rfl⟩ := hx
    obtain ⟨v, hv⟩ := hcaught a
    refine .inl ⟨v, _, fs', [], run_attempt.2 ⟨_, (stop_asks _ _ _ _ _ _).2 ⟨rfl, a, rfl, rfl⟩, hv.symm⟩, ?_, rfl⟩
    exact run_pure.2 ⟨rfl, rfl, rfl⟩

/-- one stop request for each id, in this order -/
def Stops (distribution : Option String) (ids : List String) (t : Trace) : Prop :=
  t.map Sigma.fst = ids.map fun id => .podman (stopCommand distribution id)

theorem Stops.exists (distribution : Option String) (ids : List String) : ∃ t, Stops distribution ids t :=
  ⟨ids.map fun id => ⟨.podman (stopCommand distribution id), .error otherError⟩, by rw [Stops, List.map_map]; rfl⟩

theorem Stops.mem {distribution : Option String} {ids : List String} {t : Trace} (h : Stops distribution ids t)
    {e : Event Answer} (he : e ∈ t) : ∃ id a, e = ⟨.podman (stopCommand distribution id), a⟩ := by
  have hm : e.1 ∈ ids.map fun id => SysCall.podman (stopCommand distribution id) := h ▸ List.mem_map_of_mem he
  obtain ⟨id, -, hid⟩ := List.mem_map.1 hm
  obtain ⟨call, a⟩ := e
  subst hid
  exact ⟨id, a, rfl⟩

theorem Stops.all {distribution : Option String} {ids : List String} {t : Trace} (h : Stops distribution ids t)
    {id : String} (hid : id ∈ ids) : ∃ a, ⟨.podman (stopCommand distribution id), a⟩ ∈ t := by
  have hm : SysCall.podman (stopCommand distribution id) ∈ t.map Sigma.fst := h ▸ List.mem_map_of_mem hid
  obtain ⟨⟨call, a⟩, he, rfl⟩ := List.mem_map.1 hm
  exact ⟨a, he⟩

theorem Stops.requests {distribution : Option String} {ids : List String} {t : Trace} (h : Stops distribution ids t) :
    stopRequests t = ids := by
  induction ids generalizing t with
  | nil => rw [List.map_eq_nil_iff.1 h]; rfl
  | cons id ids ih =>
    obtain ⟨⟨call, a⟩, t', rfl, rfl, ht⟩ := List.map_eq_cons_iff.1 h
    exact congrArg (id :: ·) (ih ht)

/-- a rollback stops the containers in the order of their keys, from the last, whatever the answers -/
theorem run_rollback {distribution : Option String} {containers : BTreeMap String} {fs fs' : FileSystem} {t : Trace}
    {r : Except (Stop CliError) Unit} :
    Run Step (rollbackContainersFromMap distribution containers) fs t r fs' ↔
      r = .ok () ∧ fs' = fs ∧ Stops distribution (values containers).reverse t := by
  rw [rollbackContainersFromMap, Stops]
  induction (values containers).reverse generalizing fs t with
  | nil =>
    rw [run_forM_nil, List.map_nil, List.map_eq_nil_iff]
    tauto
  | cons id ids ih =>
    rw [run_forM_cons, List.map_cons]
    refine ⟨?_, ?_⟩
    · intro hx
      rcases hx with ⟨t₁, u, t₂, h₁, h₂, rfl⟩ | ⟨e, he, rfl⟩
      · obtain ⟨-, rfl, a, rfl⟩ := run_stop_ignored.1 h₁
        obtain ⟨rfl, rfl, ht⟩ := ih.1 h₂
        exact ⟨rfl, rfl, by rw [List.singleton_append, List.map_cons, ht]⟩
      · obtain ⟨h, -⟩ := run_stop_ignored.1 he
        cases h
    · intro hx
      obtain ⟨rfl, rfl, ht⟩ := hx
      obtain ⟨⟨op, a⟩, t₂, rfl, rfl, ht₂⟩ := List.map_eq_cons_iff.1 ht
      exact .inl ⟨[⟨_, a⟩], fs', t₂, run_stop_ignored.2 ⟨rfl, rfl, a, rfl⟩, ih.2 ⟨rfl, rfl, ht₂⟩, rfl⟩

theorem rollback_only (distribution : Option String) (containers : BTreeMap String) :
    Only Event.commanding (rollbackContainersFromMap distribution containers) :=
  .forM _ fun _ _ =>
    ((podmanOutput_only fun _ => trivial).mapErr.bind fun _ => Only.lift _).attempt.bind fun _ => Only.pure _

/-! ## Up to the lifecycle call -/

/-- both gates of a mutating apply are open -/
def Applicable (manifest : CompositionManifest) : Prop :=
  ensureApplyCapabilities manifest = .ok () ∧ ensureServiceLifecycleCapability manifest = .ok ()

/-- a call that asks for nothing to be changed: is the run there, what does Podman have -/
def Event.preparing : Event Answer → Prop
  | ⟨.pathExists _, _⟩ => True
  | ⟨.podman command, _⟩ => command.arguments.head? ≠ some "stop"
  | _ => False

theorem gates_raise (manifest : CompositionManifest) :
    Raises (ensureApplyCapabilities manifest) ∧ Raises (ensureServiceLifecycleCapability manifest) := by
  refine ⟨?_, ?_⟩
  · refine .bind ?_ fun _ _ => .bind (.forM _ fun _ _ => refuseIf_raises _ _) fun _ _ =>
      .bind (refuseIf_raises _ _) fun _ _ => .bind (refuseIf_raises _ _) fun _ _ =>
      .bind (refuseIf_raises _ _) fun _ _ => .forM _ fun _ _ => refuseIf_raises _ _
    unfold ensureRuntimeProvider
    split
    · exact .ok _
    · exact .err _
    · exact .err _
  · unfold ensureServiceLifecycleCapability
    split
    · exact .err _
    · split
      · exact .ok _
      · exact .err _
      · exact .err _

theorem prepare_only (manifest : CompositionManifest) (stateDir : PathBuf) (lifecycle : LifecyclePlan)
    (run : String) : Only Event.preparing (prepareApply manifest stateDir lifecycle run) := by
  apply (Only.lift _).bind
  intro _
  apply (Only.lift _).bind
  intro _
  apply (Only.call fun _ => trivial).bind
  intro found
  cases found with
  | true => exact Only.fail _
  | false =>
    refine (probe_only fun _ => by simp [Event.preparing]).bind fun _ => .forM _ fun intent _ => ?_
    split_ifs
    · exact Only.pure _
    · refine (Only.lift _).bind fun service => .bind ?_ fun _ => Only.pure _
      exact publishImage_only fun _ => by simp [Event.preparing, imageCommand]

/-- preparing an apply panics nowhere: every intent names a service -/
theorem prepare_safe {manifest : CompositionManifest} (stateDir : PathBuf) {lifecycle : LifecyclePlan} (run : String)
    (h : ∀ intent ∈ lifecycle.intents, intent.service ∈ manifest.services) :
    Safe (prepareApply manifest stateDir lifecycle run) := by
  apply (Safe.lift (gates_raise manifest).1).bind
  intro _
  apply (Safe.lift (gates_raise manifest).2).bind
  intro _
  apply (Safe.call _).bind
  intro found
  cases found with
  | true => exact Safe.fail _
  | false =>
    refine (probe_safe _).bind fun _ => .forM _ fun intent hi => ?_
    split_ifs
    · exact Safe.pure _
    · refine (Safe.lift ?_).bind fun service => (publishImage_safe _ _ _).bind fun _ => Safe.pure _
      obtain ⟨service, hs⟩ := exists_of_mem (h intent hi)
      rw [index_ok_iff.2 hs]
      exact .ok _

theorem Event.preparing.keeps {fs fs' : FileSystem} {call : SysCall} {a : Answer call}
    (h : Event.preparing ⟨call, a⟩) (hs : Step fs call a fs') : fs' = fs := by
  cases call
  case pathExists => exact hs.1
  case podman => exact hs
  all_goals exact h.elim

theorem Event.preparing.no_stop {e : Event Answer} (h : Event.preparing e) : stopRequest e = none := by
  obtain ⟨call, a⟩ := e
  cases call
  case podman command =>
    obtain ⟨distribution, arguments⟩ := command
    unfold stopRequest
    split
    case h_1 id a heq =>
      cases heq
      exact absurd rfl h
    · rfl
  all_goals rfl

/-- an apply changes nothing up to the lifecycle call: where its checks miss nothing, they tell what was there before it -/
theorem prepare_sees {manifest : CompositionManifest} {stateDir : PathBuf} {lifecycle : LifecyclePlan} {run : String}
    {fs fs' : FileSystem} {t : Trace} {r : Except (Stop CliError) Unit}
    (h : Run SeenStep (prepareApply manifest stateDir lifecycle run) fs t r fs') : Seen fs t :=
  fun e he => ((prepare_only _ _ _ _).each (fun hp hs => hp.keeps hs.step) h e he).2

/-- an apply that goes on to the lifecycle call found both gates open, and was told that its run is not there -/
theorem prepare_ok {manifest : CompositionManifest} {stateDir : PathBuf} {lifecycle : LifecyclePlan} {run : String}
    {fs fs' : FileSystem} {t : Trace} (h : Run Step (prepareApply manifest stateDir lifecycle run) fs t (.ok ()) fs') :
    Applicable manifest ∧ ⟨.pathExists (statePath stateDir run).components, false⟩ ∈ t := by
  obtain ⟨⟨⟩, hc, h₁⟩ := run_lift_bind_ok.1 h
  obtain ⟨⟨⟩, hl, h₂⟩ := run_lift_bind_ok.1 h₁
  obtain ⟨found, u, t', hfound, h₃, rfl⟩ := run_sys_bind.1 h₂
  refine ⟨⟨hc, hl⟩, ?_⟩
  cases found with
  | true =>
    obtain ⟨-, he, -⟩ := run_fail.1 h₃
    cases he
  | false => exact List.mem_cons_self

/-- with both gates open and no run of that id there, nothing need stop an apply -/
theorem prepare_runs {manifest : CompositionManifest} (hg : Applicable manifest) (stateDir : PathBuf)
    {lifecycle : LifecyclePlan} {run : String}
    (hs : ∀ intent ∈ lifecycle.intents, intent.service ∈ manifest.services) {fs : FileSystem}
    (hf : fs.files (statePath stateDir run).components = none)
    (hd : fs.dirs (statePath stateDir run).components = false) :
    ∃ t, Run SeenStep (prepareApply manifest stateDir lifecycle run) fs t (.ok ()) fs := by
  have hprobe : Run SeenStep (PodmanLocalPublisher.probe manifest.runtime.wslDistribution) fs
      [⟨.podman ⟨_, ["version", "--format", "json"]⟩, .ok ⟨true, [], []⟩⟩] (.ok ()) fs :=
    run_unchecking (probe_only fun _ => trivial) ((probe_asks _ _ _ _ _).2 ⟨rfl, _, rfl, rfl⟩)
  have hpublish : ∀ intents : List ServiceIntent, (∀ intent ∈ intents, intent.service ∈ manifest.services) →
      ∃ t, Run SeenStep (publishServices manifest intents) fs t (.ok ()) fs := by
    intro intents
    induction intents with
    | nil => exact fun _ => ⟨[], run_forM_nil.2 ⟨rfl, rfl, rfl⟩⟩
    | cons intent intents ih =>
      intro h
      obtain ⟨hi, hrest⟩ := List.forall_mem_cons.1 h
      obtain ⟨t₂, h₂⟩ := ih hrest
      obtain ⟨service, hservice⟩ := exists_of_mem hi
      have hone : ∃ t₁, Run SeenStep (if intent.phase ≠ .create then pure ()
          else do
            let service ← index manifest.services intent.service
            let _ ← publishImage manifest.runtime.wslDistribution intent.service service.image :
            Proc CliError Unit) fs t₁ (.ok ()) fs := by
        split_ifs
        · exact ⟨[], run_pure.2 ⟨rfl, rfl, rfl⟩⟩
        · have h := run_unchecking (publishImage_only fun _ => trivial)
            ((publishImage_asks manifest.runtime.wslDistribution intent.service service.image fs _ _ fs).2
              ⟨rfl, .ok ⟨true, [], []⟩, rfl, rfl⟩)
          exact ⟨_, run_lift_bind.2 (.inl ⟨service, index_ok_iff.2 hservice, h.bind (run_pure.2 ⟨rfl, rfl, rfl⟩)⟩)⟩
      obtain ⟨t₁, h₁⟩ := hone
      exact ⟨t₁ ++ t₂, run_forM_cons.2 (.inl ⟨t₁, fs, t₂, h₁, h₂, rfl⟩)⟩
  obtain ⟨t, ht⟩ := hpublish lifecycle.intents hs
  have hfound : SeenStep fs (.pathExists (statePath stateDir run).components) false fs :=
    seen_exists.2 ⟨rfl, by rw [hf, hd]; rfl⟩
  exact ⟨_, run_lift_bind.2 (.inl ⟨(), hg.1, run_lift_bind.2 (.inl ⟨(), hg.2,
    run_call_next.2 ⟨false, fs, _, hfound, hprobe.bind ht, rfl⟩⟩)⟩)⟩

/-! ## After the lifecycle call -/

/-- the containers the lifecycle client reports, with a result or with a failure -/
def returnedContainers : Except ServiceLifecycleFailure ServiceLifecycleResult → BTreeMap String
  | .ok result => result.containers
  | .error failure => failure.result.containers

/-- a call made to record a run: the clock, and then a save -/
def Event.recording (e : Event Answer) : Prop := (∃ seconds, e = ⟨.clock, .ok seconds⟩) ∨ Event.storing e

theorem Event.recording.no_stop {e : Event Answer} (h : Event.recording e) : stopRequest e = none := by
  rcases h with ⟨seconds, rfl⟩ | h
  · rfl
  · obtain ⟨call, a⟩ := e
    cases call
    case podman => exact h.elim
    all_goals rfl

/-- the ways out after the lifecycle call; `before` and `after` are the contents of the file of the run -/
inductive Finish (distribution : Option String) (request : ServiceLifecycleRequest)
    (answer : Except ServiceLifecycleFailure ServiceLifecycleResult) (before after : Option Contents) :
    Trace → Except (Stop CliError) ApplyOutput → Prop where
  | rolledBack {t₁ t₂ : Trace} {error : CliError} (quiet : ∀ e ∈ t₁, Event.recording e)
      (stops : Stops distribution (values (returnedContainers answer)).reverse t₂)
      (kept : after = before) : Finish distribution request answer before after (t₁ ++ t₂) (.error (.err error))
  | clockLost {result : ServiceLifecycleResult} {message : String} (ok : answer = .ok result)
      (attested : validateLifecycleResult lib request result = .ok ()) (kept : after = before) :
      Finish distribution request answer before after [⟨.clock, .error message⟩]
        (.error (.err (.backend "clock" message)))
  | recorded {state : RunState} {output : ApplyOutput} {t : Trace} (quiet : ∀ e ∈ t, Event.recording e)
      (written : after = some (.json (RunState.codec.encode state))) (run : state.runId = request.runId)
      (named : output.runId = request.runId) (running : state.lifecycle = .running)
      (given : state.containers = returnedContainers answer) (told : output.containers = returnedContainers answer) :
      Finish distribution request answer before after t (.ok output)

theorem run_rollback_fail {distribution : Option String} {containers : BTreeMap String} {error : CliError}
    {fs fs' : FileSystem} {t : Trace} {r : Except (Stop CliError) ApplyOutput} :
    Run Step (do
      rollbackContainersFromMap distribution containers
      fail error : Proc CliError ApplyOutput) fs t r fs' ↔
      r = .error (.err error) ∧ fs' = fs ∧ Stops distribution (values containers).reverse t := by
  rw [run_bind]
  refine ⟨?_, ?_⟩
  · intro hx
    rcases hx with ⟨⟨⟩, t₁, u, t₂, h₁, h₂, rfl⟩ | ⟨e, he, rfl⟩
    · obtain ⟨-, rfl, ht⟩ := run_rollback.1 h₁
      obtain ⟨rfl, rfl, rfl⟩ := run_fail.1 h₂
      exact ⟨rfl, rfl, by rwa [List.append_nil]⟩
    · cases (run_rollback.1 he).1
  · intro hx
    obtain ⟨rfl, rfl, ht⟩ := hx
    exact .inl ⟨(), t, fs', [], run_rollback.2 ⟨rfl, rfl, ht⟩, run_fail.2 ⟨rfl, rfl, rfl⟩, (List.append_nil t).symm⟩

theorem validate_lifecycle_raises (request : ServiceLifecycleRequest) (result : ServiceLifecycleResult) :
    Raises (validateLifecycleResult lib request result) :=
  .bind (refuseIf_raises _ _) fun _ _ => .bind (refuseIf_raises _ _) fun _ _ => .bind (refuseIf_raises _ _) fun _ _ =>
    .bind (refuseIf_raises _ _) fun _ _ => .forM _ fun _ _ => refuseIf_raises _ _

theorem recordRun_spec {manifest : CompositionManifest} {stateDir : PathBuf} {lifecycle : LifecyclePlan}
    {request : ServiceLifecycleRequest} {result : ServiceLifecycleResult}
    (hv : validateLifecycleResult lib request result = .ok ()) (hw : isWord request.runId = true)
    (hne : request.runId ≠ "") {fs fs' : FileSystem} {t : Trace} {r : Except (Stop CliError) ApplyOutput}
    (h : Run Step (recordRun manifest stateDir lifecycle request result.containers) fs t r fs') :
    Finish lib manifest.runtime.wslDistribution request (.ok result)
      (fs.files (stateLocation stateDir request.runId)) (fs'.files (stateLocation stateDir request.runId)) t r := by
  have hstate := (stateTemporary_ne stateDir request.runId).symm
  rcases run_bind.1 h with ⟨seconds, t₁, u, t₂, hclock, h₁, rfl⟩ | ⟨e, he, rfl⟩
  · obtain ⟨rfl, a, rfl, ha⟩ := run_unixSeconds.1 hclock
    obtain rfl : a = .ok seconds := by cases a <;> cases ha; rfl
    obtain ⟨saved, t₃, v, t₄, hsave, h₂, rfl⟩ := (run_attempt_bind (saveState_safe _ _)).1 h₁
    have hquiet : ∀ e ∈ (⟨.clock, .ok seconds⟩ :: t₃ : Trace), Event.recording e :=
      List.forall_mem_cons.2 ⟨.inl ⟨seconds, rfl⟩, fun e he => .inr ((saveState_only _ _).mem hsave e he)⟩
    rcases saveState_spec (runState manifest request result.containers seconds) hw hne hsave with
      ⟨hr, hfile, -⟩ | ⟨error, hr, hkept⟩
    · obtain rfl : saved = .ok () := by cases saved <;> cases hr; rfl
      obtain ⟨rfl, rfl, rfl⟩ := run_pure.1 h₂
      exact .recorded (by simpa using hquiet) hfile rfl rfl rfl rfl rfl
    · obtain rfl : saved = .error error := by cases saved <;> cases hr; rfl
      obtain ⟨rfl, rfl, ht⟩ := run_rollback_fail.1 h₂
      rw [List.singleton_append, ← List.cons_append]
      exact .rolledBack hquiet ht (hkept _ hstate)
  · obtain ⟨rfl, a, rfl, ha⟩ := run_unixSeconds.1 he
    cases a with
    | ok => cases ha
    | error message =>
      cases ha
      exact .clockLost rfl hv rfl

theorem finish_run {manifest : CompositionManifest} {stateDir : PathBuf} {lifecycle : LifecyclePlan}
    {request : ServiceLifecycleRequest} {answer : Except ServiceLifecycleFailure ServiceLifecycleResult}
    (hw : isWord request.runId = true) (hne : request.runId ≠ "") {fs fs' : FileSystem} {t : Trace}
    {r : Except (Stop CliError) ApplyOutput}
    (h : Run Step (finishApply lib manifest stateDir lifecycle request answer) fs t r fs') :
    Finish lib manifest.runtime.wslDistribution request answer
      (fs.files (stateLocation stateDir request.runId)) (fs'.files (stateLocation stateDir request.runId)) t r := by
  unfold finishApply at h
  cases answer with
  | error failure =>
    dsimp only at h
    obtain ⟨rfl, rfl, ht⟩ := run_rollback_fail.1 h
    exact .rolledBack (List.forall_mem_nil _) ht rfl
  | ok result =>
    dsimp only at h
    obtain ⟨checked, t₁, u, t₂, h₁, h₂, rfl⟩ :=
      (run_attempt_bind (Safe.lift (validate_lifecycle_raises lib request result))).1 h
    obtain ⟨rfl, hr, rfl⟩ := run_lift.1 h₁
    cases checked with
    | error error =>
      obtain ⟨rfl, rfl, ht⟩ := run_rollback_fail.1 h₂
      exact .rolledBack (List.forall_mem_nil _) ht rfl
    | ok => exact recordRun_spec lib hr.symm hw hne h₂

/-- nothing is checked after the lifecycle call -/
theorem finishApply_only (manifest : CompositionManifest) (stateDir : PathBuf) (lifecycle : LifecyclePlan)
    (request : ServiceLifecycleRequest) (answer : Except ServiceLifecycleFailure ServiceLifecycleResult) :
    Only Event.unchecking (finishApply lib manifest stateDir lifecycle request answer) := by
  have hfail : ∀ (containers : BTreeMap String) (error : CliError),
      Only Event.unchecking (rollbackContainersFromMap manifest.runtime.wslDistribution containers >>= fun _ =>
        fail error : Proc CliError ApplyOutput) := fun containers _ =>
    ((rollback_only _ containers).imp fun _ => Event.commanding.unchecking).bind fun _ => Only.fail _
  unfold finishApply
  cases answer with
  | error failure => exact hfail _ _
  | ok result =>
    refine (Only.lift _).attempt.bind fun checked => ?_
    cases checked with
    | error error => exact hfail _ _
    | ok =>
      have hclock : Only Event.unchecking unixSeconds := by
        refine (Only.call fun _ => trivial).bind fun answer => ?_
        cases answer with
        | ok seconds => exact Only.pure _
        | error message => exact Only.fail _
      refine hclock.bind fun seconds => ?_
      refine ((saveState_only _ _).imp fun _ => Event.storing.unchecking).attempt.bind fun saved => ?_
      cases saved with
      | error error => exact hfail _ _
      | ok => exact Only.pure _

/-! ## Runs of a mutating apply -/

/-- the digest that names a valid manifest -/
def CompositionManifest.digest (manifest : CompositionManifest) : String := lib.sha256Hex (manifest.canonicalBytes lib)

/-- the run id and the lifecycle plan that apply computes for a valid manifest -/
structure Planned (manifest : CompositionManifest) (run : String) (lifecycle : LifecyclePlan) : Prop where
  valid : Valid manifest
  runId : runId manifest (manifest.digest lib) = .ok run
  lifecycle : planLifecycle manifest (manifest.digest lib) = .ok lifecycle

theorem Valid.planned {manifest : CompositionManifest} (h : Valid manifest) :
    ∃ run lifecycle, Planned lib manifest run lifecycle := by
  obtain ⟨lifecycle, run, hl, hr, -, -⟩ := h.request_eq lib
  exact ⟨run, lifecycle, h, hr, hl⟩

namespace Planned

variable {lib} {manifest : CompositionManifest} {run : String} {lifecycle : LifecyclePlan}

theorem run_eq (h : Planned lib manifest run lifecycle) :
    run = sanitizeName manifest.metadata.name ++ "-" ++ shortDigest lib (manifest.canonicalBytes lib) := by
  have hr := h.runId
  rw [CompositionManifest.digest, runId_ok] at hr
  exact (Except.ok.inj hr).symm

theorem word (h : Planned lib manifest run lifecycle) : isWord run = true := isWord_runId lib h.runId

theorem ne_empty (h : Planned lib manifest run lifecycle) : run ≠ "" := by
  rw [h.run_eq]
  intro he
  have := congrArg String.length he
  simp at this

/-- the request of this apply -/
def request (_ : Planned lib manifest run lifecycle) : ServiceLifecycleRequest :=
  buildLifecycleRequest manifest lifecycle run (manifest.digest lib)

theorem order (h : Planned lib manifest run lifecycle) : manifest.serviceOrder = .ok lifecycle.order := by
  obtain ⟨lifecycle', hl, ho⟩ := h.valid.planLifecycle_eq (manifest.digest lib)
  rw [h.lifecycle] at hl
  cases hl
  exact ho

theorem intents (h : Planned lib manifest run lifecycle) :
    ∀ intent ∈ lifecycle.intents, intent.service ∈ manifest.services := by
  have hl := h.lifecycle
  rw [planLifecycle_ok h.valid h.order] at hl
  rw [← Except.ok.inj hl]
  exact intents_known

theorem apply_eq (h : Planned lib manifest run lifecycle) (stateDir : PathBuf) :
    applyWithLifecycleClient lib manifest stateDir false = (do
      prepareApply manifest stateDir lifecycle run
      let answer ← sys (.lifecycle h.request)
      finishApply lib manifest stateDir lifecycle h.request answer) := by
  rw [applyWithLifecycleClient, h.valid.plan_eq lib]
  show (liftM (planLifecycle manifest (manifest.digest lib)) >>= _ : Proc CliError ApplyOutput) = _
  rw [h.lifecycle]
  show (liftM (PhenoCompose.runId manifest (manifest.digest lib)) >>= _ : Proc CliError ApplyOutput) = _
  rw [h.runId]
  rfl

/-- a mutating apply stops before the lifecycle call, having changed nothing, or goes on with the answer to it -/
theorem run_apply_parts (h : Planned lib manifest run lifecycle) {stateDir : PathBuf} {fs fs' : FileSystem} {t : Trace}
    {r : Except (Stop CliError) ApplyOutput}
    (hrun : Run Step (applyWithLifecycleClient lib manifest stateDir false) fs t r fs') :
    ((∃ error, r = .error (.err error)) ∧ fs' = fs ∧ ∀ e ∈ t, Event.preparing e) ∨
      ∃ t₁ answer t₂, t = t₁ ++ ⟨.lifecycle h.request, answer⟩ :: t₂ ∧ (∀ e ∈ t₁, Event.preparing e) ∧
        Applicable manifest ∧ ⟨.pathExists (stateLocation stateDir run), false⟩ ∈ t₁ ∧
        Run Step (finishApply lib manifest stateDir lifecycle h.request answer) fs t₂ r fs' := by
  rw [h.apply_eq] at hrun
  have honly := prepare_only manifest stateDir lifecycle run
  rcases run_bind.1 hrun with ⟨⟨⟩, t₁, u, t', hprepare, h₁, rfl⟩ | ⟨e, he, rfl⟩
  · right
    obtain rfl : u = fs := honly.keeps Event.preparing.keeps hprepare
    obtain ⟨hg, hfound⟩ := prepare_ok hprepare
    obtain ⟨answer, v, t₂, hv, hfinish, rfl⟩ := run_sys_bind.1 h₁
    obtain rfl : v = u := hv
    rw [statePath_components stateDir h.word] at hfound
    exact ⟨t₁, answer, t₂, rfl, honly.mem hprepare, hg, hfound, hfinish⟩
  · left
    obtain ⟨error, rfl⟩ := (prepare_safe stateDir run h.intents).raises he e rfl
    exact ⟨⟨error, rfl⟩, honly.keeps Event.preparing.keeps he, honly.mem he⟩

/-- a mutating apply stops before the lifecycle call, having changed nothing, or goes on as `Finish` says -/
theorem run_apply (h : Planned lib manifest run lifecycle) {stateDir : PathBuf} {fs fs' : FileSystem} {t : Trace}
    {r : Except (Stop CliError) ApplyOutput}
    (hrun : Run Step (applyWithLifecycleClient lib manifest stateDir false) fs t r fs') :
    ((∃ error, r = .error (.err error)) ∧ fs' = fs ∧ ∀ e ∈ t, Event.preparing e) ∨
      ∃ t₁ answer t₂, t = t₁ ++ ⟨.lifecycle h.request, answer⟩ :: t₂ ∧ (∀ e ∈ t₁, Event.preparing e) ∧
        Applicable manifest ∧ ⟨.pathExists (stateLocation stateDir run), false⟩ ∈ t₁ ∧
        Finish lib manifest.runtime.wslDistribution h.request answer (fs.files (stateLocation stateDir run))
          (fs'.files (stateLocation stateDir run)) t₂ r := by
  rcases h.run_apply_parts hrun with hstopped | ⟨t₁, answer, t₂, ht, ht₁, hg, hfound, hfinish⟩
  · exact .inl hstopped
  · exact .inr ⟨t₁, answer, t₂, ht, ht₁, hg, hfound, finish_run lib h.word h.ne_empty hfinish⟩

/-- where both gates are open and the run is new, the lifecycle client may be called and may answer as it likes -/
theorem runs_apply (h : Planned lib manifest run lifecycle) (hg : Applicable manifest) (stateDir : PathBuf)
    (fs : FileSystem) (hf : fs.files (stateLocation stateDir run) = none)
    (hd : fs.dirs (stateLocation stateDir run) = false) :
    ∃ t₁, (∀ e ∈ t₁, Event.preparing e) ∧ ∀ answer t₂ r fs',
      Run Step (finishApply lib manifest stateDir lifecycle h.request answer) fs t₂ r fs' →
        Run SeenStep (applyWithLifecycleClient lib manifest stateDir false) fs
          (t₁ ++ ⟨.lifecycle h.request, answer⟩ :: t₂) r fs' := by
  rw [← statePath_components stateDir h.word] at hf hd
  obtain ⟨t₁, hprepare⟩ := prepare_runs hg stateDir h.intents hf hd
  refine ⟨t₁, (prepare_only _ _ _ _).mem hprepare, fun answer t₂ r fs' hfinish => ?_⟩
  rw [h.apply_eq]
  have hfinish' := run_unchecking (finishApply_only lib manifest stateDir lifecycle h.request answer) hfinish
  exact hprepare.bind (run_call_next.2 ⟨answer, fs, t₂, ⟨rfl, id⟩, hfinish', rfl⟩)

end Planned

end PhenoCompose
