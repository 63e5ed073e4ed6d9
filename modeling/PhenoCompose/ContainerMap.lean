/-
The container map of a run, which comes from NanoVMS and is what `status` shows and `down` stops.

- `Planned.attested_iff`: what `validateLifecycleResult` asks of a result, in terms of the manifest.
- `containers_match_iff`: a recorded map names every service of the manifest. It names nothing else, and no empty
  container id, exactly where the gates are closed or the result is refused or is free of both.
- `surplus_recorded`: a container of no service is recorded, and `down` does not know of it.
-/
import PhenoCompose.RunStore

namespace PhenoCompose

open Core.Collections Core.Json Core.Path Core.Process

variable (lib : Externals)

/-- a container with an id for each service, and no other -/
structure Matches (manifest : CompositionManifest) (containers : BTreeMap String) : Prop where
  services : ∀ name, name ∈ containers ↔ name ∈ manifest.services
  ids : ∀ id ∈ values containers, id ≠ ""

/-- every apply that was given this result and returns tells and persists a matching map -/
def RecordsMatching (manifest : CompositionManifest) (result : ServiceLifecycleResult) : Prop :=
  ∀ stateDir fs t request output fs',
    Run Step (applyWithLifecycleClient lib manifest stateDir false) fs t (.ok output) fs' →
    ⟨.lifecycle request, .ok result⟩ ∈ t →
      Matches manifest output.containers ∧ ∃ state, state.containers = output.containers ∧
        fs'.files (statePath stateDir output.runId).components = some (.json (RunState.codec.encode state))

/-- what a result must say to be taken for a success -/
structure LifecycleAttested (manifest : CompositionManifest) (result : ServiceLifecycleResult) : Prop where
  version : result.version = serviceLifecycleVersion
  success : result.success = true
  engine : result.effectiveEngine = "podman"
  provider : result.resolvedProvider = "podman"
  pipe : result.podmanPipe = defaultPodmanPipe
  covered : ∀ name, name ∈ manifest.services → name ∈ result.containers

/-- the map has a container of no service, or a container without an id -/
def Stray (manifest : CompositionManifest) (containers : BTreeMap String) : Prop :=
  (∃ name, name ∈ containers ∧ name ∉ manifest.services) ∨ "" ∈ values containers

theorem matches_iff {manifest : CompositionManifest} {containers : BTreeMap String}
    (h : ∀ name, name ∈ manifest.services → name ∈ containers) :
    Matches manifest containers ↔ ¬Stray manifest containers := by
  refine ⟨?_, ?_⟩
  · intro hm hstray
    rcases hstray with ⟨name, hin, hnot⟩ | hempty
    · exact hnot ((hm.services name).1 hin)
    · exact hm.ids _ hempty rfl
  · intro hno
    refine ⟨?_, ?_⟩
    · intro name
      refine ⟨?_, h name⟩
      intro hin
      by_contra hnot
      exact hno (.inl ⟨name, hin, hnot⟩)
    · intro id hid he
      exact hno (.inr (he ▸ hid))

theorem finishApply_ok {manifest : CompositionManifest} {stateDir : PathBuf} {lifecycle : LifecyclePlan}
    {request : ServiceLifecycleRequest} {result : ServiceLifecycleResult} {fs fs' : FileSystem} {t : Trace}
    {output : ApplyOutput}
    (h : Run Step (finishApply lib manifest stateDir lifecycle request (.ok result)) fs t (.ok output) fs') :
    validateLifecycleResult lib request result = .ok () := by
  obtain ⟨checked, t₁, u, t₂, hcheck, hrest, rfl⟩ :=
    (run_attempt_bind (Safe.lift (validate_lifecycle_raises lib request result))).1 h
  obtain ⟨-, hr, -⟩ := run_lift.1 hcheck
  cases checked with
  | error error => cases (run_rollback_fail.1 hrest).1
  | ok => exact hr.symm

namespace Planned

variable {lib} {manifest : CompositionManifest} {run : String} {lifecycle : LifecyclePlan}

theorem attested_iff (h : Planned lib manifest run lifecycle) {result : ServiceLifecycleResult} :
    validateLifecycleResult lib h.request result = .ok () ↔ LifecycleAttested manifest result := by
  have horder : ∀ name, name ∈ h.request.order ↔ name ∈ manifest.services := h.valid.mem_order h.order
  simp only [validateLifecycleResult, bind_eq_ok, forM_eq_ok, refuseIf_ok, not_not, not_or, horder,
    Bool.not_eq_false]
  refine ⟨?_, ?_⟩
  · intro hx
    obtain ⟨-, hversion, -, hsuccess, -, ⟨hengine, hprovider⟩, -, hpipe, hcovered⟩ := hx
    exact ⟨hversion, hsuccess, hengine, hprovider, hpipe, hcovered⟩
  · intro hx
    exact ⟨(), hx.version, (), hx.success, (), ⟨hx.engine, hx.provider⟩, (), hx.pipe, hx.covered⟩

/-- an apply that returns passed the gates, and recorded the containers of an attested result -/
theorem run_apply_ok (h : Planned lib manifest run lifecycle) {stateDir : PathBuf} {fs fs' : FileSystem} {t : Trace}
    {output : ApplyOutput} {request : ServiceLifecycleRequest} {result : ServiceLifecycleResult}
    (hrun : Run Step (applyWithLifecycleClient lib manifest stateDir false) fs t (.ok output) fs')
    (hcall : ⟨.lifecycle request, .ok result⟩ ∈ t) :
    Applicable manifest ∧ LifecycleAttested manifest result ∧ output.containers = result.containers ∧
      ∃ state, state.containers = output.containers ∧
        fs'.files (statePath stateDir output.runId).components = some (.json (RunState.codec.encode state)) := by
  rcases h.run_apply_parts hrun with ⟨⟨error, he⟩, -, -⟩ | ⟨t₁, answer, t₂, rfl, ht₁, hg, -, hfinish⟩
  · cases he
  · have hf := finish_run lib h.word h.ne_empty hfinish
    obtain rfl : answer = .ok result := by
      rcases mem_one_call.1 hcall with hm | hm | hm
      · exact absurd (ht₁ _ hm) id
      · cases hm
        rfl
      · exact absurd hm (hf.calls.1 _ _)
    have hattested := h.attested_iff.1 (finishApply_ok lib hfinish)
    cases hf with
    | @recorded state _ _ quiet written ofRun named running given told =>
      have hpath : (statePath stateDir output.runId).components = stateLocation stateDir h.request.runId := by
        rw [named]
        exact statePath_components stateDir h.word
      exact ⟨hg, hattested, told, state, given.trans told.symm, hpath ▸ written⟩

/-- behind open gates an attested result is recorded -/
theorem runs_apply_ok (h : Planned lib manifest run lifecycle) (hg : Applicable manifest)
    {result : ServiceLifecycleResult} (hr : LifecycleAttested manifest result) :
    ∃ t output fs', Run Step (applyWithLifecycleClient lib manifest runsDir false) .empty t (.ok output) fs' ∧
      ⟨.lifecycle h.request, .ok result⟩ ∈ t ∧ output.containers = result.containers ∧
      StateFile runsDir fs' run (runState manifest h.request result.containers 0) := by
  obtain ⟨t₁, -, hruns⟩ := h.runs_apply hg runsDir .empty rfl rfl
  obtain ⟨t₂, output, fs', hfinish, hcontainers, hfile, -⟩ := h.finish_records (h.attested_iff.2 hr) (open_empty run) 0
  exact ⟨_, output, fs', seen_run (hruns _ _ _ _ hfinish), mem_one_call.2 (.inr (.inl rfl)), hcontainers, hfile⟩

end Planned

/-- **The container map is not checked against the composition.** For a valid manifest and any result: every apply that
was given this result and returns has a container with an id for each service and no other, in what it tells and in what
it persists, exactly when a gate is closed, the result is refused, or its map has no container of another service and no
empty id. -/
theorem containers_match_iff (manifest : CompositionManifest) (h : manifest.validate lib = .ok ())
    (result : ServiceLifecycleResult) :
    RecordsMatching lib manifest result ↔
      ¬(Applicable manifest ∧ LifecycleAttested manifest result ∧ Stray manifest result.containers) := by
  obtain ⟨run, lifecycle, hp⟩ := ((validate_ok_iff lib).1 h).planned lib
  refine ⟨?_, ?_⟩
  · intro hall hx
    obtain ⟨hg, hr, hstray⟩ := hx
    obtain ⟨t, output, fs', hrun, hcall, hcontainers, -⟩ := hp.runs_apply_ok hg hr
    have hmatches := (hall _ _ _ _ _ _ hrun hcall).1
    rw [hcontainers] at hmatches
    exact (matches_iff hr.covered).1 hmatches hstray
  · intro hno stateDir fs t request output fs' hrun hcall
    obtain ⟨hg, hr, hcontainers, hstate⟩ := hp.run_apply_ok hrun hcall
    refine ⟨?_, hstate⟩
    rw [hcontainers]
    exact (matches_iff hr.covered).2 fun hstray => hno ⟨hg, hr, hstray⟩

theorem mem_demo_services {name : String} : name ∈ demo.services ↔ name = "api" ∨ name = "db" := by
  have hkeys : demo.services.keys = ["api", "db"] := rfl
  rw [← Std.ExtTreeMap.mem_keys, hkeys, List.mem_pair]

/-- both services of `demo` have a container -/
theorem containers_match_example : RecordsMatching .standard demo twoCreated := by
  refine (containers_match_iff .standard demo demo_valid twoCreated).2 ?_
  intro hx
  rcases hx.2.2 with ⟨name, hin, hnot⟩ | hempty
  · have hkeys : twoCreated.containers.keys = ["api", "db"] := rfl
    rw [← Std.ExtTreeMap.mem_keys, hkeys, List.mem_pair] at hin
    exact hnot (mem_demo_services.2 hin)
  · have hvalues : values twoCreated.containers = ["c1", "c2"] := rfl
    rw [hvalues] at hempty
    exact absurd hempty (by decide)

/-- `twoCreated`, with a container that no service of `demo` asked for -/
def threeCreated : ServiceLifecycleResult :=
  { twoCreated with containers := .ofList [("api", "c1"), ("db", "c2"), ("extra", "c3")] compare }

theorem threeCreated_attested : LifecycleAttested demo threeCreated := by
  refine ⟨rfl, rfl, rfl, rfl, rfl, ?_⟩
  intro name hname
  rcases mem_demo_services.1 hname with rfl | rfl
  · exact mem_of_getElem? (v := "c1") rfl
  · exact mem_of_getElem? (v := "c2") rfl

/-- the third container is recorded too -/
theorem surplus_recorded :
    demo.validate .standard = .ok () ∧ Applicable demo ∧ ¬RecordsMatching .standard demo threeCreated := by
  obtain ⟨run, lifecycle, hp⟩ := demo_planned
  refine ⟨demo_valid, demo_applicable, ?_⟩
  intro hall
  obtain ⟨t, output, fs', hrun, hcall, hcontainers, -⟩ := hp.runs_apply_ok demo_applicable threeCreated_attested
  have hextra : "extra" ∈ output.containers := by
    rw [hcontainers]
    exact mem_of_getElem? (v := "c3") rfl
  have hservice := ((hall _ _ _ _ _ _ hrun hcall).1.services "extra").1 hextra
  rw [mem_demo_services] at hservice
  exact absurd hservice (by decide)

end PhenoCompose
