/-
What a mutating apply guarantees, whatever Podman, NanoVMS, the clock and the file system do.

- `apply_all_or_nothing`: it either records exactly the containers it was given, or asks for all of them to be stopped,
  unless the clock could not be read.
- `rollback_order`: a rollback stops containers in the reverse order of their names; that is the reverse order of their
  creation exactly when services are created in the order of their names.
- `run_addressable`: the run id is accepted by the commands that take one exactly for names that begin with a letter or
  digit and have at most 115 characters.
-/
import PhenoCompose.Apply

namespace PhenoCompose

open Core.Collections Core.Json Core.Path Core.Process Core.Text Core.Topology Relation

variable (lib : Externals)

/-! ## All or nothing -/

/-- success with the file of the run in place, or an error without it and with every container asked to stop -/
def AllOrNothing (distribution : Option String) (file : Location) (run : String) (fs : FileSystem) (t : Trace)
    (r : Except (Stop CliError) ApplyOutput) (fs' : FileSystem) : Prop :=
  match r with
  | .ok output => output.runId = run ∧ ∃ state, fs'.files file = some (.json (RunState.codec.encode state)) ∧
      state.runId = run ∧ state.lifecycle = .running ∧ state.containers = output.containers ∧
      ∃ request answer, ⟨.lifecycle request, answer⟩ ∈ t ∧ output.containers = returnedContainers answer
  | .error e => (∃ error, e = .err error) ∧ fs'.files file = fs.files file ∧
      ∀ request answer, ⟨.lifecycle request, answer⟩ ∈ t → ∀ id ∈ values (returnedContainers answer),
        ∃ a, ⟨.podman (stopCommand distribution id), a⟩ ∈ t

/-- a validated result has a container: there is at least one service -/
theorem attested_nonempty {manifest : CompositionManifest} {run : String} {lifecycle : LifecyclePlan}
    (h : Planned lib manifest run lifecycle) {result : ServiceLifecycleResult}
    (hr : validateLifecycleResult lib h.request result = .ok ()) : ∃ id, id ∈ values result.containers := by
  simp only [validateLifecycleResult, bind_eq_ok, forM_eq_ok, refuseIf_ok, not_not] at hr
  obtain ⟨-, -, -, -, -, -, -, -, hall⟩ := hr
  obtain ⟨name, hname⟩ : ∃ name, name ∈ manifest.services := by
    by_contra hno
    exact h.valid.services_nonempty (Std.ExtTreeMap.eq_empty_iff_forall_not_mem.2 (not_exists.1 hno))
  obtain ⟨id, hid⟩ := exists_of_mem (hall name ((h.valid.mem_order h.order name).2 hname))
  exact ⟨id, mem_values.2 ⟨name, hid⟩⟩

theorem mem_one_call {t₁ t₂ : Trace} {request : ServiceLifecycleRequest}
    {answer : Except ServiceLifecycleFailure ServiceLifecycleResult} {e : Event Answer} :
    e ∈ t₁ ++ ⟨.lifecycle request, answer⟩ :: t₂ ↔ e ∈ t₁ ∨ e = ⟨.lifecycle request, answer⟩ ∨ e ∈ t₂ := by
  rw [List.mem_append, List.mem_cons]

/-- after the lifecycle call there is no other, and the clock fails only on its own way out -/
theorem Finish.calls {distribution : Option String} {request : ServiceLifecycleRequest}
    {answer : Except ServiceLifecycleFailure ServiceLifecycleResult} {before after : Option Contents} {t : Trace}
    {r : Except (Stop CliError) ApplyOutput} (h : Finish lib distribution request answer before after t r) :
    (∀ request' answer', ⟨.lifecycle request', answer'⟩ ∉ t) ∧
      ((∀ message, ⟨.clock, .error message⟩ ∉ t) ∨
        ∃ result message, answer = .ok result ∧ validateLifecycleResult lib request result = .ok () ∧
          t = [⟨.clock, .error message⟩] ∧ ∃ error, r = .error (.err error)) := by
  have hquiet : ∀ {t : Trace}, (∀ e ∈ t, Event.recording e) →
      (∀ request' answer', ⟨.lifecycle request', answer'⟩ ∉ t) ∧ ∀ message, ⟨.clock, .error message⟩ ∉ t := by
    refine fun ht => ⟨fun _ _ hm => ?_, fun _ hm => ?_⟩
    all_goals
      rcases ht _ hm with ⟨seconds, he⟩ | hs
      · cases he
      · exact hs
  cases h with
  | @rolledBack t₁ t₂ error quiet stops kept =>
    obtain ⟨hcall, hclock⟩ := hquiet quiet
    refine ⟨fun request' answer' hm => ?_, .inl fun message hm => ?_⟩
    · rcases List.mem_append.1 hm with hm | hm
      · exact hcall _ _ hm
      · obtain ⟨id, a, he⟩ := stops.mem hm
        cases he
    · rcases List.mem_append.1 hm with hm | hm
      · exact hclock _ hm
      · obtain ⟨id, a, he⟩ := stops.mem hm
        cases he
  | @clockLost result message ok attested kept =>
    refine ⟨fun request' answer' hm => ?_, .inr ⟨result, message, ok, attested, rfl, _, rfl⟩⟩
    cases List.mem_singleton.1 hm
  | recorded quiet => exact ⟨(hquiet quiet).1, .inl (hquiet quiet).2⟩

/-- **Apply is all or nothing, clock permitting.** In every run of a mutating apply of a valid manifest: it succeeds with
the containers recorded under its run id, or fails with no file for it and a stop requested for every container the
client reported, exactly when the clock could be read. -/
theorem apply_all_or_nothing (manifest : CompositionManifest) (h : manifest.validate lib = .ok ()) (stateDir : PathBuf) :
    ∃ plan run, manifest.plan lib = .ok plan ∧ runId manifest plan.manifestSha256 = .ok run ∧
      ∀ fs t r fs', Run Step (applyWithLifecycleClient lib manifest stateDir false) fs t r fs' →
        (AllOrNothing manifest.runtime.wslDistribution (statePath stateDir run).components run fs t r fs' ↔
          ∀ message, ⟨.clock, .error message⟩ ∉ t) := by
  have hv := (validate_ok_iff lib).1 h
  obtain ⟨run, lifecycle, hp⟩ := hv.planned lib
  refine ⟨_, run, hv.plan_eq lib, hp.runId, fun fs t r fs' hrun => ?_⟩
  rw [statePath_components stateDir hp.word]
  rcases hp.run_apply hrun with ⟨⟨error, rfl⟩, rfl, ht⟩ | ⟨t₁, answer, t₂, rfl, ht₁, -, hnone, hf⟩
  · exact ⟨fun _ _ hm => ht _ hm, fun _ => ⟨⟨error, rfl⟩, rfl, fun request answer hm => absurd (ht _ hm) id⟩⟩
  · obtain ⟨hcall, hclock⟩ := hf.calls
    refine ⟨?_, ?_⟩
    · intro hall
      rcases hclock with hclock | ⟨result, message, rfl, hr, rfl, error, rfl⟩
      · intro message hm
        rcases mem_one_call.1 hm with hm | hm | hm
        · exact ht₁ _ hm
        · cases hm
        · exact hclock message hm
      · -- the containers are there, and nobody was asked to stop them
        obtain ⟨id, hid⟩ := attested_nonempty lib hp hr
        obtain ⟨a, ha⟩ := hall.2.2 hp.request _ (mem_one_call.2 (.inr (.inl rfl))) id hid
        rcases mem_one_call.1 ha with hm | hm | hm
        · exact absurd rfl (ht₁ _ hm)
        · cases hm
        · cases List.mem_singleton.1 hm
    · intro hno
      cases hf with
      | @rolledBack t₃ t₄ error quiet stops kept =>
        refine ⟨⟨error, rfl⟩, kept, fun request' answer' hm id hid => ?_⟩
        rcases mem_one_call.1 hm with hm | hm | hm
        · exact absurd (ht₁ _ hm) (fun h => h)
        · cases hm
          obtain ⟨a, ha⟩ := stops.all (List.mem_reverse.2 hid)
          exact ⟨a, mem_one_call.2 (.inr (.inr (List.mem_append_right t₃ ha)))⟩
        · exact absurd hm (hcall _ _)
      | clockLost => exact absurd (mem_one_call.2 (.inr (.inr (List.mem_singleton_self _)))) (hno _)
      | recorded quiet written ofRun named running given told =>
        exact ⟨named, _, written, ofRun, running, given.trans told.symm, _, _,
          mem_one_call.2 (.inr (.inl rfl)), told⟩

theorem all_or_nothing_example : ∃ plan run, demo.plan .standard = .ok plan ∧ runId demo plan.manifestSha256 = .ok run ∧
    ∀ fs t r fs', Run Step (applyWithLifecycleClient .standard demo (.ofStr "runs") false) fs t r fs' →
      (AllOrNothing none (statePath (.ofStr "runs") run).components run fs t r fs' ↔
        ∀ message, ⟨.clock, .error message⟩ ∉ t) :=
  apply_all_or_nothing .standard demo demo_valid (.ofStr "runs")

/-- after an attested result, a clock that cannot be read ends the apply at once -/
theorem finish_clockLost (manifest : CompositionManifest) (stateDir : PathBuf) (lifecycle : LifecyclePlan)
    {request : ServiceLifecycleRequest} {result : ServiceLifecycleResult}
    (h : validateLifecycleResult lib request result = .ok ()) (fs : FileSystem) (message : String) :
    Run Step (finishApply lib manifest stateDir lifecycle request (.ok result)) fs [⟨.clock, .error message⟩]
      (.error (.err (.backend "clock" message))) fs := by
  have hclock : Run Step unixSeconds fs [⟨.clock, .error message⟩] (.error (.err (.backend "clock" message))) fs :=
    run_unixSeconds.2 ⟨rfl, .error message, rfl, rfl⟩
  rw [finishApply, h]
  exact run_bind.2 (.inl ⟨.ok (), [], fs, _, run_done.2 ⟨rfl, rfl, rfl⟩, run_bind.2 (.inr ⟨_, hclock, rfl⟩), rfl⟩)

theorem demo_applicable : Applicable demo := ⟨rfl, rfl⟩

theorem demo_order {run : String} {lifecycle : LifecyclePlan} (h : Planned .standard demo run lifecycle) :
    lifecycle.order = ["db", "api"] := by
  have ho : demo.serviceOrder = .ok ["db", "api"] := rfl
  exact Except.ok.inj (h.order.symm.trans ho)

/-- a result with a container for each service of `demo` -/
def twoCreated : ServiceLifecycleResult where
  version := serviceLifecycleVersion
  success := true
  errorCode := ""
  errorMessage := ""
  containers := .ofList [("api", "c1"), ("db", "c2")] compare
  effectiveEngine := "podman"
  resolvedProvider := "podman"
  podmanPipe := defaultPodmanPipe

theorem twoCreated_attested {run : String} {lifecycle : LifecyclePlan} (h : Planned .standard demo run lifecycle) :
    validateLifecycleResult .standard h.request twoCreated = .ok () := by
  have ho : h.request.order = ["db", "api"] := demo_order h
  rw [validateLifecycleResult, ho]
  rfl

/-- the clock is before 1970: an error, and nobody stops the two containers -/
theorem clock_loses_containers : ∃ run fs t r fs', demo.validate .standard = .ok () ∧
    runId demo (demo.digest .standard) = .ok run ∧
    Run Step (applyWithLifecycleClient .standard demo (.ofStr "runs") false) fs t r fs' ∧
    ¬AllOrNothing demo.runtime.wslDistribution (statePath (.ofStr "runs") run).components run fs t r fs' := by
  obtain ⟨run, lifecycle, hp⟩ := ((validate_ok_iff .standard).1 demo_valid).planned .standard
  obtain ⟨t₁, ht₁, hruns⟩ := hp.runs_apply demo_applicable (.ofStr "runs") .empty rfl rfl
  have hfinish := finish_clockLost .standard demo (.ofStr "runs") lifecycle (twoCreated_attested hp) .empty
    "second time provided was later than self"
  refine ⟨run, _, _, _, _, demo_valid, hp.runId, seen_run (hruns _ _ _ _ hfinish), fun hall => ?_⟩
  obtain ⟨a, ha⟩ := hall.2.2 hp.request _ (mem_one_call.2 (.inr (.inl rfl))) "c1" (mem_values.2 ⟨"api", rfl⟩)
  rcases mem_one_call.1 ha with hm | hm | hm
  · exact absurd rfl (ht₁ _ hm)
  · cases hm
  · cases List.mem_singleton.1 hm

/-! ## The order of a rollback -/

/-- containers stopped in the reverse of the order they were created in, hence dependents before what they depend on -/
structure ReverseCreation (services : BTreeMap Service) (order : List String) (containers : BTreeMap String)
    (stops : List String) : Prop where
  reverse : stops = (RollbackContract.ofOrder order containers).stops
  dependents_first : ∀ (s d : String) i j, TransGen (DependsOn services) s d → containers[s]? = some i →
    containers[d]? = some j → Before stops i j

/-- every rollback of an apply whose client reported containers for exactly these services is in reverse creation order -/
def RollsBackInOrder (manifest : CompositionManifest) (names : BTreeSet) : Prop :=
  ∀ stateDir fs t error fs' request answer order,
    Run Step (applyWithLifecycleClient lib manifest stateDir false) fs t (.error error) fs' →
    ⟨.lifecycle request, answer⟩ ∈ t → (∀ name, name ∈ returnedContainers answer ↔ name ∈ names) →
    (∀ message, ⟨.clock, .error message⟩ ∉ t) → manifest.serviceOrder = .ok order →
      ReverseCreation manifest.services order (returnedContainers answer) (stopRequests t)

theorem ofOrder_stops (order : List String) (containers : BTreeMap String) :
    (RollbackContract.ofOrder order containers).stops = (order.filterMap fun name => containers[name]?).reverse := by
  rw [RollbackContract.stops, RollbackContract.ofOrder, List.map_reverse, List.map_filterMap]
  congr 2
  funext name
  cases containers[name]? <;> rfl

/-- where the services that have a container were created in the order of their names, so are the values of the map -/
theorem values_of_sorted {order : List String} (ho : order.Nodup) {containers : BTreeMap String} {names : BTreeSet}
    (hn : ∀ name, name ∈ containers ↔ name ∈ names) (hsub : ∀ name ∈ names, name ∈ order)
    (hsorted : (order.filter (· ∈ names)).Pairwise (· < ·)) :
    values containers = order.filterMap fun name => containers[name]? := by
  have hkeys : containers.keys = order.filter (· ∈ names) := by
    refine List.Perm.eq_of_pairwise (fun a b _ _ h h' => absurd (lt_trans h h') (lt_irrefl a)) (keys_sorted _) hsorted ?_
    apply (List.perm_ext_iff_of_nodup Std.ExtTreeMap.nodup_keys (ho.filter _)).2
    intro name
    rw [Std.ExtTreeMap.mem_keys, hn, List.mem_filter, decide_eq_true_eq]
    exact ⟨fun h => ⟨hsub name h, h⟩, fun h => h.2⟩
  rw [values_eq_filterMap, hkeys, List.filterMap_filter]
  apply List.filterMap_congr
  intro name _
  split_ifs with h
  · rfl
  · have : name ∉ containers := fun hm => h (by simpa using (hn name).1 hm)
    exact (Std.ExtTreeMap.getElem?_eq_none this).symm

/-- stopping in reverse creation order stops dependents first -/
theorem reverse_creation {manifest : CompositionManifest} (h : Valid manifest) {order : List String}
    (ho : manifest.serviceOrder = .ok order) {containers : BTreeMap String}
    (hsub : ∀ name, name ∈ containers → name ∈ manifest.services) :
    ReverseCreation manifest.services order containers (RollbackContract.ofOrder order containers).stops := by
  refine ⟨rfl, fun s d i j hsd hs hd => ?_⟩
  have hin : s ∈ order := (h.mem_order ho s).2 (hsub s (mem_of_getElem? hs))
  have hbefore : Before order d s :=
    (serviceOrder_ok h.closed ho).2.before_of_trans (serviceOrder_nodup h.closed ho) hin hsd
  rw [ofOrder_stops]
  exact (hbefore.filterMap hd hs).reverse

/-- before the lifecycle call nothing is stopped -/
theorem requests_one_call {t₁ t₂ : Trace} {request : ServiceLifecycleRequest}
    {answer : Except ServiceLifecycleFailure ServiceLifecycleResult} (h : ∀ e ∈ t₁, Event.preparing e) :
    stopRequests (t₁ ++ ⟨.lifecycle request, answer⟩ :: t₂) = stopRequests t₂ := by
  have h₁ : t₁.filterMap stopRequest = [] := List.filterMap_eq_nil_iff.2 fun e he => (h e he).no_stop
  rw [stopRequests, List.filterMap_append, h₁, List.nil_append]
  rfl

/-- the client may fail, whatever containers it reports -/
theorem Planned.runs_rollback {manifest : CompositionManifest} {run : String} {lifecycle : LifecyclePlan}
    (h : Planned lib manifest run lifecycle) (hg : Applicable manifest) (stateDir : PathBuf)
    (failure : ServiceLifecycleFailure) :
    ∃ t, Run Step (applyWithLifecycleClient lib manifest stateDir false) .empty t
        (.error (.err failure.error)) .empty ∧
      ⟨.lifecycle h.request, .error failure⟩ ∈ t ∧ (∀ message, ⟨.clock, .error message⟩ ∉ t) ∧
      stopRequests t = (values failure.result.containers).reverse := by
  obtain ⟨t₁, ht₁, hruns⟩ := h.runs_apply hg stateDir .empty rfl rfl
  obtain ⟨t₂, ht₂⟩ := Stops.exists manifest.runtime.wslDistribution (values failure.result.containers).reverse
  have hfinish : Run Step (finishApply lib manifest stateDir lifecycle h.request (.error failure)) .empty t₂
      (.error (.err failure.error)) .empty := run_rollback_fail.2 ⟨rfl, rfl, ht₂⟩
  refine ⟨_, seen_run (hruns _ _ _ _ hfinish), mem_one_call.2 (.inr (.inl rfl)), fun message hm => ?_, ?_⟩
  · rcases mem_one_call.1 hm with hm | hm | hm
    · exact ht₁ _ hm
    · cases hm
    · obtain ⟨id, a, he⟩ := ht₂.mem hm
      cases he
  · rw [requests_one_call ht₁, ht₂.requests]

/-- each service with a container of its own name -/
def namedContainers (names : BTreeSet) : BTreeMap String := .ofList (names.toList.map fun name => (name, name)) compare

theorem namedContainers_get (names : BTreeSet) (name : String) :
    (namedContainers names)[name]? = if name ∈ names then some name else none := by
  have hnd : ((names.toList.map fun name => (name, name)).map Prod.fst).Nodup := by
    rw [List.map_map]
    exact (List.map_id names.toList).symm ▸ set_toList_nodup names
  apply Option.ext
  intro v
  rw [namedContainers, getElem?_ofList hnd, List.mem_map]
  refine ⟨?_, ?_⟩
  · intro hx
    obtain ⟨n, hn, he⟩ := hx
    cases he
    rw [if_pos (Std.ExtTreeSet.mem_toList.1 hn)]
  · intro h
    split_ifs at h with hn
    cases h
    exact ⟨name, Std.ExtTreeSet.mem_toList.2 hn, rfl⟩

/-- a client that fails after creating one container a service shows the order in which they are stopped -/
theorem Planned.sorted_of_rollback {manifest : CompositionManifest} {run : String} {lifecycle : LifecyclePlan}
    (h : Planned lib manifest run lifecycle) (hg : Applicable manifest) {names : BTreeSet}
    (hall : RollsBackInOrder lib manifest names) : (lifecycle.order.filter (· ∈ names)).Pairwise (· < ·) := by
  have hget := namedContainers_get names
  have hmem : ∀ name, name ∈ namedContainers names ↔ name ∈ names := fun name => by
    rw [Std.ExtTreeMap.mem_iff_isSome_getElem?, hget]
    split_ifs with hm <;> simp [hm]
  obtain ⟨t, hrun, hcall, hclock, hstops⟩ := h.runs_rollback lib hg (.ofStr "")
    ⟨.backend "nvms_failed" "", ⟨"", false, "", "", namedContainers names, "", "", ""⟩⟩
  have hrev : stopRequests t = (RollbackContract.ofOrder lifecycle.order (namedContainers names)).stops :=
    (hall _ _ _ _ _ _ _ _ hrun hcall hmem hclock h.order).reverse
  change stopRequests t = (values (namedContainers names)).reverse at hstops
  rw [hstops, ofOrder_stops, List.reverse_inj] at hrev
  have hkeys : values (namedContainers names) = (namedContainers names).keys := by
    rw [values_eq_filterMap]
    refine (List.filterMap_congr fun name hname => ?_).trans List.filterMap_some
    rw [hget, if_pos ((hmem name).1 (Std.ExtTreeMap.mem_keys.1 hname))]
  have hfilter : lifecycle.order.filterMap (fun name => (namedContainers names)[name]?) =
      lifecycle.order.filter (· ∈ names) := by
    rw [← List.filterMap_eq_filter]
    apply List.filterMap_congr
    intro name _
    rw [hget, Option.guard]
    simp only [decide_eq_true_eq]
  rw [← hfilter, ← hrev, hkeys]
  exact keys_sorted _

/-- **Rollback is by name.** For a valid manifest and any set of its services: every failed apply whose client reported
containers for these services, and which could read the clock, asks for them to be stopped in reverse creation order,
dependents first, exactly when a gate refuses the manifest or these services are created in the order of their names. -/
theorem rollback_order (manifest : CompositionManifest) (h : manifest.validate lib = .ok ()) (names : BTreeSet)
    (hn : ∀ name ∈ names, name ∈ manifest.services) :
    RollsBackInOrder lib manifest names ↔
      (Applicable manifest → ∃ order, manifest.serviceOrder = .ok order ∧
        (order.filter (· ∈ names)).Pairwise (· < ·)) := by
  have hv := (validate_ok_iff lib).1 h
  obtain ⟨run, lifecycle, hp⟩ := hv.planned lib
  have ho := hp.order
  refine ⟨?_, ?_⟩
  · exact fun hall hg => ⟨lifecycle.order, ho, hp.sorted_of_rollback lib hg hall⟩
  · intro hsorted stateDir fs t error fs' request answer order hrun hcall hkeys hclock hord
    rcases hp.run_apply hrun with ⟨-, -, ht⟩ | ⟨t₁, answer', t₂, rfl, ht₁, hg, -, hf⟩
    · exact absurd (ht _ hcall) id
    · obtain rfl : answer = answer' := by
        rcases mem_one_call.1 hcall with hm | hm | hm
        · exact absurd (ht₁ _ hm) id
        · cases hm; rfl
        · exact absurd hm (hf.calls.1 _ _)
      have hsub : ∀ name, name ∈ returnedContainers answer → name ∈ manifest.services :=
        fun name hm => hn name ((hkeys name).1 hm)
      have hrolled : stopRequests (t₁ ++ ⟨.lifecycle hp.request, answer⟩ :: t₂) =
          (values (returnedContainers answer)).reverse := by
        rw [requests_one_call ht₁]
        cases hf with
        | @rolledBack t₃ t₄ error quiet stops kept =>
          have h₃ : t₃.filterMap stopRequest = [] := List.filterMap_eq_nil_iff.2 fun e he => (quiet e he).no_stop
          rw [stopRequests, List.filterMap_append, h₃, List.nil_append]
          exact stops.requests
        | clockLost => exact absurd (mem_one_call.2 (.inr (.inr (List.mem_singleton_self _)))) (hclock _)
      obtain ⟨order', ho', hascending⟩ := hsorted hg
      obtain rfl : order = order' := Except.ok.inj (hord.symm.trans ho')
      have hvalues := values_of_sorted (serviceOrder_nodup hv.closed hord) hkeys
        (fun name hm => (hv.mem_order hord name).2 (hn name hm)) hascending
      have hstops : stopRequests (t₁ ++ ⟨.lifecycle hp.request, answer⟩ :: t₂) =
          (RollbackContract.ofOrder order (returnedContainers answer)).stops := by
        rw [hrolled, ofOrder_stops, hvalues]
      rw [hstops]
      exact reverse_creation hv hord hsub

/-- two services that are created in the order of their names -/
def ascending : CompositionManifest :=
  { demo with services := .ofList [("api", gpuService [] uuidA), ("web", gpuService ["api"] uuidA)] compare }

theorem ascending_valid : ascending.validate .standard = .ok () := rfl

def twoStarted : ServiceLifecycleFailure :=
  ⟨.backend "nvms_failed" "", ⟨"", false, "", "", .ofList [("api", "c1"), ("web", "c2")] compare, "", "", ""⟩⟩

/-- an apply that fails with both containers there has the one of `web` stopped first -/
theorem rollback_example : RollsBackInOrder .standard ascending (.ofList ["api", "web"] compare) ∧
    ∃ t, Run Step (applyWithLifecycleClient .standard ascending (.ofStr "runs") false) .empty t
      (.error (.err twoStarted.error)) .empty ∧ stopRequests t = ["c2", "c1"] := by
  refine ⟨(rollback_order .standard ascending ascending_valid _ fun name hname => ?_).2 fun _ =>
    ⟨["api", "web"], rfl, by decide⟩, ?_⟩
  · rcases List.mem_pair.1 (mem_set_ofList.1 hname) with rfl | rfl
    · decide
    · decide
  · obtain ⟨run, lifecycle, hp⟩ := ((validate_ok_iff .standard).1 ascending_valid).planned .standard
    obtain ⟨t, hrun, -, -, hstops⟩ := hp.runs_rollback .standard demo_applicable (.ofStr "runs") twoStarted
    exact ⟨t, hrun, hstops⟩

/-- `db` is created before `api` and stopped before it -/
theorem rollback_stops_dependency_first :
    demo.validate .standard = .ok () ∧ ¬RollsBackInOrder .standard demo (.ofList ["api", "db"] compare) := by
  refine ⟨demo_valid, fun hall => ?_⟩
  obtain ⟨run, lifecycle, hp⟩ := ((validate_ok_iff .standard).1 demo_valid).planned .standard
  have hsorted := hp.sorted_of_rollback .standard demo_applicable hall
  rw [demo_order hp] at hsorted
  exact absurd hsorted (by decide)

/-! ## Addressing a run -/

/-- the run id is accepted, and whatever an apply of the manifest recorded can be loaded under it -/
def Addressable (manifest : CompositionManifest) (run : String) : Prop :=
  validateSlug "run_id" run = .ok () ∧ ∀ stateDir fs t output fs',
    Run Step (applyWithLifecycleClient lib manifest stateDir false) fs t (.ok output) fs' →
      output.runId = run ∧ ∃ t' state, Run Step (loadState lib stateDir run) fs' t' (.ok state) fs' ∧
        state.runId = run ∧ state.containers = output.containers

theorem Planned.slug_iff {manifest : CompositionManifest} {run : String} {lifecycle : LifecyclePlan}
    (h : Planned lib manifest run lifecycle) :
    validateSlug "run_id" run = .ok () ↔
      manifest.metadata.name.toList.head?.any Char.isAlphanum = true ∧ manifest.metadata.name.toList.length ≤ 115 := by
  have hlist : run.toList = manifest.metadata.name.toList.map sanitizeChar ++
      '-' :: (shortDigest lib (manifest.canonicalBytes lib)).toList := by
    rw [h.run_eq, String.toList_append, String.toList_append, List.append_assoc, sanitizeName, String.toList_ofList]
    rfl
  have hdigest : (shortDigest lib (manifest.canonicalBytes lib)).toList.length = 12 := by
    rw [shortDigest, String.toList_ofList, List.length_take, Externals.sha256Hex_length]
    rfl
  have hsize : run.utf8ByteSize = manifest.metadata.name.toList.length + 13 := by
    rw [word_utf8ByteSize h.word, hlist, List.length_append, List.length_map, List.length_cons, hdigest]
  have hhead : run.toList.head?.any Char.isAlphanum = manifest.metadata.name.toList.head?.any Char.isAlphanum := by
    rw [hlist]
    cases manifest.metadata.name.toList with
    | nil => rfl
    | cons c cs => exact sanitizeChar_alphanum c
  rw [validateSlug_ok_iff, hsize, hhead]
  refine ⟨?_, ?_⟩
  · intro hx
    obtain ⟨-, hle, hc, -⟩ := hx
    exact ⟨hc, by omega⟩
  · intro hx
    obtain ⟨hc, hle⟩ := hx
    exact ⟨h.ne_empty, by omega, hc, h.word⟩

/-- **Which runs can be addressed.** The run id of a valid manifest is accepted by every command that loads a run, and
what an apply recorded is found under it, exactly when the name begins with an ASCII letter or digit and has at most 115
characters. -/
theorem run_addressable (manifest : CompositionManifest) (h : manifest.validate lib = .ok ()) :
    ∃ plan run, manifest.plan lib = .ok plan ∧ runId manifest plan.manifestSha256 = .ok run ∧
      (Addressable lib manifest run ↔
        manifest.metadata.name.toList.head?.any Char.isAlphanum = true ∧
          manifest.metadata.name.toList.length ≤ 115) := by
  have hv := (validate_ok_iff lib).1 h
  obtain ⟨run, lifecycle, hp⟩ := hv.planned lib
  refine ⟨_, run, hv.plan_eq lib, hp.runId, fun hall => (hp.slug_iff lib).1 hall.1, fun hname => ?_⟩
  have hslug := (hp.slug_iff lib).2 hname
  refine ⟨hslug, fun stateDir fs t output fs' hrun => ?_⟩
  rcases hp.run_apply hrun with ⟨⟨error, he⟩, -, -⟩ | ⟨t₁, answer, t₂, rfl, ht₁, -, -, hf⟩
  · cases he
  · cases hf with
    | @recorded state _ _ quiet written ofRun named running given told =>
      refine ⟨named, _, state, (run_loadState lib).2 ⟨hslug, rfl, _, ?_, lib.fromStr_encode _ _ state, rfl⟩, ofRun,
        given.trans told.symm⟩
      rw [statePath_components stateDir hp.word]
      exact written

theorem addressable_example : ∃ plan run, demo.plan .standard = .ok plan ∧
    runId demo plan.manifestSha256 = .ok run ∧ Addressable .standard demo run := by
  obtain ⟨plan, run, hp, hr, hi⟩ := run_addressable .standard demo demo_valid
  exact ⟨plan, run, hp, hr, hi.2 ⟨rfl, by decide⟩⟩

/-- a name that begins with an underscore gives a run id that begins with a hyphen -/
theorem underscore_not_addressable : (twoServices "_demo" uuidA [] "api").validate .standard = .ok () ∧
    ∃ plan run, (twoServices "_demo" uuidA [] "api").plan .standard = .ok plan ∧
      runId (twoServices "_demo" uuidA [] "api") plan.manifestSha256 = .ok run ∧
      validateSlug "run_id" run ≠ .ok () := by
  have hvalid : (twoServices "_demo" uuidA [] "api").validate .standard = .ok () := rfl
  have hv := (validate_ok_iff .standard).1 hvalid
  obtain ⟨run, lifecycle, hp⟩ := hv.planned .standard
  exact ⟨hvalid, _, run, hv.plan_eq .standard, hp.runId, fun hs => absurd ((hp.slug_iff .standard).1 hs).1 (by decide)⟩

end PhenoCompose
