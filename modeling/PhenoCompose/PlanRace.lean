/-
Plans that are executed and rolled back on one runtime at the same time.

A spawn gives an id that no container had before, or fails and starts nothing; a stop takes a container away, or fails and
changes nothing. `NoopRuntime` is such a runtime (`noop_spawns`, `noop_stops`). Parties make their calls on it in turns.

- `Ledger`: what runs is what ran at the start and what was spawned, without what was stopped; no id is given twice.
- `executed_session`, `rolledBack_session`: what a party did in a call that has returned.
- `plans_isolated`: a rollback takes away the containers of the failed execution and nobody else's.
-/
import PhenoCompose.Core.Sessions
import PhenoCompose.NoopRuntime
import PhenoCompose.PlanExecution

namespace PhenoCompose

open Core.Collections Core.Interleave Core.Process Core.Sessions Core.Transition
open NoopRuntime (Containers Contract)

/-! ## The runtime -/

def RuntimeStep (s : Containers) : (op : RuntimeCall) → RuntimeAnswer op → Containers → Prop
  | .spawn .., .ok id, s' => id ∉ s.used ∧ s' = ⟨insert id s.used, insert id s.alive⟩
  | .stop id, .ok _, s' => id ∈ s.alive ∧ s' = ⟨s.used, s.alive \ {id}⟩
  | .spawn .., .error _, s' | .stop _, .error _, s' => s' = s

theorem noop_spawns {s s' : Containers} {image : String} {out : NoopRuntime.Outcome}
    (h : Contract s (.spawn image) out s') (name : String) (service : Service) :
    (∃ id, out = .ok (.container id) ∧ RuntimeStep s (.spawn name service image) (.ok id) s') ∨
      ∃ error, out = .error (.err error) ∧ RuntimeStep s (.spawn name service image) (.error error) s' := by
  cases h with
  | spawned named fresh => exact .inl ⟨_, rfl, fresh, rfl⟩
  | refused => exact .inr ⟨_, rfl, rfl⟩

theorem noop_stops {s s' : Containers} {id : String} {out : NoopRuntime.Outcome} (h : Contract s (.stop id) out s') :
    (out = .ok .stopped ∧ RuntimeStep s (.stop id) (.ok ()) s') ∨
      ∃ error, out = .error (.err error) ∧ RuntimeStep s (.stop id) (.error error) s' := by
  cases h with
  | stopped running => exact .inl ⟨rfl, running, rfl⟩
  | unknown gone => exact .inr ⟨_, rfl, rfl⟩

/-! ## The parties -/

inductive PlanCall where
  | execute (plan : LifecyclePlan) (services : BTreeMap Service)
  | rollback (contract : RollbackContract)

inductive PlanValue where
  | containers (containers : BTreeMap String)
  | rolledBack

def planMethod : PlanCall → RuntimeProc (RollbackContract × CliError) PlanValue
  | .execute plan services => do
    let containers ← executeLifecyclePlan plan services
    pure (.containers containers)
  | .rollback contract => do
    contract.rollback
    pure .rolledBack

abbrev PlanOutcome := Except (Stop (RollbackContract × CliError)) PlanValue

abbrev PlanTurns (ι : Type) := List (Label RuntimeAnswer ι PlanCall PlanOutcome)

abbrev PlanParties (ι : Type) := Pool Containers ι PlanCall (RuntimeProc (RollbackContract × CliError) PlanValue)

/-- executions only spawn, and rollbacks only stop what is in their contract -/
def PlanCall.may : PlanCall → Event RuntimeAnswer → Prop
  | .execute .., e => ∀ id, e.1 ≠ .stop id
  | .rollback contract, e => ∃ entry ∈ contract.created, e.1 = .stop entry.2

theorem planMethod_only (c : PlanCall) : Only c.may (planMethod c) := by
  cases c with
  | execute plan services =>
    refine ((Only.foldlM _ (fun s intent _ => ?_) _).bind fun _ => Only.pure _).bind fun _ => Only.pure _
    unfold executeIntent
    split_ifs
    · exact Only.pure _
    · cases services[intent.service]? with
      | none => exact Only.panicked _
      | some service =>
        refine (Only.call fun _ _ he => by cases he).bind fun answer => ?_
        cases answer with
        | ok id => exact Only.pure _
        | error error => exact Only.fail _
  | rollback contract =>
    refine (Only.forM _ fun entry hentry => ?_).bind fun _ => Only.pure _
    exact (Only.call fun _ => ⟨entry, List.mem_reverse.1 hentry, rfl⟩).bind fun _ => Only.pure _

/-! ## What runs -/

def spawnedId : Event RuntimeAnswer → Option String
  | ⟨.spawn .., .ok id⟩ => some id
  | ⟨.spawn .., .error _⟩ | ⟨.stop _, _⟩ => none

def stoppedId : Event RuntimeAnswer → Option String
  | ⟨.stop id, .ok _⟩ => some id
  | ⟨.stop _, .error _⟩ | ⟨.spawn .., _⟩ => none

theorem only_executions_spawn {c : PlanCall} {e : Event RuntimeAnswer} {id : String} (hmay : c.may e)
    (hid : spawnedId e = some id) : ∃ plan services, c = .execute plan services := by
  cases c with
  | execute plan services => exact ⟨plan, services, rfl⟩
  | rollback contract =>
    obtain ⟨op, answer⟩ := e
    obtain ⟨entry, -, rfl⟩ : ∃ entry ∈ contract.created, op = .stop entry.2 := hmay
    cases hid

/-- the accounts of the runtime: what was spawned and what was stopped since it was in the state `s` -/
structure Ledger (s : Containers) (spawned stopped : List String) (now : Containers) : Prop where
  used : ∀ id, id ∈ now.used ↔ id ∈ s.used ∨ id ∈ spawned
  alive : ∀ id, id ∈ now.alive ↔ (id ∈ s.alive ∨ id ∈ spawned) ∧ id ∉ stopped
  once : spawned.Nodup
  fresh : ∀ id ∈ spawned, id ∉ s.used
  known : ∀ id ∈ stopped, id ∈ s.alive ∨ id ∈ spawned

theorem Ledger.step {s now later : Containers} {spawned stopped : List String} (h : Ledger s spawned stopped now)
    (hs : s.alive ⊆ s.used) {e : Event RuntimeAnswer} (hstep : RuntimeStep now e.1 e.2 later) :
    Ledger s (spawned ++ (spawnedId e).toList) (stopped ++ (stoppedId e).toList) later := by
  obtain ⟨op, answer⟩ := e
  cases op with
  | spawn name service image =>
    cases answer with
    | error error =>
      obtain rfl : later = now := hstep
      simpa [spawnedId, stoppedId] using h
    | ok id =>
      obtain ⟨hfresh, rfl⟩ := hstep
      rw [h.used, not_or] at hfresh
      have hunstopped : id ∉ stopped := fun hm => (h.known id hm).elim (fun ha => hfresh.1 (hs ha)) hfresh.2
      simp only [spawnedId, stoppedId, Option.toList_some, Option.toList_none, List.append_nil]
      refine ⟨fun x => ?_, fun x => ?_, ?_, ?_, fun x hx => ?_⟩
      · simp only [Set.mem_insert_iff, h.used, List.mem_append, List.mem_singleton]
        tauto
      · simp only [Set.mem_insert_iff, h.alive, List.mem_append, List.mem_singleton]
        refine ⟨?_, ?_⟩
        · rintro (rfl | ⟨hx, hx'⟩)
          · exact ⟨.inr (.inr rfl), hunstopped⟩
          · exact ⟨hx.imp_right .inl, hx'⟩
        · tauto
      · rw [List.nodup_append_comm]
        exact List.nodup_cons.2 ⟨hfresh.2, h.once⟩
      · simpa [or_imp, forall_and] using ⟨h.fresh, hfresh.1⟩
      · exact (h.known x hx).imp_right (List.mem_append_left _)
  | stop id =>
    cases answer with
    | error error =>
      obtain rfl : later = now := hstep
      simpa [spawnedId, stoppedId] using h
    | ok =>
      obtain ⟨halive, rfl⟩ := hstep
      simp only [spawnedId, stoppedId, Option.toList_some, Option.toList_none, List.append_nil]
      refine ⟨h.used, fun x => ?_, h.once, h.fresh, ?_⟩
      · simp only [Set.mem_sdiff, Set.mem_singleton_iff, h.alive, List.mem_append, List.mem_singleton]
        tauto
      · simpa [or_imp, forall_and] using ⟨h.known, ((h.alive id).1 halive).1⟩

section
variable {ι : Type} {s : Containers} {t : PlanTurns ι} {u : PlanParties ι}

def spawned (t : PlanTurns ι) : List String := t.filterMap (ofEvent spawnedId)

def stopped (t : PlanTurns ι) : List String := t.filterMap (ofEvent stoppedId)

variable [DecidableEq ι]

theorem ledger (hs : s.alive ⊆ s.used) (h : Runs (Turn (programs planMethod) fun _ => RuntimeStep) (.quiet s) t u) :
    Ledger s (spawned t) (stopped t) u.shared := by
  refine h.history (P := fun t u => Ledger s (spawned t) (stopped t) u.shared)
    (by constructor <;> simp [spawned, stopped, Pool.quiet]) ?_
  intro t u l v _ ih hl
  rw [spawned, stopped, List.filterMap_append, List.filterMap_append, ← spawned, ← stopped]
  cases hl with
  | invoke | returns => simpa [ofEvent, List.filterMap_cons] using ih
  | @event i c x y e later hin hdoes hstep =>
    have hsingle : ∀ f : Event RuntimeAnswer → Option String,
        [(.event i c e : Label RuntimeAnswer ι PlanCall PlanOutcome)].filterMap (ofEvent f) = (f e).toList := by
      intro f
      cases hf : f e <;> simp [ofEvent, hf]
    rw [hsingle, hsingle]
    exact ih.step hs hstep

/-! ## What a party did -/

/-- the plan of a valid manifest, with its services -/
def PlannedFor (lib : Externals) (plan : LifecyclePlan) (services : BTreeMap Service) : Prop :=
  ∃ manifest sha, CompositionManifest.validate lib manifest = .ok () ∧ planLifecycle manifest sha = .ok plan ∧
    manifest.services = services

theorem spawned_ids {services : BTreeMap Service} {created : List (String × String)} {trace : RuntimeTrace}
    (h : created.Forall₂ (Spawned services) trace) : trace.filterMap spawnedId = created.map Prod.snd := by
  induction h with
  | nil => rfl
  | cons hfirst _ ih =>
    obtain ⟨service, -, rfl⟩ := hfirst
    rw [List.map_cons, ← ih]
    rfl

/-- the containers that an execution gave, or left to its contract -/
def Gave (r : PlanOutcome) (id : String) : Prop :=
  match r with
  | .ok (.containers containers) => ∃ name : String, containers[name]? = some id
  | .error (.err (contract, _)) => ∃ entry ∈ contract.created, entry.2 = id
  | _ => False

/-- an execution that has returned holds what it spawned -/
theorem executed_session {lib : Externals} {plan : LifecyclePlan} {services : BTreeMap Service}
    (hplan : PlannedFor lib plan services) {trace : RuntimeTrace} {r : PlanOutcome}
    (h : Run Answered (planMethod (.execute plan services)) () trace r ()) (id : String) :
    id ∈ trace.filterMap spawnedId ↔ Gave r id := by
  obtain ⟨manifest, sha, hvalid, hplanned, rfl⟩ := hplan
  have hv := (validate_ok_iff lib).1 hvalid
  obtain ⟨order, ho⟩ := hv.order
  obtain rfl := Except.ok.inj ((planLifecycle_ok hv ho sha).symm.trans hplanned)
  obtain ⟨r', hexecuted, rfl⟩ := run_bind_pure.1 h
  cases execution_ends hv ho sha hexecuted with
  | @all created _ containers named hspawned kept =>
    rw [spawned_ids hspawned]
    simp [Gave, Except.map, kept]
  | @failed created _ name rest error event named hspawned failure =>
    obtain ⟨service, -, rfl⟩ := failure
    rw [List.filterMap_append, spawned_ids hspawned]
    simp [Gave, Except.map, spawnedId]

/-- a rollback that has returned asked for every container of its contract -/
theorem rolledBack_session {contract : RollbackContract} {trace : RuntimeTrace} {r : PlanOutcome}
    (h : Run Answered (planMethod (.rollback contract)) () trace r ()) :
    r = .ok .rolledBack ∧ ∀ entry ∈ contract.created, ∃ answer, ⟨.stop entry.2, answer⟩ ∈ trace := by
  obtain ⟨r', hrolled, rfl⟩ := run_bind_pure.1 h
  obtain ⟨rfl, hstops⟩ := rollback_spec hrolled
  refine ⟨rfl, fun entry hentry => ?_⟩
  have hasked : RuntimeCall.stop entry.2 ∈ trace.map Sigma.fst := by
    rw [hstops]
    exact List.mem_map.2 ⟨entry, List.mem_reverse.2 hentry, rfl⟩
  obtain ⟨⟨op, answer⟩, he, rfl⟩ := List.mem_map.1 hasked
  exact ⟨answer, he⟩

/-! ## Interleavings -/

/-- nobody's containers but those of a failed execution are taken away, and every one that runs belongs to somebody -/
structure Isolated (s : Containers) (t : PlanTurns ι) (u : PlanParties ι) : Prop where
  untouched : s.alive ⊆ u.shared.alive
  running : ∀ i plan services containers, .returns i (.execute plan services) (.ok (.containers containers)) ∈ t →
    ∀ (name : String) id, containers[name]? = some id → id ∈ u.shared.alive
  taken_back : ∀ i contract r, .returns i (.rollback contract) r ∈ t → ∀ entry ∈ contract.created,
    entry.2 ∈ u.shared.alive → ∃ c error, .event i c ⟨.stop entry.2, .error error⟩ ∈ t
  separate : ∀ (m n : ℕ) i j c c' r r' id, t[m]? = some (.returns i c r) → t[n]? = some (.returns j c' r') →
    Gave r id → Gave r' id → m = n
  accounted : ∀ id ∈ u.shared.alive, id ∈ s.alive ∨ ∃ i plan services,
    (∃ r, .returns i (.execute plan services) r ∈ t ∧ Gave r id) ∨
      ∃ x, u.parties i = some (.execute plan services, x) ∧ id ∈ (diary i t).pending.filterMap spawnedId

section
variable {lib : Externals} (hs : s.alive ⊆ s.used)
  (h : Runs (Turn (programs planMethod) fun _ => RuntimeStep) (.quiet s) t u)
  (hplans : ∀ i plan services, .invoke i (.execute plan services) ∈ t → PlannedFor lib plan services)
  (hrollbacks : ∀ i contract, .invoke i (.rollback contract) ∈ t →
    ∃ j plan services error, .returns j (.execute plan services) (.error (.err (contract, error))) ∈ t)

include h

include hrollbacks in
/-- what was stopped was left to the contract of a failed execution -/
theorem stopped_left {id : String} (hstopped : id ∈ stopped t) : ∃ j plan services contract error,
    .returns j (.execute plan services) (.error (.err (contract, error))) ∈ t ∧
      ∃ entry ∈ contract.created, entry.2 = id := by
  obtain ⟨l, hl, hid⟩ := List.mem_filterMap.1 hstopped
  cases l with
  | invoke | returns => cases hid
  | event i c e =>
    obtain ⟨hmay, hinvoked⟩ := (confined planMethod_only h).events i c e hl
    obtain ⟨op, answer⟩ := e
    cases op with
    | spawn => cases hid
    | stop id' =>
      cases answer with
      | error => cases hid
      | ok =>
        obtain rfl := Option.some.inj hid
        cases c with
        | execute => exact absurd rfl (hmay _)
        | rollback contract =>
          obtain ⟨entry, hentry, he⟩ := hmay
          obtain ⟨j, plan, services, error, hfailed⟩ := hrollbacks i contract hinvoked
          exact ⟨j, plan, services, contract, error, hfailed, entry, hentry, (RuntimeCall.stop.inj he).symm⟩

include hplans

theorem held_spawned {i : ι} {session : Session RuntimeAnswer PlanCall PlanOutcome}
    (hin : session ∈ (diary i t).closed) {id : String} (hid : Gave session.result id) :
    id ∈ session.trace.filterMap spawnedId := by
  have hrun := (recorded h i).closed session hin
  have hinvoked := (confined planMethod_only h).returned _ _ _ (returns_of_closed i hin)
  obtain ⟨c, trace, r⟩ := session
  cases c with
  | execute plan services => exact (executed_session (hplans _ _ _ hinvoked) hrun id).2 hid
  | rollback contract =>
    obtain ⟨rfl, -⟩ := rolledBack_session hrun
    exact hid.elim

theorem returned_held {i : ι} {c : PlanCall} {r : PlanOutcome} {n : ℕ} (hreturns : t[n]? = some (.returns i c r))
    {id : String} (hid : Gave r id) : ∃ session, (diary i t).closed[(diary i (t.take n)).closed.length]? = some session ∧
      id ∈ session.trace.filterMap spawnedId :=
  ⟨_, closed_at hreturns, held_spawned h hplans (List.mem_of_getElem? (closed_at hreturns)) hid⟩

include hs hrollbacks

/-- **Plans do not disturb each other.** However executions and rollbacks interleave on one runtime, as long as what is
rolled back was left by a failed execution: the containers that ran before, and those of every execution that succeeded,
keep running; those of a contract that was rolled back are gone, unless the runtime refused to stop them; no container
belongs to two executions; and every container that runs was there before, or is held by an execution that has returned,
or was just spawned by one that has not. -/
theorem plans_isolated : Isolated s t u := by
  have hledger := ledger hs h
  have hseparate : ∀ (m n : ℕ) i j c c' r r' id, t[m]? = some (.returns i c r) → t[n]? = some (.returns j c' r') →
      Gave r id → Gave r' id → m = n := by
    intro m n i j c c' r r' id hr hr' hid hid'
    obtain ⟨session, hin, hspawned⟩ := returned_held h hplans hr hid
    obtain ⟨session', hin', hspawned'⟩ := returned_held h hplans hr' hid'
    obtain ⟨rfl, hsame⟩ := session_unique hledger.once hin hspawned hin' hspawned'
    exact place_unique hr hr' hsame
  refine ⟨fun id hid => ?_, ?_, ?_, hseparate, fun id hid => ?_⟩
  · refine (hledger.alive id).2 ⟨.inl hid, fun hstopped => ?_⟩
    obtain ⟨j, plan, services, contract, error, hfailed, hheld⟩ := stopped_left h hrollbacks hstopped
    obtain ⟨n, hn⟩ := List.mem_iff_getElem?.1 hfailed
    obtain ⟨session, hin, hspawned⟩ := returned_held h hplans hn hheld
    exact hledger.fresh id (mem_of_session (List.mem_of_getElem? hin) hspawned) (hs hid)
  · intro i plan services containers hreturns name id hid
    have hgave : Gave (.ok (.containers containers)) id := ⟨name, hid⟩
    obtain ⟨m, hm⟩ := List.mem_iff_getElem?.1 hreturns
    obtain ⟨session, hin, hspawned⟩ := returned_held h hplans hm hgave
    refine (hledger.alive id).2 ⟨.inr (mem_of_session (List.mem_of_getElem? hin) hspawned), fun hstopped => ?_⟩
    obtain ⟨j, plan', services', contract, error, hfailed, hheld⟩ := stopped_left h hrollbacks hstopped
    obtain ⟨n, hn⟩ := List.mem_iff_getElem?.1 hfailed
    obtain rfl := hseparate _ _ _ _ _ _ _ _ id hm hn hgave hheld
    cases hm.symm.trans hn
  · intro i contract r hreturns entry hentry halive
    obtain ⟨trace, hin⟩ := closed_of_returns i hreturns
    obtain ⟨answer, hasked⟩ := (rolledBack_session ((recorded h i).closed _ hin)).2 entry hentry
    obtain ⟨c, hc⟩ := (mem_own i).1 (mem_own_of_closed i hin hasked)
    cases answer with
    | error error => exact ⟨c, error, hc⟩
    | ok =>
      have hstopped : entry.2 ∈ stopped t := List.mem_filterMap.2 ⟨_, hc, rfl⟩
      exact absurd hstopped ((hledger.alive _).1 halive).2
  · refine ((hledger.alive id).1 hid).1.imp_right fun hspawned => ?_
    obtain ⟨l, hl, hid'⟩ := List.mem_filterMap.1 hspawned
    cases l with
    | invoke | returns => cases hid'
    | event i c e =>
      have hown := (mem_own i).2 ⟨c, hl⟩
      rw [own_eq, List.mem_append, List.mem_flatMap] at hown
      rcases hown with ⟨⟨c', trace, r⟩, hin, he⟩ | he
      · have hrun := (recorded h i).closed _ hin
        obtain ⟨plan, services, rfl⟩ := only_executions_spawn ((planMethod_only c').mem hrun e he) hid'
        have hinvoked := (confined planMethod_only h).returned _ _ _ (returns_of_closed i hin)
        refine ⟨i, plan, services, .inl ⟨r, returns_of_closed i hin, ?_⟩⟩
        exact (executed_session (hplans _ _ _ hinvoked) hrun id).1 (List.mem_filterMap.2 ⟨e, he, hid'⟩)
      · cases hnow : u.parties i with
        | none =>
          rw [(recorded h i).idle hnow] at he
          cases he
        | some now =>
          obtain ⟨c', x⟩ := now
          obtain ⟨-, hmade⟩ := (recorded h i).made c' x hnow c'.may (planMethod_only c')
          obtain ⟨plan, services, rfl⟩ := only_executions_spawn (hmade e he) hid'
          exact ⟨i, plan, services, .inr ⟨x, hnow, List.mem_filterMap.2 ⟨e, he, hid'⟩⟩⟩

end

end

/-! ## Two executions, of which one fails -/

def demoLifecycle : LifecyclePlan where
  schemaVersion := lifecycleSchemaVersion
  manifestSha256 := "sha"
  order := ["db", "api"]
  intents := ["db", "api"].flatMap (intentsOf demo)

theorem demoLifecycle_planned : PlannedFor .standard demoLifecycle demo.services :=
  ⟨demo, "sha", demo_valid, planLifecycle_ok ((validate_ok_iff .standard).1 demo_valid) rfl "sha", rfl⟩

def demoExecution : PlanCall := .execute demoLifecycle demo.services

def leftDb : RollbackContract := ⟨[("db", "c")]⟩

def spawnDb (id : String) : Event RuntimeAnswer :=
  ⟨.spawn "db" (gpuService [] uuidA) "registry.local/app:1", .ok id⟩

def spawnApi (answer : Except RuntimeError String) : Event RuntimeAnswer :=
  ⟨.spawn "api" (gpuService ["db"] uuidA) "registry.local/app:1", answer⟩

def demoContainers : BTreeMap String := ((∅ : BTreeMap String).insert "db" "a").insert "api" "b"

/-- both spawn a `db`; one cannot spawn its `api`, and takes its `db` back -/
def twoExecutions : PlanTurns Bool :=
  [.invoke false demoExecution, .invoke true demoExecution, .event true demoExecution (spawnDb "c"),
    .event false demoExecution (spawnDb "a"), .event true demoExecution (spawnApi (.error (.backend "no GPU left"))),
    .event false demoExecution (spawnApi (.ok "b")),
    .returns true demoExecution (.error (.err (leftDb, mapRuntimeError (.backend "no GPU left")))),
    .returns false demoExecution (.ok (.containers demoContainers)),
    .invoke true (.rollback leftDb), .event true (.rollback leftDb) ⟨.stop "c", .ok ()⟩,
    .returns true (.rollback leftDb) (.ok .rolledBack)]

theorem twoExecutions_run : ∃ u : PlanParties Bool,
    Runs (Turn (programs planMethod) fun _ => RuntimeStep) (.quiet ⟨{"old"}, {"old"}⟩) twoExecutions u ∧
      "c" ∉ u.shared.alive := by
  refine ⟨_, .cons (.invoke rfl) <| .cons (.invoke rfl) <| .cons (.event rfl ⟨_, rfl, rfl⟩ ⟨?_, rfl⟩) <|
    .cons (.event rfl ⟨_, rfl, rfl⟩ ⟨?_, rfl⟩) <| .cons (.event rfl ⟨_, rfl, rfl⟩ rfl) <|
    .cons (.event rfl ⟨_, rfl, rfl⟩ ⟨?_, rfl⟩) <| .cons (.returns rfl rfl) <| .cons (.returns rfl rfl) <|
    .cons (.invoke rfl) <| .cons (.event rfl ⟨_, rfl, rfl⟩ ⟨?_, rfl⟩) <| .cons (.returns rfl rfl) .nil, ?_⟩
  all_goals simp [Pool.quiet]

theorem plans_isolated_example : ∃ u : PlanParties Bool,
    Runs (Turn (programs planMethod) fun _ => RuntimeStep) (.quiet ⟨{"old"}, {"old"}⟩) twoExecutions u ∧
      "c" ∉ u.shared.alive ∧ Isolated ⟨{"old"}, {"old"}⟩ twoExecutions u := by
  obtain ⟨u, hu, hc⟩ := twoExecutions_run
  have hplans : ∀ i plan services, .invoke i (.execute plan services) ∈ twoExecutions →
      PlannedFor .standard plan services := by
    intro i plan services hm
    have he : plan = demoLifecycle ∧ services = demo.services := by
      simp only [twoExecutions, demoExecution, List.mem_cons, Label.invoke.injEq, PlanCall.execute.injEq] at hm
      simpa [← or_and_right] using hm
    rw [he.1, he.2]
    exact demoLifecycle_planned
  refine ⟨u, hu, hc, plans_isolated (fun _ hid => hid) hu hplans ?_⟩
  intro i contract hm
  have he : i = true ∧ contract = leftDb := by simpa [twoExecutions, demoExecution] using hm
  rw [he.2]
  exact ⟨true, demoLifecycle, demo.services, mapRuntimeError (.backend "no GPU left"),
    by simp [twoExecutions, demoExecution]⟩

end PhenoCompose
