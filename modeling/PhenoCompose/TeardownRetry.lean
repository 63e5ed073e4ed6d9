/-
Teardowns that are interrupted and taken up again.

A world is a file system and the containers that are out of the way. A container whose stop was accepted is, one that
Podman reports as gone or exited is, and none comes back. Each `down` may fail at any of its calls.

- `stop_services_reach`: when a teardown asks for a stop, the services before it in its order are out of the way.
- `down_moves`: a `down` that fails has not touched the file of its run.
- `interrupted_teardown_safe`: over any number of calls, a stop is asked for only when all dependents are out of the way,
  failures leave the file alone, and it says `down` only when every container is out of the way.
-/
import PhenoCompose.Teardown
import PhenoCompose.ActionResults
import PhenoCompose.ServiceOrder
import PhenoCompose.Core.Transition

namespace PhenoCompose

open Core.Collections Core.Json Core.Path Core.Process Core.Text Core.Topology Core.Transition Relation

variable (lib : Externals)

/-! ## Worlds -/

structure World where
  fs : FileSystem
  /-- by WSL distribution and container id -/
  inactive : Option String → String → Prop

/-- a call in a world: its answer is true of the containers, and none of them comes back -/
structure World.Step (w : World) (call : SysCall) (a : Answer call) (w' : World) : Prop where
  files : PhenoCompose.Step w.fs call a w'.fs
  stays : ∀ distribution id, w.inactive distribution id → w'.inactive distribution id
  settles : ∀ distribution id, Settled lib distribution id ⟨call, a⟩ → w'.inactive distribution id

/-- one `down`, with its calls and its outcome -/
def DownCall (stateDir : PathBuf) (runId : String) (w : World) (l : Trace × Except (Stop CliError) StatusOutput)
    (w' : World) : Prop :=
  Run (World.Step lib) (down lib stateDir runId) w l.1 l.2 w'

section
variable {ε α : Type} {x : Proc ε α} {w w' : World} {t : Trace} {r : Except (Stop ε) α}

theorem World.run_fs (h : Run (World.Step lib) x w t r w') : Run PhenoCompose.Step x w.fs t r w'.fs :=
  h.map (f := World.fs) (·.files)

theorem World.run_stays (h : Run (World.Step lib) x w t r w') {distribution : Option String} {id : String}
    (hw : w.inactive distribution id) : w'.inactive distribution id :=
  h.lasting (P := fun w => w.inactive distribution id) (fun hs => hs.stays _ _) hw

theorem World.run_settles (h : Run (World.Step lib) x w t r w') {distribution : Option String} {id : String}
    {e : Event Answer} (he : e ∈ t) (hs : Settled lib distribution id e) : w'.inactive distribution id :=
  h.brought_about (P := fun w => w.inactive distribution id) (fun hs => hs.stays _ _) (fun hl => hl.settles _ _ hs) he

end

/-! ## Asking for a stop -/

section
variable {w u : World} {call : SysCall} {distribution : Option String} {id : String}

/-- a Podman command whose output is only interpreted -/
theorem command_reaches {ε α : Type} {arguments : List String} {f : CliError → ε} {g : Output → Except (Stop ε) α}
    (h : Reaches (World.Step lib) (mapErr f (podmanOutput distribution arguments) >>= fun output => liftM (g output))
      w call u) : call = .podman ⟨distribution, arguments⟩ ∧ u = w := by
  rcases reaches_bind.1 h with hasked | ⟨output, t, v, -, hrest⟩
  · rcases reaches_bind.1 (reaches_mapErr.1 hasked) with hcall | ⟨a, t, v, -, hrest⟩
    · exact reaches_call.1 hcall
    · cases a with
      | ok output => exact absurd hrest not_reaches_done
      | error error => exact absurd hrest not_reaches_done
  · exact absurd hrest not_reaches_done

/-- a service's stop is asked for after its status was -/
theorem stopService_reaches {containers : BTreeMap String} {service : String} {asked : Option String}
    (h : Reaches (World.Step lib) (stopService lib distribution containers service) w
      (.podman (stopCommand asked id)) u) :
    asked = distribution ∧ containers[service]? = some id ∧
      ∀ other, w.inactive distribution other → u.inactive distribution other := by
  unfold stopService at h
  cases hc : containers[service]? with
  | none =>
    rw [hc] at h
    exact absurd h not_reaches_done
  | some own =>
    rw [hc] at h
    rcases reaches_bind.1 h with hstatus | ⟨value, t, v, hrun, hrest⟩
    · obtain ⟨hcommand, -⟩ := command_reaches lib (reaches_mapErr.1 hstatus)
      simp [stopCommand] at hcommand
    · have hstop : Reaches (World.Step lib) (mapErr mapRuntimeError (PodmanRuntime.stop distribution own)) v
          (.podman (stopCommand asked id)) u := by
        cases value with
        | notFound | exited => exact absurd hrest not_reaches_done
        | running | paused => exact hrest
      obtain ⟨hcommand, rfl⟩ := command_reaches lib (reaches_mapErr.1 hstop)
      simp only [stopCommand, SysCall.podman.injEq, Command.mk.injEq, List.cons.injEq, true_and, and_true] at hcommand
      obtain ⟨rfl, rfl⟩ := hcommand
      exact ⟨rfl, rfl, fun other hw => World.run_stays lib hrun hw⟩

/-- when a teardown asks for a stop, the services before it in its order are out of the way -/
theorem stop_services_reach {containers : BTreeMap String} {order : List String} {asked : Option String}
    (h : Reaches (World.Step lib) (order.forM (stopService lib distribution containers)) w
      (.podman (stopCommand asked id)) u) :
    asked = distribution ∧ ∃ before name after, order = before ++ name :: after ∧ containers[name]? = some id ∧
      ∀ earlier ∈ before, ∀ other, containers[earlier]? = some other → u.inactive distribution other := by
  obtain ⟨before, name, after, t, v, ho, hrun, hname⟩ := h.forM
  obtain ⟨hasked, hid, hstays⟩ := stopService_reaches lib hname
  refine ⟨hasked, before, name, after, ho, hid, ?_⟩
  intro earlier hearlier other hother
  obtain ⟨e, he, hsettled⟩ := (stop_services_ok lib (World.run_fs lib hrun)).2.2 earlier hearlier other hother
  exact hstays other (World.run_settles lib hrun he hsettled)

/-- a teardown asks for stops after it has loaded a run that is not down, and in the order of that run -/
theorem down_reaches {stateDir : PathBuf} {runId : String} {asked : Option String}
    (h : Reaches (World.Step lib) (down lib stateDir runId) w (.podman (stopCommand asked id)) u) :
    ∃ state order t v, Run (World.Step lib) (loadState lib stateDir runId) w t (.ok state) v ∧
      state.lifecycle ≠ .down ∧ teardownOrder state.manifest = .ok order ∧
      Reaches (World.Step lib)
        (order.forM (stopService lib state.manifest.runtime.wslDistribution state.containers)) v
        (.podman (stopCommand asked id)) u := by
  rcases reaches_bind.1 h with hload | ⟨state, t, v, hload, h₁⟩
  · exact ((loadState_only lib stateDir runId).reaches hload (.error otherError)).elim
  · rcases reaches_bind.1 h₁ with hlift | ⟨⟨⟩, t₁, v₁, hprovider, h₂⟩
    · exact absurd hlift not_reaches_done
    · obtain ⟨-, -, rfl⟩ := run_lift.1 hprovider
      split_ifs at h₂ with hdown
      · exact absurd h₂ not_reaches_done
      · rcases reaches_bind.1 h₂ with hlift | ⟨order, t₂, v₂, ho, h₃⟩
        · exact absurd hlift not_reaches_done
        · obtain ⟨-, horder, rfl⟩ := run_lift.1 ho
          refine ⟨state, order, t, v₂, hload, hdown, horder.symm, ?_⟩
          rcases reaches_bind.1 h₃ with hstop | ⟨⟨⟩, t₃, v₃, -, h₄⟩
          · exact hstop
          · rcases reaches_bind.1 h₄ with hsave | ⟨⟨⟩, t₄, v₄, -, h₅⟩
            · exact ((saveState_only stateDir state.down).reaches hsave (.error otherError)).elim
            · exact absurd h₅ not_reaches_done

end

/-! ## Retries -/

/-- the container recorded for a service is out of the way -/
def RunState.Inactive (state : RunState) (w : World) (service : String) : Prop :=
  ∃ id, state.containers[service]? = some id ∧ w.inactive state.manifest.runtime.wslDistribution id

section
variable {stateDir : PathBuf} {w w' u : World}

/-- the file of the run holds this state -/
def Holds (stateDir : PathBuf) (state : RunState) (w : World) : Prop :=
  w.fs.files (statePath stateDir state.runId).components = some (.json (RunState.codec.encode state))

/-- a `down` that fails leaves the file of the run alone; one that succeeds had a run that was not down, and writes that
it is -/
theorem down_moves {state : RunState} {t : Trace} {r : Except (Stop CliError) StatusOutput}
    (hfile : Holds stateDir state w) (h : Run (World.Step lib) (down lib stateDir state.runId) w t r w') :
    (Holds stateDir state w' ∧ ∃ e, r = .error e) ∨
      Holds stateDir state.down w' ∧ state.lifecycle ≠ .down ∧ ∃ output, r = .ok output := by
  rcases run_down lib (World.run_fs lib h) with ⟨hfs, he⟩ | ⟨state', t₁, t₂, r₀, hload, hrunning, hsave, rfl⟩
  · exact .inl ⟨by rwa [Holds, hfs], he⟩
  · obtain rfl := loaded_eq lib state hfile hload
    obtain ⟨hslug, -⟩ := (run_loadState lib).1 hload
    obtain ⟨hw, hne⟩ := slug_word hslug
    have hpath := statePath_components stateDir hw
    rcases saveState_spec state'.down hw hne hsave with ⟨rfl, hsaved, -⟩ | ⟨error, rfl, hkept⟩
    · exact .inr ⟨(congrArg w'.fs.files hpath).trans hsaved, hrunning, _, rfl⟩
    · refine .inl ⟨?_, _, rfl⟩
      rw [Holds, hpath, hkept _ (stateTemporary_ne stateDir state'.runId).symm, ← hpath]
      exact hfile

/-- the state of a valid run with no order of its own and a container for each service -/
structure Retriable (state : RunState) : Prop where
  valid : Valid state.manifest
  unordered : state.manifest.teardown.order = []
  covered : ∀ name, name ∈ state.containers ↔ name ∈ state.manifest.services

/-- a `down` that succeeds leaves every container out of the way -/
theorem down_settles {state : RunState} (hs : Retriable state) {t : Trace} {output : StatusOutput}
    (hfile : Holds stateDir state w)
    (h : Run (World.Step lib) (down lib stateDir state.runId) w t (.ok output) w') :
    ∀ service ∈ state.containers, state.Inactive w' service := by
  intro service hservice
  obtain ⟨state', order, t₁, v, t₂, t₃, hload, -, -, ho, hstop, -, rfl, -⟩ := (run_down_ok lib).1 (World.run_fs lib h)
  obtain rfl := loaded_eq lib state hfile hload
  obtain ⟨order', ho', horder⟩ := hs.valid.teardownOrder_eq
  obtain rfl : order = order' := Except.ok.inj (ho.symm.trans ho')
  have hin : service ∈ order := by
    rw [horder, drained, if_pos hs.unordered]
    exact Std.ExtTreeMap.mem_keys.2 ((hs.covered service).1 hservice)
  obtain ⟨id, hid⟩ := exists_of_mem hservice
  obtain ⟨e, he, hsettled⟩ := (stop_services_ok lib hstop).2.2 service hin id hid
  exact ⟨id, hid, World.run_settles lib h (List.mem_append_right t₁ (List.mem_append_left t₃ he)) hsettled⟩

/-- a stop is asked for a service whose dependents are out of the way -/
theorem stop_in_order {state : RunState} (hs : Retriable state) {asked : Option String} {id : String}
    (hfile : Holds stateDir state w)
    (h : Reaches (World.Step lib) (down lib stateDir state.runId) w (.podman (stopCommand asked id)) u) :
    state.lifecycle ≠ .down ∧ asked = state.manifest.runtime.wslDistribution ∧
      ∃ service, state.containers[service]? = some id ∧
        ∀ dependent, TransGen (DependsOn state.manifest.services) dependent service → state.Inactive u dependent := by
  obtain ⟨state', order, t, v, hload, hrunning, ho, hreach⟩ := down_reaches lib h
  obtain rfl := loaded_eq lib state hfile (World.run_fs lib hload)
  obtain ⟨hasked, before, service, after, hsplit, hid, hbefore⟩ := stop_services_reach lib hreach
  refine ⟨hrunning, hasked, service, hid, ?_⟩
  intro dependent hdep
  rw [teardownOrder, if_pos hs.unordered] at ho
  obtain ⟨found, hfound, ho⟩ := bind_eq_ok.1 ho
  obtain rfl := Except.ok.inj ho
  obtain ⟨hperm, hfirst⟩ := serviceOrder_ok hs.valid.closed hfound
  have hnodup := serviceOrder_nodup hs.valid.closed hfound
  -- a dependent is itself a service, so it has a place in the order and a container
  have hknown : dependent ∈ state'.manifest.services := by
    obtain ⟨b, ⟨known, hknown, -⟩, -⟩ := TransGen.head'_iff.1 hdep
    exact mem_of_getElem? hknown
  have hfront : dependent ∈ before := by
    have hlater := (hfirst.before_of_trans hnodup (hperm.mem_iff.2 (Std.ExtTreeMap.mem_keys.2 hknown)) hdep).reverse
    have hreversed := List.nodup_reverse.2 hnodup
    rw [hsplit] at hlater hreversed
    exact hlater.mem_front hreversed
  obtain ⟨other, hother⟩ := exists_of_mem ((hs.covered dependent).2 hknown)
  exact ⟨other, hother, hbefore dependent hfront other hother⟩

end

/-- the file of the run holds the state it had, or says that the run is down, and then every container is out of the way -/
def RecordedOrOver (stateDir : PathBuf) (state : RunState) (w : World) : Prop :=
  Holds stateDir state w ∨ Holds stateDir state.down w ∧ ∀ service ∈ state.containers, state.Inactive w service

theorem down_keeps_record {stateDir : PathBuf} {state : RunState} (hs : Retriable state) {w w' : World}
    {l : Trace × Except (Stop CliError) StatusOutput} (hw : RecordedOrOver stateDir state w)
    (h : DownCall lib stateDir state.runId w l w') : RecordedOrOver stateDir state w' := by
  rcases hw with hfile | ⟨hfile, hover⟩
  · rcases down_moves lib hfile h with ⟨hkept, -⟩ | ⟨hdown, -, output, hr⟩
    · exact .inl hkept
    · refine .inr ⟨hdown, ?_⟩
      rw [DownCall, hr] at h
      exact down_settles lib hs hfile h
  · -- a run that is down refuses every further `down`
    rcases down_moves lib hfile h with ⟨hkept, -⟩ | ⟨-, hrunning, -⟩
    · refine .inr ⟨hkept, fun service hservice => ?_⟩
      obtain ⟨id, hid, hinactive⟩ := hover service hservice
      exact ⟨id, hid, World.run_stays lib h hinactive⟩
    · exact absurd rfl hrunning

/-- **An interrupted teardown is safe and can be taken up again.** After any number of `down` calls, each of which may
have failed anywhere: a stop is asked for only for a service whose transitive dependents are all out of the way; a `down`
that fails leaves the file of the run alone; and the file says `down` only when every container is out of the way. -/
theorem interrupted_teardown_safe (stateDir : PathBuf) (state : RunState)
    (hvalid : state.manifest.validate lib = .ok ()) (hunordered : state.manifest.teardown.order = [])
    (hcovered : ∀ name, name ∈ state.containers ↔ name ∈ state.manifest.services) {w w' : World}
    {calls : List (Trace × Except (Stop CliError) StatusOutput)} (hfile : Holds stateDir state w)
    (h : Runs (DownCall lib stateDir state.runId) w calls w') :
    (∀ asked id u,
      Reaches (World.Step lib) (down lib stateDir state.runId) w' (.podman (stopCommand asked id)) u →
        asked = state.manifest.runtime.wslDistribution ∧ ∃ service, state.containers[service]? = some id ∧
          ∀ dependent, TransGen (DependsOn state.manifest.services) dependent service → state.Inactive u dependent) ∧
    (∀ t e w'', DownCall lib stateDir state.runId w' (t, .error e) w'' →
      w''.fs.files (statePath stateDir state.runId).components =
        w'.fs.files (statePath stateDir state.runId).components) ∧
    RecordedOrOver stateDir state w' := by
  have hs : Retriable state := ⟨(validate_ok_iff lib).1 hvalid, hunordered, hcovered⟩
  have hrecord : RecordedOrOver stateDir state w' :=
    h.invariant (fun _ _ _ hw hcall => down_keeps_record lib hs hw hcall) (.inl hfile)
  refine ⟨?_, ?_, hrecord⟩
  · intro asked id u hreach
    rcases hrecord with hfile' | ⟨hover, -⟩
    · exact (stop_in_order lib hs hfile' hreach).2
    · have hdown : Retriable state.down := ⟨hs.valid, hs.unordered, hs.covered⟩
      exact absurd rfl (stop_in_order lib hdown hover hreach).1
  · intro t e w'' hcall
    have hsame : ∀ current : RunState, current.runId = state.runId → Holds stateDir current w' →
        w''.fs.files (statePath stateDir state.runId).components =
          w'.fs.files (statePath stateDir state.runId).components := by
      intro current hid hcurrent
      rw [DownCall, ← hid] at hcall
      rcases down_moves lib hcurrent hcall with ⟨hkept, -⟩ | ⟨-, -, output, hr⟩
      · rw [← hid]
        exact hkept.trans hcurrent.symm
      · cases hr
    rcases hrecord with hfile' | ⟨hover, -⟩
    · exact hsame state rfl hfile'
    · exact hsame state.down rfl hover

/-- Podman finds both containers running, stops `c1`, and cannot stop `c2` -/
def failingStop : Script :=
  { cleanEvaluation with
    podman := fun command =>
      if command = stopCommand none "c2" then .error otherError else .ok ⟨true, bytes "running", []⟩ }

/-- answer from the script; only what the answers say is out of the way is -/
def World.perform (script : Script) (w : World) (call : SysCall) : Answer call × World :=
  ((PhenoCompose.perform script w.fs call).1,
    { fs := (PhenoCompose.perform script w.fs call).2
      inactive := fun distribution id => w.inactive distribution id ∨
        Settled lib distribution id ⟨call, (PhenoCompose.perform script w.fs call).1⟩ })

theorem World.perform_step (script : Script) (w : World) (call : SysCall) :
    World.Step lib (id w) call (World.perform lib script w call).1 (id (World.perform lib script w call).2) where
  files := PhenoCompose.perform_step script w.fs call
  stays _ _ := .inl
  settles _ _ := .inr

/-- a teardown of two running containers whose second stop failed -/
def interrupted : Trace × Except (Stop CliError) StatusOutput × World :=
  exec (World.perform .standard failingStop) (down .standard (.ofStr "runs") "demo-000000000000")
    ⟨runFiles demo, fun _ _ => False⟩

theorem interrupted_teardown_example :
    ∃ e, interrupted.2.1 = .error e ∧ RecordedOrOver (.ofStr "runs") (twoContainers demo) interrupted.2.2 := by
  have hfailed : interrupted.2.1.isOk = false := by decide +kernel
  have hrun : DownCall .standard (.ofStr "runs") (twoContainers demo).runId ⟨runFiles demo, fun _ _ => False⟩
      (interrupted.1, interrupted.2.1) interrupted.2.2 :=
    run_exec (f := id) (World.perform_step .standard failingStop) _ _
  have hcovered : ∀ name, name ∈ (twoContainers demo).containers ↔ name ∈ (twoContainers demo).manifest.services := by
    intro name
    rw [← Std.ExtTreeMap.mem_keys, ← Std.ExtTreeMap.mem_keys]
    rfl
  have hfile : Holds (.ofStr "runs") (twoContainers demo) ⟨runFiles demo, fun _ _ => False⟩ :=
    FileSystem.put_files_same _ _ _
  have hsafe := interrupted_teardown_safe .standard (.ofStr "runs") (twoContainers demo) demo_valid rfl hcovered
    hfile (runs_one.2 hrun)
  cases hr : interrupted.2.1 with
  | ok output =>
    rw [hr] at hfailed
    cases hfailed
  | error e => exact ⟨e, rfl, hsafe.2.2⟩

end PhenoCompose
