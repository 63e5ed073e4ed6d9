/-
Every container that NanoVMS has told of, over any sequence of command lines on one state directory.

A `Past` is a command line with the calls it made, from the first to the last. `Books` is what one of them adds to the
books: what it was told of is asked to stop or on file, and where it took a run down it has seen to its containers.

- `execute_books`: every command keeps the books, whatever the environment answers, if no existence check misses what is
  there.
- `Balanced.snoc`: hence one command more leaves them balanced.
- `containers_accounted`: over any history, a container is asked to stop by the apply that was told of it, or it is on
  file; and where its run is down, a `down` of that run has found it gone or stopped it, unless its service is left out
  of the teardown.
-/
import PhenoCompose.CommandRace

namespace PhenoCompose

open Core.Collections Core.Json Core.Path Core.Process Core.Text Core.Transition

variable (lib : Externals) (yaml : YamlReader) (stateDir : PathBuf)

/-! ## Histories -/

/-- a command line that was carried out: its calls, and how it ended -/
structure Past where
  command : Cli.Commands
  trace : Trace
  outcome : Except (Stop CliError) Cli.Executed

/-- carrying it out, with no existence check that misses what is there -/
def Does (fs : FileSystem) (past : Past) (fs' : FileSystem) : Prop :=
  Run SeenStep (Cli.execute lib yaml stateDir past.command) fs past.trace past.outcome fs'

/-- what an export writes to is not in the state directory -/
def Elsewhere : Cli.Commands → Prop
  | .exportProvenance _ (some path) => ¬stateDir.components <+: path.components
  | _ => True

/-- the clock could be read -/
def Timed (t : Trace) : Prop := ∀ message, ⟨.clock, .error message⟩ ∉ t

/-- in these calls every container recorded for a service of the teardown was found gone or exited, or stopped -/
def RunState.Drained (state : RunState) (t : Trace) : Prop :=
  ∀ name ∈ drained state.manifest, ∀ id, state.containers[name]? = some id →
    ∃ e ∈ t, Settled lib state.manifest.runtime.wslDistribution id e

/-- all containers that were told of are asked to stop, or are on file under their run -/
def Entered (t : Trace) (fs : FileSystem) : Prop :=
  ∀ request answer, ⟨.lifecycle request, answer⟩ ∈ t → Timed t →
    (∀ id ∈ values (returnedContainers answer), id ∈ stopRequests t) ∨
      ∃ state, StateFile stateDir fs request.runId state ∧ state.containers = returnedContainers answer

/-- the store is sound, and its manifests are valid ones -/
structure WellKept (fs : FileSystem) : Prop where
  sound : Sound lib stateDir fs
  valid : ∀ r state, StateFile stateDir fs r state → Valid state.manifest

/-- what a command adds to the books -/
structure Books (fs : FileSystem) (past : Past) (fs' : FileSystem) : Prop where
  kept : WellKept lib stateDir fs'
  evolves : Evolves stateDir fs fs'
  entered : Entered stateDir past.trace fs'
  ended : ∀ r state, StateFile stateDir fs' r state → state.lifecycle = .down →
    StateFile stateDir fs r state ∨ past.command = .down r ∧ state.Drained lib past.trace

/-! ## One command -/

/-- no container was told of -/
def Untold (t : Trace) : Prop := ∀ request answer, ⟨.lifecycle request, answer⟩ ∉ t

section
variable {lib yaml stateDir} {fs fs' : FileSystem} {t t₁ t₂ : Trace} {command : Cli.Commands}
  {r : Except (Stop CliError) Cli.Executed}

theorem untold_append : Untold (t₁ ++ t₂) ↔ Untold t₁ ∧ Untold t₂ := by
  simp only [Untold, List.mem_append, not_or, forall_and]

theorem untold_of_mem {P : Event Answer → Prop} (h : ∀ e ∈ t, P e)
    (hP : ∀ request answer, ¬P ⟨.lifecycle request, answer⟩) : Untold t :=
  fun request answer hm => hP request answer (h _ hm)

theorem untold_of_looking (h : ∀ e ∈ t, Event.looking e) : Untold t := untold_of_mem h fun _ _ => id

theorem untold_of_storing (h : ∀ e ∈ t, Event.storing e) : Untold t := untold_of_mem h fun _ _ => id

/-- a command that leaves the states as they are, and is told of nothing -/
theorem books_of_states (hk : WellKept lib stateDir fs) (hsound : Sound lib stateDir fs')
    (hevolves : Evolves stateDir fs fs')
    (hstates : ∀ r, fs'.files (stateLocation stateDir r) = fs.files (stateLocation stateDir r)) (ht : Untold t) :
    Books lib stateDir fs ⟨command, t, r⟩ fs' where
  kept := ⟨hsound, fun r state hs => hk.valid r state ((hstates r).symm.trans hs)⟩
  evolves := hevolves
  entered request answer hm _ := absurd hm (ht request answer)
  ended r _ hs _ := .inl ((hstates r).symm.trans hs)

theorem books_of_same (hk : WellKept lib stateDir fs) (hsame : SameStore stateDir fs fs') (ht : Untold t) :
    Books lib stateDir fs ⟨command, t, r⟩ fs' :=
  books_of_states hk (hsame.sound hk.sound) hsame.evolves hsame.runs ht

/-- a program whose outcome is only looked at -/
theorem run_attempted {α β : Type} {x : Proc CliError α} {f : Except CliError α → Proc CliError β}
    {out : Except (Stop CliError) β} (hf : ∀ a, ∃ b, f a = pure b)
    (h : Run SeenStep (attempt x >>= f) fs t out fs') : ∃ r₀, Run SeenStep x fs t r₀ fs' := by
  rcases run_bind.1 h with ⟨a, t₁, u, t₂, h₁, h₂, rfl⟩ | ⟨e, he, rfl⟩
  · obtain ⟨r₀, h₀, -⟩ := run_attempt.1 h₁
    obtain ⟨b, hb⟩ := hf a
    rw [hb] at h₂
    obtain ⟨rfl, -, rfl⟩ := run_pure.1 h₂
    rw [List.append_nil]
    exact ⟨r₀, h₀⟩
  · obtain ⟨r₀, h₀, -⟩ := run_attempt.1 he
    exact ⟨r₀, h₀⟩

theorem run_printJson {α : Type} {document : α → Document} {x : Proc CliError α}
    (h : Run SeenStep (Cli.printJson document x) fs t r fs') : ∃ r₀, Run SeenStep x fs t r₀ fs' := by
  refine run_attempted (fun a => ?_) h
  cases a with
  | ok value => exact ⟨_, rfl⟩
  | error error => exact ⟨_, rfl⟩

theorem loadManifest_only (path : PathBuf) : Only Event.looking (loadManifest lib yaml path) := by
  apply (Only.call fun _ => trivial).bind
  intro read
  exact (ioResult_only _ _).bind fun _ => Only.lift _

/-- a command that begins with its manifest, which is a valid one when it goes on -/
theorem run_manifest {β : Type} {path : PathBuf} {f : CompositionManifest → Proc CliError β}
    {out : Except (Stop CliError) β} (h : Run SeenStep (loadManifest lib yaml path >>= f) fs t out fs') :
    ∃ t₁ t₂, t = t₁ ++ t₂ ∧ (∀ e ∈ t₁, Event.looking e) ∧
      (fs' = fs ∧ t₂ = [] ∨ ∃ manifest, manifest.validate lib = .ok () ∧ Run SeenStep (f manifest) fs t₂ out fs') := by
  have honly : Only Event.looking (loadManifest lib yaml path) := loadManifest_only path
  rcases run_bind.1 h with ⟨manifest, t₁, u, t₂, hload, hrest, rfl⟩ | ⟨e, he, -⟩
  · obtain rfl : u = fs := honly.keeps Event.looking.keeps (seen_run hload)
    obtain ⟨read, v, t', hread, h₁, -⟩ := run_sys_bind.1 (seen_run hload)
    obtain ⟨input, -, h₂⟩ := run_io_bind_ok.1 h₁
    have hvalid := (validate_ok_iff lib).2 (parse_ok lib yaml (run_lift.1 h₂).2.1.symm)
    exact ⟨t₁, t₂, rfl, honly.mem hload, .inr ⟨manifest, hvalid, hrest⟩⟩
  · exact ⟨t, [], (List.append_nil t).symm, honly.mem he, .inl ⟨honly.keeps Event.looking.keeps (seen_run he), rfl⟩⟩

/-! ## Actions -/

/-- recording a job leaves the states as they are -/
theorem recorded_states {runId actionName jobId : String} {state : RunState} {service : Service}
    {job saved : JobProvenance} {out out' : Except (Stop CliError) JobProvenance}
    (hchecked : Run Step (prepareAction lib stateDir runId actionName jobId) fs t₁ (.ok (state, service, job)) fs)
    (hsaves : Saves stateDir saved out fs t₂ out' fs') (hrun : saved.runId = job.runId)
    (hjob : saved.jobId = job.jobId) :
    (∀ r, fs'.files (stateLocation stateDir r) = fs.files (stateLocation stateDir r)) ∧ Untold (t₁ ++ t₂) := by
  obtain ⟨hr, hj, -, -, hcheck, -⟩ := prepareAction_ok lib hchecked
  obtain ⟨action, closure, bindings, -, rfl⟩ := (checkAction_ok lib hcheck).initial
  obtain rfl : saved.runId = runId := hrun
  obtain rfl : saved.jobId = jobId := hjob
  obtain ⟨hrw, -⟩ := slug_word hr
  obtain ⟨hjw, hne⟩ := slug_word hj
  obtain ⟨r₀, hsave, -⟩ := hsaves
  refine ⟨fun r => ?_, untold_append.2 ⟨untold_of_looking ((prepareAction_only lib _ _ _ _).mem hchecked),
    untold_of_storing ((save_job_only _ _).mem hsave)⟩⟩
  rcases save_job_puts hrw hjw hne hsave with hputs | hkeeps
  · exact hputs.job_state r
  · exact hkeeps.state r

/-- an action leaves the states as they are, and is told of no container -/
theorem action_states {workspaceBase : PathBuf} {runId actionName jobId : String}
    {out : Except (Stop CliError) JobProvenance}
    (h : ActionRun lib workspaceBase stateDir runId actionName jobId fs t out fs') :
    (∀ r, fs'.files (stateLocation stateDir r) = fs.files (stateLocation stateDir r)) ∧ Untold t := by
  cases h with
  | refused checked => exact ⟨fun _ => rfl, untold_of_looking ((prepareAction_only lib _ _ _ _).mem checked)⟩
  | unbuilt checked built saves =>
    obtain ⟨hstates, ht⟩ := recorded_states checked saves rfl rfl
    rw [untold_append] at ht
    have hbuilt := untold_of_looking ((build_only _ _ _ _ _).mem built)
    exact ⟨hstates, untold_append.2 ⟨ht.1, untold_append.2 ⟨hbuilt, ht.2⟩⟩⟩
  | asked checked built recorded saves =>
    obtain ⟨hrun, hjob, -⟩ := recorded.runId
    obtain ⟨hstates, ht⟩ := recorded_states checked saves hrun hjob
    rw [untold_append] at ht
    have hbuilt := untold_of_looking ((build_only _ _ _ _ _).mem built)
    refine ⟨hstates, untold_append.2 ⟨ht.1, untold_append.2 ⟨hbuilt, fun request answer hm => ?_⟩⟩⟩
    rcases List.mem_cons.1 hm with hm | hm
    · cases hm
    · exact ht.2 request answer hm

/-- the command is the action, and then at most a look at its job -/
theorem executeRunAction_parts {runId action jobId : String} {out : Except (Stop CliError) Ended}
    (h : Run SeenStep (executeRunAction lib stateDir runId action jobId) fs t out fs') :
    ∃ acted t₁ t₂, t = t₁ ++ t₂ ∧ Run SeenStep (runActionWithClient lib stateDir runId action jobId) fs t₁ acted fs' ∧
      ∀ e ∈ t₂, Event.looking e := by
  have hload : Only Event.looking (attempt (loadJobProvenance lib stateDir runId jobId) :
      Proc CliError (Except CliError JobProvenance)) := (loadJobProvenance_only lib).attempt
  rcases run_bind.1 h with ⟨acted, t₁, u, t₂, h₁, h₂, rfl⟩ | ⟨e, he, -⟩
  · obtain ⟨r₀, hact, -⟩ := run_attempt.1 h₁
    cases acted with
    | ok provenance =>
      obtain ⟨rfl, -, rfl⟩ := run_pure.1 h₂
      exact ⟨r₀, t₁, [], rfl, hact, List.forall_mem_nil _⟩
    | error error =>
      rcases run_bind.1 h₂ with ⟨loaded, t₃, v, t₄, h₃, h₄, rfl⟩ | ⟨e, h₃, -⟩
      · obtain rfl : v = u := hload.keeps Event.looking.keeps (seen_run h₃)
        have hlooks := hload.mem h₃
        cases loaded with
        | ok provenance =>
          obtain ⟨rfl, -, rfl⟩ := run_pure.1 h₄
          exact ⟨r₀, t₁, t₃ ++ [], rfl, hact, by rwa [List.append_nil]⟩
        | error _ =>
          obtain ⟨rfl, -, rfl⟩ := run_pure.1 h₄
          exact ⟨r₀, t₁, t₃ ++ [], rfl, hact, by rwa [List.append_nil]⟩
      · obtain rfl : fs' = u := hload.keeps Event.looking.keeps (seen_run h₃)
        exact ⟨r₀, t₁, t₂, rfl, hact, hload.mem h₃⟩
  · obtain ⟨r₀, hact, -⟩ := run_attempt.1 he
    exact ⟨r₀, t, [], (List.append_nil t).symm, hact, List.forall_mem_nil _⟩

theorem action_books (hk : WellKept lib stateDir fs) {runId action jobId : String}
    (h : Run SeenStep (Cli.execute lib yaml stateDir (.runAction runId action jobId)) fs t r fs') :
    Books lib stateDir fs ⟨.runAction runId action jobId, t, r⟩ fs' := by
  have hended : ∃ out, Run SeenStep (executeRunAction lib stateDir runId action jobId) fs t out fs' := by
    rcases run_bind.1 h with ⟨ended, t₁, u, t₂, h₁, h₂, rfl⟩ | ⟨e, he, -⟩
    · obtain ⟨rfl, -, rfl⟩ := run_pure.1 h₂
      exact ⟨_, by rwa [List.append_nil]⟩
    · exact ⟨_, he⟩
  obtain ⟨out, hended⟩ := hended
  obtain ⟨acted, t₁, t₂, rfl, hact, hlooks⟩ := executeRunAction_parts hended
  obtain ⟨directory, u, t₃, hu, h₁, rfl⟩ := run_call_next.1 hact
  obtain rfl : u = fs := hu.step
  have hcall : Untold [(⟨.currentDir, directory⟩ : Event Answer)] := by simp [Untold]
  cases directory with
  | ok workspaceBase =>
    have h₂ : Run SeenStep (runActionWithClientAt lib workspaceBase stateDir runId action jobId) u t₃ acted fs' := h₁
    obtain ⟨hstates, ht⟩ := action_states (runAction_run lib (seen_run h₂))
    have heffect := action_effect hk.sound h₂
    refine books_of_states hk (heffect.sound hk.sound) heffect.evolves hstates ?_
    exact untold_append.2 ⟨untold_append.2 ⟨hcall, ht⟩, untold_of_looking hlooks⟩
  | error e =>
    obtain ⟨rfl, -, rfl⟩ := run_done.1 h₁
    exact books_of_same hk (same_store_of_files rfl) (untold_append.2 ⟨hcall, untold_of_looking hlooks⟩)

/-! ## Teardowns -/

theorem down_untold {runId : String} {out : Except (Stop CliError) StatusOutput}
    (h : Run Step (down lib stateDir runId) fs t out fs') : Untold t := by
  have honly : Only (fun e => Event.looking e ∨ Event.commanding e ∨ Event.storing e) (down lib stateDir runId) :=
    down_only lib (fun _ _ => .inl trivial) (fun _ h => .inr (.inl h)) (fun _ h => .inr (.inr h)) _ _
  exact untold_of_mem (honly.mem h) fun _ _ => by simp [Event.looking, Event.commanding, Event.storing]

/-- the states are as they were, but for one that has gone down with every container of it seen to -/
theorem down_states (hk : WellKept lib stateDir fs) {runId : String} {out : Except (Stop CliError) StatusOutput}
    (h : Run Step (down lib stateDir runId) fs t out fs') {r : String} {state : RunState}
    (hstate : StateFile stateDir fs' r state) :
    StateFile stateDir fs r state ∨
      r = runId ∧ state.Drained lib t ∧ ∃ old, StateFile stateDir fs r old ∧ state = old.down := by
  cases out with
  | error e =>
    rcases run_down lib h with ⟨rfl, -⟩ | ⟨old, t₁, t₂, r₀, hload, -, hsave, hr₀⟩
    · exact .inl hstate
    · obtain ⟨hslug, -, contents, hc, hdecode, -⟩ := (run_loadState lib).1 hload
      obtain ⟨hw, hne⟩ := slug_word hslug
      rw [statePath_components stateDir hw] at hc
      obtain rfl := (hk.sound.attests (hk.sound.loaded hc hdecode)).runId
      rcases saveState_puts old.down hw hne hsave with ⟨rfl, -⟩ | ⟨error, -, hkeeps⟩
      · cases hr₀
      · exact .inl ((hkeeps.state r).symm.trans hstate)
  | ok output =>
    obtain ⟨old, order, t₁, u, t₂, t₃, hload, -, -, horder, hstop, hsave, rfl, -⟩ := (run_down_ok lib).1 h
    obtain ⟨hslug, -, contents, hc, hdecode, -⟩ := (run_loadState lib).1 hload
    obtain ⟨hw, hne⟩ := slug_word hslug
    rw [statePath_components stateDir hw] at hc
    have hfile := hk.sound.loaded hc hdecode
    obtain rfl := (hk.sound.attests hfile).runId
    obtain ⟨rfl, -, hsettled⟩ := stop_services_ok lib hstop
    rcases saveState_puts old.down hw hne hsave with ⟨-, hputs⟩ | ⟨error, he, -⟩
    · by_cases hr : r = old.runId
      · subst hr
        have hdown : StateFile stateDir fs' old.runId old.down := hputs.1
        obtain rfl := hdown.unique hstate
        obtain ⟨order', horder', hmem⟩ := (hk.valid _ _ hfile).teardownOrder_eq
        obtain rfl := Except.ok.inj (horder.symm.trans horder')
        refine .inr ⟨rfl, fun name hname id hid => ?_, old, hfile, rfl⟩
        obtain ⟨e, he, hs⟩ := hsettled name ((hmem name).2 hname) id hid
        exact ⟨e, List.mem_append_right t₁ (List.mem_append_left t₃ he), hs⟩
      · exact .inl ((hputs.state_ne hr).symm.trans hstate)
    · cases he

theorem down_books (hk : WellKept lib stateDir fs) {runId : String}
    (h : Run SeenStep (Cli.execute lib yaml stateDir (.down runId)) fs t r fs') :
    Books lib stateDir fs ⟨.down runId, t, r⟩ fs' := by
  obtain ⟨out, hseen⟩ := run_printJson h
  have hdown := seen_run hseen
  have heffect := down_effect hk.sound hdown
  refine ⟨⟨heffect.sound hk.sound, fun r state hstate => ?_⟩, heffect.evolves,
    fun request answer hm _ => absurd hm (down_untold hdown request answer), fun r state hstate _ => ?_⟩
  · rcases down_states hk hdown hstate with hsame | ⟨-, -, old, hfile, rfl⟩
    · exact hk.valid r state hsame
    · exact hk.valid r old hfile
  · rcases down_states hk hdown hstate with hsame | ⟨rfl, hdrained, -⟩
    · exact .inl hsame
    · exact .inr ⟨rfl, hdrained⟩

/-! ## Applies -/

theorem mem_stopRequests_append {id : String} :
    id ∈ stopRequests (t₁ ++ t₂) ↔ id ∈ stopRequests t₁ ∨ id ∈ stopRequests t₂ := by
  rw [stopRequests, List.filterMap_append, List.mem_append]
  rfl

/-- the containers that the client told of are asked to stop, or recorded -/
theorem finish_entered {distribution : Option String} {request : ServiceLifecycleRequest}
    {answer : Except ServiceLifecycleFailure ServiceLifecycleResult} {before after : Option Contents}
    {out : Except (Stop CliError) ApplyOutput} (h : Finish lib distribution request answer before after t out)
    (htimed : Timed t) :
    (∀ id ∈ values (returnedContainers answer), id ∈ stopRequests t) ∨
      ∃ state, after = some (.json (RunState.codec.encode state)) ∧ state.containers = returnedContainers answer := by
  cases h with
  | rolledBack quiet stops kept =>
    refine .inl fun id hid => mem_stopRequests_append.2 (.inr ?_)
    rw [stops.requests]
    exact List.mem_reverse.2 hid
  | clockLost => exact absurd (List.mem_singleton_self _) (htimed _)
  | recorded quiet written ofRun named running given told => exact .inr ⟨_, written, given⟩

/-- what follows the lifecycle call puts a running state of this manifest on file, or leaves the states as they are -/
theorem finish_states {manifest : CompositionManifest} {run : String} {lifecycle : LifecyclePlan}
    (hp : Planned lib manifest run lifecycle) {answer : Except ServiceLifecycleFailure ServiceLifecycleResult}
    {out : Except (Stop CliError) ApplyOutput}
    (h : Run Step (finishApply lib manifest stateDir lifecycle hp.request answer) fs t out fs') {r : String}
    {state : RunState} (hstate : StateFile stateDir fs' r state) :
    StateFile stateDir fs r state ∨ state.lifecycle = .running ∧ state.manifest = manifest := by
  rcases finishApply_puts hp.word hp.ne_empty h with hkeeps | ⟨containers, seconds, hputs⟩
  · exact .inl ((hkeeps.state r).symm.trans hstate)
  · by_cases hr : r = hp.request.runId
    · subst hr
      have hnew : StateFile stateDir fs' hp.request.runId (runState manifest hp.request containers seconds) := hputs.1
      obtain rfl := hnew.unique hstate
      exact .inr ⟨rfl, rfl⟩
    · exact .inl ((hputs.state_ne hr).symm.trans hstate)

theorem apply_books (hk : WellKept lib stateDir fs) {path : PathBuf} {dryRun : Bool}
    (h : Run SeenStep (Cli.execute lib yaml stateDir (.apply path dryRun)) fs t r fs') :
    Books lib stateDir fs ⟨.apply path dryRun, t, r⟩ fs' := by
  obtain ⟨out, hprinted⟩ := run_printJson h
  obtain ⟨t₁, t₂, rfl, hlooks, hrest⟩ := run_manifest hprinted
  have huntold := untold_of_looking hlooks
  rcases hrest with ⟨rfl, rfl⟩ | ⟨manifest, hvalid, happly⟩
  · exact books_of_same hk (same_store_of_files rfl) (untold_append.2 ⟨huntold, fun _ _ => List.not_mem_nil⟩)
  · obtain ⟨run, lifecycle, hp⟩ := ((validate_ok_iff lib).1 hvalid).planned lib
    have heffect := apply_effect hvalid happly
    cases dryRun with
    | true =>
      have honly : Only (fun _ => False) (applyWithLifecycleClient lib manifest stateDir true) :=
        (Only.lift _).bind fun _ => (Only.lift _).bind fun _ => (Only.lift _).bind fun _ => Only.pure _
      obtain rfl : fs' = fs := honly.keeps (fun hf _ => hf.elim) (seen_run happly)
      exact books_of_same hk (same_store_of_files rfl)
        (untold_append.2 ⟨huntold, untold_of_mem (honly.mem happly) fun _ _ => id⟩)
    | false =>
      rcases hp.run_apply_parts (seen_run happly) with ⟨-, rfl, ht⟩ | ⟨t₃, answer, t₄, rfl, ht₃, -, -, hfinish⟩
      · exact books_of_same hk (same_store_of_files rfl)
          (untold_append.2 ⟨huntold, untold_of_mem ht fun _ _ => id⟩)
      · have hf := finish_run lib hp.word hp.ne_empty hfinish
        refine ⟨⟨heffect.sound hk.sound, fun r state hstate => ?_⟩, heffect.evolves, ?_, fun r state hstate hdown => ?_⟩
        · rcases finish_states hp hfinish hstate with hsame | ⟨-, rfl⟩
          · exact hk.valid r state hsame
          · exact hp.valid
        · intro request answer' hm htimed
          have htimed' : Timed t₄ := fun message hm =>
            htimed message (List.mem_append_right t₁ (List.mem_append_right t₃ (List.mem_cons_of_mem _ hm)))
          rcases List.mem_append.1 hm with hm | hm
          · exact absurd hm (huntold _ _)
          rcases mem_one_call.1 hm with hm | hm | hm
          · exact absurd (ht₃ _ hm) id
          · cases hm
            rcases finish_entered hf htimed' with hstops | hrecorded
            · refine .inl fun id hid => mem_stopRequests_append.2 (.inr ?_)
              rw [requests_one_call ht₃]
              exact hstops id hid
            · exact .inr hrecorded
          · exact absurd hm (hf.calls.1 _ _)
        · rcases finish_states hp hfinish hstate with hsame | ⟨hrunning, -⟩
          · exact .inl hsame
          · exact absurd (hrunning.symm.trans hdown) (by decide)

/-! ## Every command -/

/-- a command that only looks and asks about containers -/
theorem books_of_looking (hk : WellKept lib stateDir fs) {α : Type} {x : Proc CliError α}
    (hx : Only (fun e => Event.looking e ∨ Event.commanding e) x) {out : Except (Stop CliError) α}
    (h : Run SeenStep x fs t out fs') : Books lib stateDir fs ⟨command, t, r⟩ fs' := by
  obtain rfl : fs' = fs := hx.keeps Event.still.keeps (seen_run h)
  exact books_of_same hk (same_store_of_files rfl)
    (untold_of_mem (hx.mem h) fun _ _ => by simp [Event.looking, Event.commanding])

theorem export_to_books (hk : WellKept lib stateDir fs) {runId : String} {path : PathBuf}
    (hpath : ¬stateDir.components <+: path.components)
    (h : Run SeenStep (Cli.execute lib yaml stateDir (.exportProvenance runId (some path))) fs t r fs') :
    Books lib stateDir fs ⟨.exportProvenance runId (some path), t, r⟩ fs' := by
  have honly := export_only lib stateDir runId
  obtain ⟨out, hexport⟩ := run_attempted (fun a => ⟨_, rfl⟩) h
  rcases run_bind.1 (seen_run hexport) with ⟨provenance, t₁, u, t₂, h₁, h₂, rfl⟩ | ⟨e, he, -⟩
  · obtain rfl : u = fs := honly.keeps Event.looking.keeps h₁
    obtain ⟨written, v, t₃, hwrite, h₃, rfl⟩ := run_sys_bind.1 h₂
    have hlast : v = fs' ∧ t₃ = [] := by
      cases written with
      | ok =>
        obtain ⟨rfl, -, rfl⟩ := run_pure.1 h₃
        exact ⟨rfl, rfl⟩
      | error =>
        obtain ⟨rfl, -, rfl⟩ := run_fail.1 h₃
        exact ⟨rfl, rfl⟩
    obtain ⟨rfl, rfl⟩ := hlast
    have houtside : ∀ {l : Location}, stateDir.components <+: l → l ≠ path.components := by
      rintro l hl rfl
      exact hpath hl
    have hsame : SameStore stateDir u v :=
      ⟨fun r => write_elsewhere hwrite _ (houtside (List.prefix_append _ _)),
        fun r j => write_elsewhere hwrite _ (houtside ((List.prefix_append _ _).trans (List.prefix_append _ _)))⟩
    refine books_of_same hk hsame (untold_append.2 ⟨untold_of_looking (honly.mem h₁), ?_⟩)
    simp [Untold]
  · obtain rfl : fs' = fs := honly.keeps Event.looking.keeps he
    exact books_of_same hk (same_store_of_files rfl) (untold_of_looking (honly.mem he))

/-- **Every command keeps the books**, whatever the environment answers, as long as no existence check misses what is there
and an export is not written into the state directory. -/
theorem execute_books (hk : WellKept lib stateDir fs) (helsewhere : Elsewhere stateDir command)
    (h : Run SeenStep (Cli.execute lib yaml stateDir command) fs t r fs') :
    Books lib stateDir fs ⟨command, t, r⟩ fs' := by
  cases command with
  | plan path =>
    obtain ⟨out, hplan⟩ := run_printJson h
    exact books_of_looking hk (((loadManifest_only path).imp fun _ => .inl).bind fun _ => Only.lift _) hplan
  | apply path dryRun => exact apply_books hk h
  | status runId =>
    obtain ⟨out, hstatus⟩ := run_printJson h
    exact books_of_looking hk (status_only lib stateDir runId) hstatus
  | down runId => exact down_books hk h
  | runAction runId action jobId => exact action_books hk h
  | exportProvenance runId output =>
    cases output with
    | none =>
      obtain ⟨out, hexport⟩ := run_printJson h
      exact books_of_looking hk ((export_only lib stateDir runId).imp fun _ => .inl) hexport
    | some path => exact export_to_books hk helsewhere h

end

/-! ## A whole history -/

/-- the books over a history: what was told of was asked to stop or is on file, and what is down was seen to -/
structure Balanced (history : List Past) (fs : FileSystem) : Prop where
  kept : WellKept lib stateDir fs
  entered : ∀ past ∈ history, Entered stateDir past.trace fs
  ended : ∀ r state, StateFile stateDir fs r state → state.lifecycle = .down →
    ∃ past ∈ history, past.command = .down r ∧ state.Drained lib past.trace

section
variable {lib yaml stateDir} {fs fs' : FileSystem} {history : List Past}

/-- what is on file stays there, with its containers -/
theorem Entered.evolves {t : Trace} (h : Entered stateDir t fs) (hevolves : Evolves stateDir fs fs') :
    Entered stateDir t fs' := by
  intro request answer hm htimed
  refine (h request answer hm htimed).imp id ?_
  rintro ⟨state, hstate, hcontainers⟩
  obtain ⟨state', hstate', rfl | ⟨-, rfl⟩⟩ := hevolves.runs _ _ hstate
  · exact ⟨_, hstate', hcontainers⟩
  · exact ⟨_, hstate', hcontainers⟩

/-- one command more -/
theorem Balanced.snoc (h : Balanced lib stateDir history fs) {past : Past}
    (hp : Books lib stateDir fs past fs') : Balanced lib stateDir (history ++ [past]) fs' := by
  refine ⟨hp.kept, fun other ho => ?_, fun r state hstate hdown => ?_⟩
  · rcases List.mem_append.1 ho with ho | ho
    · exact (h.entered other ho).evolves hp.evolves
    · rw [List.mem_singleton.1 ho]
      exact hp.entered
  · rcases hp.ended r state hstate hdown with hold | ⟨hcommand, hdrained⟩
    · obtain ⟨other, ho, hrest⟩ := h.ended r state hold hdown
      exact ⟨other, List.mem_append_left _ ho, hrest⟩
    · exact ⟨past, List.mem_append_right _ (List.mem_singleton_self past), hcommand, hdrained⟩

theorem balanced_history {fs₀ : FileSystem} (hempty : ∀ l, stateDir.components <+: l → fs₀.files l = none)
    (h : Runs (Does lib yaml stateDir) fs₀ history fs)
    (helsewhere : ∀ past ∈ history, Elsewhere stateDir past.command) : Balanced lib stateDir history fs := by
  have hstart : WellKept lib stateDir fs₀ := by
    refine ⟨sound_of_empty hempty, fun r state hstate => ?_⟩
    cases (hempty _ (List.prefix_append _ _)).symm.trans hstate
  have hnone : ∀ r state, StateFile stateDir fs₀ r state → False := by
    intro r state hstate
    cases (hempty _ (List.prefix_append _ _)).symm.trans hstate
  refine h.history (P := fun t s => (∀ past ∈ t, Elsewhere stateDir past.command) → Balanced lib stateDir t s)
    (fun _ => ⟨hstart, List.forall_mem_nil _, fun r state hs => (hnone r state hs).elim⟩) ?_ helsewhere
  intro t u past v _ ih hdoes ht
  have hbefore := ih fun other ho => ht other (List.mem_append_left _ ho)
  exact hbefore.snoc (execute_books hbefore.kept (ht past (List.mem_append_right _ (List.mem_singleton_self past))) hdoes)

end

/-- **No container gets lost.** After any sequence of command lines, carried out one after the other from an empty state
directory, with any answers of Podman, NanoVMS and the disk, as long as no existence check misses what is there: every
container that NanoVMS told an apply of, with a result or with a failure, was asked to stop by that apply, or is on file
under its run; and if that run is down by now, a `down` of it has seen the container gone or stopped it, unless its service
has no place in the teardown. An apply that could not read the clock is excepted. -/
theorem containers_accounted {fs₀ fs : FileSystem} {history : List Past}
    (hempty : ∀ l, stateDir.components <+: l → fs₀.files l = none)
    (h : Runs (Does lib yaml stateDir) fs₀ history fs)
    (helsewhere : ∀ past ∈ history, Elsewhere stateDir past.command) {past : Past} (hpast : past ∈ history)
    (htimed : Timed past.trace) {request : ServiceLifecycleRequest}
    {answer : Except ServiceLifecycleFailure ServiceLifecycleResult} (htold : ⟨.lifecycle request, answer⟩ ∈ past.trace)
    {service id : String} (hid : (returnedContainers answer)[service]? = some id) :
    id ∈ stopRequests past.trace ∨
      ∃ state, StateFile stateDir fs request.runId state ∧ state.containers[service]? = some id ∧
        (state.lifecycle = .running ∨ service ∉ drained state.manifest ∨
          ∃ down ∈ history, down.command = .down request.runId ∧
            ∃ e ∈ down.trace, Settled lib state.manifest.runtime.wslDistribution id e) := by
  have hbalanced := balanced_history hempty h helsewhere
  rcases hbalanced.entered past hpast request answer htold htimed with hstops | ⟨state, hstate, hcontainers⟩
  · exact .inl (hstops id (mem_values.2 ⟨service, hid⟩))
  · rw [← hcontainers] at hid
    refine .inr ⟨state, hstate, hid, ?_⟩
    cases hl : state.lifecycle with
    | running => exact .inl rfl
    | down =>
      by_cases hservice : service ∈ drained state.manifest
      · obtain ⟨down, hdown, hcommand, hdrained⟩ := hbalanced.ended _ _ hstate hl
        exact .inr (.inr ⟨down, hdown, hcommand, hdrained service hservice id hid⟩)
      · exact .inr (.inl hservice)

/-- NanoVMS fails with two containers made -/
theorem containers_accounted_example : ∃ history fs request answer, ∃ past ∈ history,
    Runs (Does .standard demoYaml runsDir) demoFiles history fs ∧ ⟨.lifecycle request, answer⟩ ∈ past.trace ∧
      (returnedContainers answer)["db"]? = some "c2" ∧
      ("c2" ∈ stopRequests past.trace ∨ ∃ state, StateFile runsDir fs request.runId state ∧
        state.containers["db"]? = some "c2" ∧ (state.lifecycle = .running ∨ "db" ∉ drained state.manifest ∨
          ∃ down ∈ history, down.command = .down request.runId ∧
            ∃ e ∈ down.trace, Settled .standard state.manifest.runtime.wslDistribution "c2" e)) := by
  obtain ⟨run, lifecycle, hp⟩ := demo_planned
  let failure : ServiceLifecycleFailure := ⟨.backend "nvms_process_failed" "killed", twoCreated⟩
  have hread : SeenStep demoFiles (.readToString demoPath.components) (.ok (.text [])) demoFiles :=
    ⟨⟨rfl, FileSystem.put_files_same _ _ _⟩, id⟩
  have hload : Run SeenStep (loadManifest .standard demoYaml demoPath) demoFiles
      [⟨.readToString demoPath.components, .ok (.text [])⟩] (.ok demo) demoFiles :=
    .call hread (run_lift.2 ⟨rfl, demo_parses.symm, rfl⟩)
  obtain ⟨t₁, ht₁, hruns⟩ := hp.runs_apply demo_applicable runsDir demoFiles
    (demo_begins.empty _ (List.prefix_append _ _)) rfl
  obtain ⟨t₂, ht₂⟩ := Stops.exists demo.runtime.wslDistribution (values twoCreated.containers).reverse
  have hfinish : Run Step (finishApply .standard demo runsDir lifecycle hp.request (.error failure)) demoFiles t₂
      (.error (.err failure.error)) demoFiles := run_rollback_fail.2 ⟨rfl, rfl, ht₂⟩
  have happly := hload.bind (f := fun manifest => applyWithLifecycleClient .standard manifest runsDir false)
    (hruns _ _ _ _ hfinish)
  let past : Past :=
    { command := .apply demoPath false
      trace := ⟨.readToString demoPath.components, .ok (.text [])⟩ ::
        (t₁ ++ ⟨.lifecycle hp.request, .error failure⟩ :: t₂)
      outcome := .ok ⟨[], .error failure.error⟩ }
  have hattempt : Run SeenStep (attempt (loadManifest .standard demoYaml demoPath >>= fun manifest =>
      applyWithLifecycleClient .standard manifest runsDir false) : Proc CliError (Except CliError ApplyOutput))
      demoFiles past.trace (.ok (.error failure.error)) demoFiles := run_attempt.2 ⟨_, happly, rfl⟩
  have hexecute : Does .standard demoYaml runsDir demoFiles past demoFiles :=
    run_bind.2 (.inl ⟨_, _, _, [], hattempt, run_pure.2 ⟨rfl, rfl, rfl⟩, (List.append_nil _).symm⟩)
  have htold : ⟨.lifecycle hp.request, .error failure⟩ ∈ past.trace := by simp [past]
  have htimed : Timed past.trace := by
    intro message hm
    simp only [past, List.mem_append, List.mem_cons] at hm
    rcases hm with hm | hm | hm | hm
    · cases hm
    · exact ht₁ _ hm
    · cases hm
    · obtain ⟨id, a, he⟩ := ht₂.mem hm
      cases he
  have hruns : Runs (Does .standard demoYaml runsDir) demoFiles [past] demoFiles := runs_one.2 hexecute
  have hid : (returnedContainers (.error failure))["db"]? = some "c2" := rfl
  refine ⟨[past], demoFiles, hp.request, .error failure, past, List.mem_singleton_self past, hruns, htold, hid, ?_⟩
  exact containers_accounted .standard demoYaml runsDir demo_begins.empty hruns
    (List.forall_mem_singleton.2 trivial) (List.mem_singleton_self past) htimed htold hid

end PhenoCompose
