/-
The state directory over whole sequences of commands, from an empty one.

`Effect` is all that a command can do there: touch temporary files, begin a run under a new name, end a running one, or
add a job under a new name. `Sound` says what every file holds, and `Evolves` what becomes of it.

- `command_effect`: every command has one of these effects, whatever the environment answers, provided that no existence
  check misses what is there.
- `Effect.sound`, `Effect.evolves`: what holds of the directory is preserved, and nothing in it is undone.
- `run_store_kept`: hence both hold over every sequence of commands.
- `missed_check_overwrites`: an existence check that fails is answered `false`, and then a second `apply` overwrites the
  file of the run.
-/
import PhenoCompose.ActionResults
import PhenoCompose.ApplyResults
import PhenoCompose.Core.Transition
import PhenoCompose.Export

namespace PhenoCompose

open Core.Collections Core.Json Core.Path Core.Process Core.Text Core.Transition

variable (lib : Externals) (stateDir : PathBuf)

/-! ## Names of files -/

/-- a file that a save writes before it renames it -/
def Temporary (file : Location) : Prop := ∃ front name, file = front ++ [.normal (name ++ bytes ".tmp")]

theorem temporary_name (front : Location) (s tail : String) :
    Temporary (front ++ [.normal (bytes (s ++ (tail ++ ".tmp")))]) :=
  ⟨front, bytes (s ++ tail), by rw [bytes_append, bytes_append, bytes_append, List.append_assoc]⟩

theorem jobTemporary_temporary (stateDir : PathBuf) (runId jobId : String) (processId : UInt32) :
    Temporary (jobTemporaryLocation stateDir runId jobId processId) := by
  have he : "." ++ jobTemporaryExtension processId = (".json." ++ toString processId.toNat) ++ ".tmp" := by
    simp only [jobTemporaryExtension, ← String.append_assoc]
    rfl
  rw [jobTemporaryLocation, he]
  exact temporary_name _ jobId _

theorem json_not_temporary (front : Location) (s : String) : ¬Temporary (front ++ [.normal (bytes (s ++ ".json"))]) := by
  intro h
  obtain ⟨front', name, he⟩ := h
  have hname : bytes (s ++ ".json") = name ++ bytes ".tmp" := by
    simpa using congrArg List.getLast? he
  have hlast := congrArg List.getLast? hname
  rw [bytes_append, List.getLast?_append_of_ne_nil _ (by decide), List.getLast?_append_of_ne_nil _ (by decide)] at hlast
  exact absurd hlast (by decide)

theorem state_not_temporary (r : String) : ¬Temporary (stateLocation stateDir r) := json_not_temporary _ _

theorem job_not_temporary (r j : String) : ¬Temporary (jobLocation stateDir r j) := json_not_temporary _ _

theorem name_inj {s s' tail : String} : bytes (s ++ tail) = bytes (s' ++ tail) ↔ s = s' := by
  rw [bytes_append, bytes_append, List.append_cancel_right_eq, bytes_inj]

theorem stateLocation_inj {r r' : String} : stateLocation stateDir r = stateLocation stateDir r' ↔ r = r' := by
  simp [stateLocation, name_inj]

theorem jobLocation_inj {r j r' j' : String} :
    jobLocation stateDir r j = jobLocation stateDir r' j' ↔ r = r' ∧ j = j' := by
  simp [jobLocation, jobsLocation, name_inj]

theorem job_ne_state (r j r' : String) : jobLocation stateDir r j ≠ stateLocation stateDir r' := by
  intro h
  have := congrArg List.length h
  simp [jobLocation, jobsLocation, stateLocation] at this

/-! ## What the files hold -/

variable {stateDir}

/-- this state is recorded under the run id -/
def StateFile (stateDir : PathBuf) (fs : FileSystem) (r : String) (state : RunState) : Prop :=
  fs.files (stateLocation stateDir r) = some (.json (RunState.codec.encode state))

/-- a state that names its own run, Podman, and the digest of its manifest -/
structure Attests (r : String) (state : RunState) : Prop where
  runId : state.runId = r
  provider : state.provider = "podman"
  manifestSha256 : ∃ plan, state.manifest.plan lib = .ok plan ∧ state.manifestSha256 = plan.manifestSha256

/-- every state file attests its run, and every job file names its run and job and carries the digest of the run -/
structure Sound (stateDir : PathBuf) (fs : FileSystem) : Prop where
  runs : ∀ r contents, fs.files (stateLocation stateDir r) = some contents →
    ∃ state, contents = .json (RunState.codec.encode state) ∧ Attests lib r state
  jobs : ∀ r j contents, fs.files (jobLocation stateDir r j) = some contents →
    ∃ job state, contents = .json (JobProvenance.codec.encode job) ∧ job.runId = r ∧ job.jobId = j ∧
      StateFile stateDir fs r state ∧ job.manifestSha256 = state.manifestSha256

/-- nothing of a state ever changes but its lifecycle, and that only from running to down -/
def Later (state state' : RunState) : Prop := state' = state ∨ state.lifecycle = .running ∧ state' = state.down

/-- states stay and go down at most; jobs stay as they are -/
structure Evolves (stateDir : PathBuf) (fs fs' : FileSystem) : Prop where
  runs : ∀ r state, StateFile stateDir fs r state → ∃ state', StateFile stateDir fs' r state' ∧ Later state state'
  jobs : ∀ r j contents, fs.files (jobLocation stateDir r j) = some contents →
    fs'.files (jobLocation stateDir r j) = some contents

theorem StateFile.unique {fs : FileSystem} {r : String} {state state' : RunState} (h : StateFile stateDir fs r state)
    (h' : StateFile stateDir fs r state') : state' = state := by
  unfold StateFile at h h'
  rw [h, Option.some.injEq, Contents.json.injEq, Codec.encode_inj] at h'
  exact h'.symm

theorem Later.trans {state state' state'' : RunState} (h : Later state state') (h' : Later state' state'') :
    Later state state'' := by
  rcases h with rfl | ⟨hrunning, rfl⟩
  · exact h'
  · rcases h' with rfl | ⟨hdown, -⟩
    · exact .inr ⟨hrunning, rfl⟩
    · cases hdown

theorem Later.manifestSha256 {state state' : RunState} (h : Later state state') :
    state'.manifestSha256 = state.manifestSha256 := by
  rcases h with rfl | ⟨-, rfl⟩
  · rfl
  · rfl

instance : IsPreorder FileSystem (Evolves stateDir) where
  refl fs := ⟨fun r state h => ⟨state, h, .inl rfl⟩, fun r j contents h => h⟩
  trans fs fs' fs'' h h' := by
    refine ⟨fun r state hs => ?_, fun r j contents hj => h'.jobs r j contents (h.jobs r j contents hj)⟩
    obtain ⟨state', hs', hl⟩ := h.runs r state hs
    obtain ⟨state'', hs'', hl'⟩ := h'.runs r state' hs'
    exact ⟨state'', hs'', hl.trans hl'⟩

variable {lib}

theorem Sound.attests {fs : FileSystem} (h : Sound lib stateDir fs) {r : String} {state : RunState}
    (hf : StateFile stateDir fs r state) : Attests lib r state := by
  obtain ⟨state', he, hattests⟩ := h.runs r _ hf
  rw [Contents.json.injEq, Codec.encode_inj] at he
  rwa [he]

/-- what is loaded from a sound directory is what was recorded -/
theorem Sound.loaded {fs : FileSystem} (h : Sound lib stateDir fs) {r : String} {contents : Contents} {state : RunState}
    (hc : fs.files (stateLocation stateDir r) = some contents)
    (hd : lib.fromStr "RunState" RunState.codec contents = .ok state) : StateFile stateDir fs r state := by
  obtain ⟨state', rfl, -⟩ := h.runs r contents hc
  rw [lib.fromStr_encode] at hd
  cases hd
  exact hc

/-! ## What a command does to them -/

/-- no file but temporary ones is touched -/
def Keeps (fs fs' : FileSystem) : Prop := ∀ l, ¬Temporary l → fs'.files l = fs.files l

/-- one file is put in place, and no other but temporary ones is touched -/
def Puts (file : Location) (contents : Contents) (fs fs' : FileSystem) : Prop :=
  fs'.files file = some contents ∧ ∀ l, l ≠ file → ¬Temporary l → fs'.files l = fs.files l

variable (lib) in
/-- nothing; a new run; the end of a running one; a new job of a run -/
inductive Effect (stateDir : PathBuf) (fs fs' : FileSystem) : Prop where
  | kept (keeps : Keeps fs fs')
  | applied (state : RunState) (fresh : fs.files (stateLocation stateDir state.runId) = none)
      (attests : Attests lib state.runId state)
      (puts : Puts (stateLocation stateDir state.runId) (.json (RunState.codec.encode state)) fs fs')
  | ended {state : RunState} (file : StateFile stateDir fs state.runId state) (running : state.lifecycle = .running)
      (puts : Puts (stateLocation stateDir state.runId) (.json (RunState.codec.encode state.down)) fs fs')
  | recorded {job : JobProvenance} {state : RunState}
      (fresh : fs.files (jobLocation stateDir job.runId job.jobId) = none)
      (file : StateFile stateDir fs job.runId state) (digest : job.manifestSha256 = state.manifestSha256)
      (puts : Puts (jobLocation stateDir job.runId job.jobId) (.json (JobProvenance.codec.encode job)) fs fs')

section
variable {fs fs' : FileSystem}

theorem Keeps.state (h : Keeps fs fs') (r : String) :
    fs'.files (stateLocation stateDir r) = fs.files (stateLocation stateDir r) := h _ (state_not_temporary _ r)

theorem Keeps.job (h : Keeps fs fs') (r j : String) :
    fs'.files (jobLocation stateDir r j) = fs.files (jobLocation stateDir r j) := h _ (job_not_temporary _ r j)

theorem Puts.state_ne {r r' : String} {contents : Contents} (h : Puts (stateLocation stateDir r) contents fs fs')
    (hne : r' ≠ r) : fs'.files (stateLocation stateDir r') = fs.files (stateLocation stateDir r') :=
  h.2 _ (fun he => hne ((stateLocation_inj stateDir).1 he)) (state_not_temporary _ r')

theorem Puts.state_job {r : String} {contents : Contents} (h : Puts (stateLocation stateDir r) contents fs fs')
    (r' j : String) : fs'.files (jobLocation stateDir r' j) = fs.files (jobLocation stateDir r' j) :=
  h.2 _ (job_ne_state _ _ _ _) (job_not_temporary _ r' j)

theorem Puts.job_state {r j : String} {contents : Contents} (h : Puts (jobLocation stateDir r j) contents fs fs')
    (r' : String) : fs'.files (stateLocation stateDir r') = fs.files (stateLocation stateDir r') :=
  h.2 _ (job_ne_state _ _ _ _).symm (state_not_temporary _ r')

theorem Puts.job_ne {r j r' j' : String} {contents : Contents} (h : Puts (jobLocation stateDir r j) contents fs fs')
    (hne : ¬(r' = r ∧ j' = j)) : fs'.files (jobLocation stateDir r' j') = fs.files (jobLocation stateDir r' j') :=
  h.2 _ (fun he => hne ((jobLocation_inj stateDir).1 he)) (job_not_temporary _ r' j')

/-- what is in the directory stays there, or a run has gone down -/
theorem Effect.evolves (h : Effect lib stateDir fs fs') : Evolves stateDir fs fs' := by
  cases h with
  | kept keeps =>
    refine ⟨fun r state hs => ⟨state, (keeps.state r).trans hs, .inl rfl⟩, fun r j contents hj => ?_⟩
    rw [keeps.job r j, hj]
  | applied new fresh attests puts =>
    refine ⟨fun r state hs => ⟨state, ?_, .inl rfl⟩, fun r j contents hj => ?_⟩
    · have hne : r ≠ new.runId := by
        rintro rfl
        exact nomatch fresh.symm.trans hs
      exact (puts.state_ne hne).trans hs
    · rw [puts.state_job r j, hj]
  | @ended old file running puts =>
    refine ⟨fun r state hs => ?_, fun r j contents hj => ?_⟩
    · by_cases he : r = old.runId
      · subst he
        obtain rfl := file.unique hs
        exact ⟨_, puts.1, .inr ⟨running, rfl⟩⟩
      · exact ⟨state, (puts.state_ne he).trans hs, .inl rfl⟩
    · rw [puts.state_job r j, hj]
  | @recorded job _ fresh file digest puts =>
    refine ⟨fun r state hs => ⟨state, (puts.job_state r).trans hs, .inl rfl⟩, fun r j contents hj => ?_⟩
    have hne : ¬(r = job.runId ∧ j = job.jobId) := by
      rintro ⟨rfl, rfl⟩
      exact nomatch fresh.symm.trans hj
    rw [puts.job_ne hne, hj]

/-- what is put in place is as sound as what was there -/
theorem Effect.sound (h : Effect lib stateDir fs fs') (hs : Sound lib stateDir fs) : Sound lib stateDir fs' := by
  have hevolves := h.evolves
  -- a job that was there before still finds its run, with the same digest
  have hjobs : ∀ r j contents, fs.files (jobLocation stateDir r j) = some contents →
      ∃ job state, contents = .json (JobProvenance.codec.encode job) ∧ job.runId = r ∧ job.jobId = j ∧
        StateFile stateDir fs' r state ∧ job.manifestSha256 = state.manifestSha256 := by
    intro r j contents hc
    obtain ⟨job, state, hjob, hr, hj, hstate, hdigest⟩ := hs.jobs r j contents hc
    obtain ⟨state', hstate', hlater⟩ := hevolves.runs r state hstate
    exact ⟨job, state', hjob, hr, hj, hstate', hdigest.trans hlater.manifestSha256.symm⟩
  cases h with
  | kept keeps =>
    refine ⟨fun r contents hc => hs.runs r contents ?_, fun r j contents hc => hjobs r j contents ?_⟩
    · rwa [keeps.state r] at hc
    · rwa [keeps.job r j] at hc
  | applied new fresh attests puts =>
    refine ⟨fun r contents hc => ?_, fun r j contents hc => hjobs r j contents ?_⟩
    · by_cases he : r = new.runId
      · subst he
        exact ⟨new, Option.some.inj (hc.symm.trans puts.1), attests⟩
      · exact hs.runs r contents (by rwa [puts.state_ne he] at hc)
    · rwa [puts.state_job r j] at hc
  | @ended old file running puts =>
    refine ⟨fun r contents hc => ?_, fun r j contents hc => hjobs r j contents ?_⟩
    · by_cases he : r = old.runId
      · subst he
        have hattests := hs.attests file
        exact ⟨_, Option.some.inj (hc.symm.trans puts.1), hattests.1, hattests.2, hattests.3⟩
      · exact hs.runs r contents (by rwa [puts.state_ne he] at hc)
    · rwa [puts.state_job r j] at hc
  | @recorded job state fresh file digest puts =>
    refine ⟨fun r contents hc => hs.runs r contents ?_, fun r j contents hc => ?_⟩
    · rwa [puts.job_state r] at hc
    · by_cases he : r = job.runId ∧ j = job.jobId
      · obtain ⟨rfl, rfl⟩ := he
        exact ⟨job, state, Option.some.inj (hc.symm.trans puts.1), rfl, rfl, (puts.job_state _).trans file, digest⟩
      · exact hjobs r j contents (by rwa [puts.job_ne he] at hc)

/-! ## The commands -/

variable {t : Trace}

theorem saveState_puts (state : RunState) (hw : isWord state.runId = true) (hne : state.runId ≠ "")
    {r : Except (Stop CliError) Unit} (h : Run Step (saveState stateDir state) fs t r fs') :
    (r = .ok () ∧ Puts (stateLocation stateDir state.runId) (.json (RunState.codec.encode state)) fs fs') ∨
      ∃ error, r = .error (.err error) ∧ Keeps fs fs' := by
  have htemporary : Temporary (stateTemporary stateDir state.runId) := temporary_name _ state.runId ".json"
  rcases saveState_spec state hw hne h with ⟨rfl, hfile, hkept⟩ | ⟨error, rfl, hkept⟩
  · exact .inl ⟨rfl, hfile, fun l hl ht => hkept l hl fun he => ht (he ▸ htemporary)⟩
  · exact .inr ⟨error, rfl, fun l ht => hkept l fun he => ht (he ▸ htemporary)⟩

theorem save_job_puts {job : JobProvenance} (hr : isWord job.runId = true) (hj : isWord job.jobId = true)
    (hne : job.jobId ≠ "") {r : Except (Stop CliError) Unit}
    (h : Run Step (saveJobProvenance stateDir job) fs t r fs') :
    Puts (jobLocation stateDir job.runId job.jobId) (.json (JobProvenance.codec.encode job)) fs fs' ∨
      Keeps fs fs' := by
  rcases save_job_spec hr hj hne h with ⟨-, hfiles⟩ | ⟨error, -, -, processId, hkept⟩
  · left
    rw [Puts, hfiles]
    exact ⟨Function.update_self .., fun l hl _ => Function.update_of_ne hl ..⟩
  · right
    have htemporary := jobTemporary_temporary stateDir job.runId job.jobId processId
    exact fun l ht => hkept l fun he => ht (he ▸ htemporary)

/-- what follows the lifecycle call of an apply records the run, or keeps every file -/
theorem finishApply_puts {manifest : CompositionManifest} {lifecycle : LifecyclePlan}
    {request : ServiceLifecycleRequest} {answer : Except ServiceLifecycleFailure ServiceLifecycleResult}
    (hw : isWord request.runId = true) (hne : request.runId ≠ "") {r : Except (Stop CliError) ApplyOutput}
    (h : Run Step (finishApply lib manifest stateDir lifecycle request answer) fs t r fs') :
    Keeps fs fs' ∨ ∃ containers seconds, Puts (stateLocation stateDir request.runId)
      (.json (RunState.codec.encode (runState manifest request containers seconds))) fs fs' := by
  unfold finishApply at h
  cases answer with
  | error failure =>
    obtain ⟨-, rfl, -⟩ := run_rollback_fail.1 h
    exact .inl fun _ _ => rfl
  | ok result =>
    obtain ⟨checked, t₁, u, t₂, h₁, h₂, rfl⟩ :=
      (run_attempt_bind (Safe.lift (validate_lifecycle_raises lib request result))).1 h
    obtain ⟨-, -, rfl⟩ := run_lift.1 h₁
    cases checked with
    | error error =>
      obtain ⟨-, rfl, -⟩ := run_rollback_fail.1 h₂
      exact .inl fun _ _ => rfl
    | ok =>
      rcases run_bind.1 h₂ with ⟨seconds, t₃, v, t₄, hclock, h₃, rfl⟩ | ⟨e, hclock, -⟩
      · obtain ⟨rfl, -⟩ := run_unixSeconds.1 hclock
        obtain ⟨saved, t₅, w, t₆, hsave, h₄, rfl⟩ := (run_attempt_bind (saveState_safe _ _)).1 h₃
        rcases saveState_puts (runState manifest request result.containers seconds) hw hne hsave with
          ⟨hr, hputs⟩ | ⟨error, hr, hkeeps⟩
        · obtain rfl : saved = .ok () := by cases saved <;> cases hr; rfl
          obtain ⟨-, -, rfl⟩ := run_pure.1 h₄
          exact .inr ⟨_, _, hputs⟩
        · obtain rfl : saved = .error error := by cases saved <;> cases hr; rfl
          obtain ⟨-, rfl, -⟩ := run_rollback_fail.1 h₄
          exact .inl hkeeps
      · obtain ⟨rfl, -⟩ := run_unixSeconds.1 hclock
        exact .inl fun _ _ => rfl

theorem apply_effect {manifest : CompositionManifest} (hvalid : manifest.validate lib = .ok ()) {dryRun : Bool}
    {r : Except (Stop CliError) ApplyOutput}
    (h : Run SeenStep (applyWithLifecycleClient lib manifest stateDir dryRun) fs t r fs') :
    Effect lib stateDir fs fs' := by
  obtain ⟨run, lifecycle, hp⟩ := ((validate_ok_iff lib).1 hvalid).planned lib
  cases dryRun with
  | true =>
    have honly : Only (fun _ => False) (applyWithLifecycleClient lib manifest stateDir true) :=
      (Only.lift _).bind fun _ => (Only.lift _).bind fun _ => (Only.lift _).bind fun _ => Only.pure _
    obtain rfl : fs' = fs := honly.keeps (fun hf _ => hf.elim) h
    exact .kept fun _ _ => rfl
  | false =>
    have honly := prepare_only manifest stateDir lifecycle run
    rw [hp.apply_eq] at h
    rcases run_bind.1 h with ⟨⟨⟩, t₁, u, t', hprepare, h₁, rfl⟩ | ⟨e, hprepare, -⟩
    · obtain rfl : u = fs := honly.keeps Event.preparing.keeps (seen_run hprepare)
      obtain ⟨-, hfound⟩ := prepare_ok (seen_run hprepare)
      have hfresh := (prepare_sees hprepare).absent hfound
      rw [statePath_components stateDir hp.word] at hfresh
      obtain ⟨answer, v, t₂, hv, hfinish, rfl⟩ := run_call_next.1 h₁
      obtain rfl : v = u := hv.step
      rcases finishApply_puts hp.word hp.ne_empty (seen_run hfinish) with hkeeps | ⟨containers, seconds, hputs⟩
      · exact .kept hkeeps
      · have hattests : Attests lib run (runState manifest hp.request containers seconds) :=
          ⟨rfl, rfl, _, hp.valid.plan_eq lib, rfl⟩
        exact .applied (runState manifest hp.request containers seconds) hfresh hattests hputs
    · obtain rfl : fs' = fs := honly.keeps Event.preparing.keeps (seen_run hprepare)
      exact .kept fun _ _ => rfl

theorem down_effect (hs : Sound lib stateDir fs) {runId : String} {r : Except (Stop CliError) StatusOutput}
    (h : Run Step (down lib stateDir runId) fs t r fs') : Effect lib stateDir fs fs' := by
  rcases run_down lib h with ⟨rfl, -⟩ | ⟨state, t₁, t₂, r₀, hload, hrunning, hsave, -⟩
  · exact .kept fun _ _ => rfl
  · obtain ⟨hslug, -, contents, hc, hdecode, -⟩ := (run_loadState lib).1 hload
    obtain ⟨hw, hne⟩ := slug_word hslug
    rw [statePath_components stateDir hw] at hc
    have hfile := hs.loaded hc hdecode
    obtain rfl := (hs.attests hfile).runId
    rcases saveState_puts state.down hw hne hsave with ⟨-, hputs⟩ | ⟨error, -, hkeeps⟩
    · have hrunning' : state.lifecycle = .running := by cases hl : state.lifecycle <;> simp_all
      exact .ended hfile hrunning' hputs
    · exact .kept hkeeps

/-- recording a job of a run that was checked -/
theorem recorded_effect (hs : Sound lib stateDir fs) {runId actionName jobId : String} {state : RunState}
    {service : Service} {job saved : JobProvenance} {t₁ : Trace} {out r : Except (Stop CliError) JobProvenance}
    (hchecked : Run Step (prepareAction lib stateDir runId actionName jobId) fs t₁ (.ok (state, service, job)) fs)
    (hseen : Seen fs t₁)
    (hsaves : Saves stateDir saved out fs t r fs') (hrun : saved.runId = job.runId)
    (hjob : saved.jobId = job.jobId) (hdigest : saved.manifestSha256 = job.manifestSha256) :
    Effect lib stateDir fs fs' := by
  obtain ⟨hr, hj, ⟨contents, hc, hdecode⟩, -, hcheck, hfound⟩ := prepareAction_ok lib hchecked
  have hfresh := hseen.absent hfound
  obtain ⟨action, closure, bindings, -, rfl⟩ := (checkAction_ok lib hcheck).initial
  obtain rfl : saved.runId = runId := hrun
  obtain rfl : saved.jobId = jobId := hjob
  obtain ⟨hrw, -⟩ := slug_word hr
  obtain ⟨hjw, hne⟩ := slug_word hj
  rw [statePath_components stateDir hrw] at hc
  rw [jobPath_components stateDir hrw hjw] at hfresh
  obtain ⟨r₀, hsave, -⟩ := hsaves
  rcases save_job_puts hrw hjw hne hsave with hputs | hkeeps
  · exact .recorded hfresh (hs.loaded hc hdecode) hdigest hputs
  · exact .kept hkeeps

theorem action_effect (hs : Sound lib stateDir fs) {workspaceBase : PathBuf} {runId actionName jobId : String}
    {r : Except (Stop CliError) JobProvenance}
    (h : Run SeenStep (runActionWithClientAt lib workspaceBase stateDir runId actionName jobId) fs t r fs') :
    Effect lib stateDir fs fs' := by
  have hseen := action_sees lib workspaceBase stateDir runId actionName jobId _ _ _ _ h
  cases runAction_run lib (seen_run h) with
  | refused => exact .kept fun _ _ => rfl
  | unbuilt checked built saves => exact recorded_effect hs checked hseen.front saves rfl rfl rfl
  | asked checked built recorded saves =>
    obtain ⟨hrun, hjob, -⟩ := recorded.runId
    have hdigest := recorded.manifestSha256
    exact recorded_effect hs checked hseen.front saves hrun hjob hdigest

end

/-! ## Sequences of commands -/

/-- the commands that use the state directory; a manifest stands for the file it is loaded from -/
inductive Commands where
  | apply (manifest : CompositionManifest) (dryRun : Bool)
  | status (runId : String)
  | down (runId : String)
  | runAction (runId action jobId : String)
  | exportProvenance (runId : String)

variable (lib stateDir) in
/-- one command, from its first call to its last; `step` is the environment of those that write -/
inductive CommandStep (step : FileSystem → (call : SysCall) → Answer call → FileSystem → Prop) :
    FileSystem → Commands → FileSystem → Prop where
  | apply {manifest : CompositionManifest} {dryRun : Bool} {fs fs' : FileSystem} {t : Trace}
      {r : Except (Stop CliError) ApplyOutput} (valid : manifest.validate lib = .ok ())
      (run : Run step (applyWithLifecycleClient lib manifest stateDir dryRun) fs t r fs') :
      CommandStep step fs (.apply manifest dryRun) fs'
  | status {runId : String} {fs fs' : FileSystem} {t : Trace} {r : Except (Stop CliError) StatusOutput}
      (run : Run Step (status lib stateDir runId) fs t r fs') : CommandStep step fs (.status runId) fs'
  | down {runId : String} {fs fs' : FileSystem} {t : Trace} {r : Except (Stop CliError) StatusOutput}
      (run : Run step (down lib stateDir runId) fs t r fs') : CommandStep step fs (.down runId) fs'
  | runAction {runId action jobId : String} {fs fs' : FileSystem} {t : Trace}
      {r : Except (Stop CliError) JobProvenance}
      (run : Run step (runActionWithClient lib stateDir runId action jobId) fs t r fs') :
      CommandStep step fs (.runAction runId action jobId) fs'
  | runActionAt {workspaceBase : PathBuf} {runId action jobId : String} {fs fs' : FileSystem} {t : Trace}
      {r : Except (Stop CliError) JobProvenance}
      (run : Run step (runActionWithClientAt lib workspaceBase stateDir runId action jobId) fs t r fs') :
      CommandStep step fs (.runAction runId action jobId) fs'
  | exportProvenance {runId : String} {fs fs' : FileSystem} {t : Trace} {r : Except (Stop CliError) Provenance}
      (run : Run Step (exportProvenance lib stateDir runId) fs t r fs') :
      CommandStep step fs (.exportProvenance runId) fs'

theorem Event.still.keeps {fs fs' : FileSystem} {call : SysCall} {a : Answer call}
    (h : Event.looking ⟨call, a⟩ ∨ Event.commanding ⟨call, a⟩) (hs : Step fs call a fs') : fs' = fs :=
  h.elim (fun h => h.keeps hs) fun h => h.keeps hs

/-- **What one command does**, if no existence check misses what is there -/
theorem command_effect {fs fs' : FileSystem} {c : Commands} (hs : Sound lib stateDir fs)
    (h : CommandStep lib stateDir SeenStep fs c fs') : Effect lib stateDir fs fs' := by
  cases h with
  | apply valid run => exact apply_effect valid run
  | down run => exact down_effect hs (seen_run run)
  | runActionAt run => exact action_effect hs run
  | runAction run =>
    obtain ⟨directory, u, t', hu, h₁, -⟩ := run_call_next.1 run
    obtain rfl : u = fs := hu.step
    cases directory with
    | ok workspaceBase => exact action_effect hs h₁
    | error e =>
      obtain ⟨-, -, rfl⟩ := run_done.1 h₁
      exact .kept fun _ _ => rfl
  | status run =>
    obtain rfl := (status_only lib _ _).keeps Event.still.keeps run
    exact .kept fun _ _ => rfl
  | exportProvenance run =>
    obtain rfl := (export_only lib _ _).keeps Event.looking.keeps run
    exact .kept fun _ _ => rfl

theorem sound_of_empty {fs : FileSystem} (h : ∀ l, stateDir.components <+: l → fs.files l = none) :
    Sound lib stateDir fs := by
  refine ⟨fun r contents hc => ?_, fun r j contents hc => ?_⟩
  · exact nomatch (h _ (List.prefix_append _ _)).symm.trans hc
  · exact nomatch (h _ ((List.prefix_append _ _).trans (List.prefix_append _ _))).symm.trans hc

/-- **The state directory over any sequence of commands.** From an empty directory, and as long as no existence check
misses what is there, every state file names its run, Podman and the digest of its manifest; every job file carries the
digest of its run; and from any state reached on, states only go down and jobs stay as they are. -/
theorem run_store_kept {fs₀ fs fs' : FileSystem} {commands commands' : List Commands}
    (hempty : ∀ l, stateDir.components <+: l → fs₀.files l = none)
    (h : Runs (CommandStep lib stateDir SeenStep) fs₀ commands fs)
    (h' : Runs (CommandStep lib stateDir SeenStep) fs commands' fs') :
    Sound lib stateDir fs ∧ Evolves stateDir fs fs' := by
  have hstep : ∀ s c u, Sound lib stateDir s → CommandStep lib stateDir SeenStep s c u →
      Sound lib stateDir u ∧ Evolves stateDir s u := by
    intro s c u hs hc
    have heffect := command_effect hs hc
    exact ⟨heffect.sound hs, heffect.evolves⟩
  have hsound := h.invariant (fun s c u hs hc => (hstep s c u hs hc).1) (sound_of_empty hempty)
  exact ⟨hsound, h'.related hstep hsound⟩

/-! ## One composition, applied -/

/-- the directory of the runs below -/
def runsDir : PathBuf := .ofStr "runs"

/-- nothing is in the way of a state of this run -/
structure Open (fs : FileSystem) (run : String) : Prop where
  files : ∀ d, d <+: runsDir.components → fs.files d = none
  state : fs.dirs (stateLocation runsDir run) = false
  temporary : fs.dirs (stateTemporary runsDir run) = false

/-- where nothing is in the way, a state is saved, and nothing is in the way of the next one -/
theorem open_saves {fs : FileSystem} (state : RunState) (h : Open fs state.runId) (hw : isWord state.runId = true)
    (hne : state.runId ≠ "") :
    ∃ t fs', Run Step (saveState runsDir state) fs t (.ok ()) fs' ∧ StateFile runsDir fs' state.runId state ∧
      Open fs' state.runId := by
  obtain ⟨t, fs', hsave, hdirs⟩ := saveState_runs state hw hne h.files h.state h.temporary
  refine ⟨t, fs', hsave, ?_⟩
  rcases saveState_spec state hw hne hsave with ⟨-, hfile, hkept⟩ | ⟨error, he, -⟩
  · refine ⟨hfile, fun d hd => ?_, ?_, ?_⟩
    · -- a directory on the way is not below it
      have hne : ∀ name, d ≠ runsDir.components ++ [name] := by
        intro name he
        have := hd.length_le
        simp [he] at this
      rw [hkept d (hne _) (hne _), h.files d hd]
    · rw [hdirs]
      exact (addDirs_below _ _ _).trans h.state
    · rw [hdirs]
      exact (addDirs_below _ _ _).trans h.temporary
  · cases he

/-- an attested result is recorded, where nothing is in the way of the state -/
theorem Planned.finish_records {lib} {manifest : CompositionManifest} {run : String} {lifecycle : LifecyclePlan}
    (h : Planned lib manifest run lifecycle) {result : ServiceLifecycleResult}
    (hv : validateLifecycleResult lib h.request result = .ok ()) {fs : FileSystem} (hopen : Open fs run)
    (seconds : UInt64) : ∃ t output fs',
      Run Step (finishApply lib manifest runsDir lifecycle h.request (.ok result)) fs t (.ok output) fs' ∧
      output.containers = result.containers ∧
      StateFile runsDir fs' run (runState manifest h.request result.containers seconds) ∧ Open fs' run := by
  obtain ⟨t, fs', hsave, hfile, hopen'⟩ :=
    open_saves (runState manifest h.request result.containers seconds) hopen h.word h.ne_empty
  have hclock : Run Step unixSeconds fs [⟨.clock, .ok seconds⟩] (.ok seconds) fs :=
    run_unixSeconds.2 ⟨rfl, .ok seconds, rfl, rfl⟩
  have hrun : ∃ t output,
      Run Step (finishApply lib manifest runsDir lifecycle h.request (.ok result)) fs t (.ok output) fs' ∧
      output.containers = result.containers := by
    rw [finishApply, hv]
    exact ⟨_, _, run_bind.2 (.inl ⟨.ok (), [], fs, _, run_done.2 ⟨rfl, rfl, rfl⟩,
      hclock.bind ((run_attempt_bind (saveState_safe _ _)).2
        ⟨.ok (), t, fs', [], hsave, run_pure.2 ⟨rfl, rfl, rfl⟩, rfl⟩), rfl⟩), rfl⟩
  obtain ⟨t', output, hrun, hcontainers⟩ := hrun
  exact ⟨t', output, fs', hrun, hcontainers, hfile, hopen'⟩

theorem demo_planned : ∃ run lifecycle, Planned .standard demo run lifecycle :=
  ((validate_ok_iff .standard).1 demo_valid).planned .standard

variable {run : String} {lifecycle : LifecyclePlan}

/-- the state of `demo` with two containers, created at this second -/
def createdAt (h : Planned .standard demo run lifecycle) (seconds : UInt64) : RunState :=
  runState demo h.request twoCreated.containers seconds

/-- NanoVMS creates both containers at this second, and the run is recorded -/
theorem finish_demo (h : Planned .standard demo run lifecycle) {fs : FileSystem} (hopen : Open fs run)
    (seconds : UInt64) : ∃ t r fs',
      Run Step (finishApply .standard demo runsDir lifecycle h.request (.ok twoCreated)) fs t r fs' ∧
      StateFile runsDir fs' run (createdAt h seconds) ∧ Open fs' run := by
  obtain ⟨t, output, fs', hrun, -, hfile, hopen'⟩ := h.finish_records (twoCreated_attested h) hopen seconds
  exact ⟨t, .ok output, fs', hrun, hfile, hopen'⟩

theorem open_empty (run : String) : Open .empty run := ⟨fun _ _ => rfl, rfl, rfl⟩

/-- the first apply of `demo`, in an empty directory -/
theorem first_apply (h : Planned .standard demo run lifecycle) : ∃ t r fs,
    Run SeenStep (applyWithLifecycleClient .standard demo runsDir false) .empty t r fs ∧
      StateFile runsDir fs run (createdAt h 0) ∧ Open fs run := by
  obtain ⟨t₁, -, hruns⟩ := h.runs_apply demo_applicable runsDir .empty rfl rfl
  obtain ⟨t₂, r, fs, hfinish, hfile, hopen⟩ := finish_demo h (open_empty run) 0
  exact ⟨_, r, fs, hruns _ _ _ _ hfinish, hfile, hopen⟩

/-- any existence check may be answered `false` -/
theorem check_may_miss (fs : FileSystem) (file : Location) : Step fs (.pathExists file) false fs := ⟨rfl, nofun⟩

/-- a second apply that is told that the run is not there -/
theorem second_apply (h : Planned .standard demo run lifecycle) {fs : FileSystem} (hopen : Open fs run) :
    ∃ t r fs', Run Step (applyWithLifecycleClient .standard demo runsDir false) fs t r fs' ∧
      StateFile runsDir fs' run (createdAt h 1) := by
  have habsent : FileSystem.empty.files (statePath runsDir run).components = none := rfl
  obtain ⟨t₁, hprepare⟩ := prepare_runs demo_applicable runsDir h.intents habsent rfl
  -- whatever an apply is told in an empty file system, it may be told here
  have htold : ∀ {op a w}, Event.preparing ⟨op, a⟩ → SeenStep .empty op a w → w = .empty ∧ Step fs op a fs := by
    intro op a w hp hs
    refine ⟨hp.keeps hs.step, ?_⟩
    cases op
    case pathExists file =>
      obtain ⟨-, rfl⟩ := seen_exists.1 hs
      exact check_may_miss fs file
    case podman => rfl
    all_goals exact hp.elim
  have hprepare' := (prepare_only demo runsDir lifecycle run).elsewhere htold hprepare
  obtain ⟨t₂, r, fs', hfinish, hfile, -⟩ := finish_demo h hopen 1
  have hrun : Run Step (applyWithLifecycleClient .standard demo runsDir false) fs
      (t₁ ++ ⟨.lifecycle h.request, .ok twoCreated⟩ :: t₂) r fs' := by
    rw [h.apply_eq]
    exact hprepare'.bind (run_sys_bind.2 ⟨.ok twoCreated, fs, t₂, rfl, hfinish, rfl⟩)
  exact ⟨_, r, fs', hrun, hfile⟩

/-- **A run may be recorded twice**: a failed metadata call makes `exists()` say that the run is not there, and the second
apply replaces its state, with another creation time. -/
theorem missed_check_overwrites : ∃ fs fs',
    Runs (CommandStep .standard runsDir Step) .empty [.apply demo false] fs ∧
      Runs (CommandStep .standard runsDir Step) fs [.apply demo false] fs' ∧
      ¬(Sound .standard runsDir fs ∧ Evolves runsDir fs fs') := by
  obtain ⟨run, lifecycle, hp⟩ := demo_planned
  obtain ⟨t₁, r₁, fs, hfirst, hfile, hopen⟩ := first_apply hp
  obtain ⟨t₂, r₂, fs', hsecond, hfile'⟩ := second_apply hp hopen
  refine ⟨fs, fs', runs_one.2 (.apply demo_valid (seen_run hfirst)), runs_one.2 (.apply demo_valid hsecond), ?_⟩
  intro h
  obtain ⟨state, hstate, hlater⟩ := h.2.runs run _ hfile
  obtain rfl := hstate.unique hfile'
  have hcreated : (1 : UInt64) = 0 := by
    rcases hlater with he | ⟨-, he⟩
    · exact congrArg RunState.createdUnixSeconds he
    · exact congrArg RunState.createdUnixSeconds he
  exact absurd hcreated (by decide)

/-- `demo` is applied and torn down -/
theorem run_store_example : ∃ run state fs fs',
    Runs (CommandStep .standard runsDir SeenStep) .empty [.apply demo false] fs ∧
      Runs (CommandStep .standard runsDir SeenStep) fs [.down run] fs' ∧
      StateFile runsDir fs run state ∧ StateFile runsDir fs' run state.down ∧
      Sound .standard runsDir fs ∧ Evolves runsDir fs fs' := by
  obtain ⟨run, lifecycle, hp⟩ := demo_planned
  obtain ⟨t₁, r₁, fs, hfirst, hfile, hopen⟩ := first_apply hp
  have hslug : validateSlug "run_id" run = .ok () := (hp.slug_iff .standard).2 ⟨rfl, by decide⟩
  have hcontents : fs.files (statePath runsDir run).components =
      some (.json (RunState.codec.encode (createdAt hp 0))) := by
    rw [statePath_components runsDir hp.word]
    exact hfile
  have hload := (run_loadState .standard).2 ⟨hslug, rfl, _, hcontents, Externals.fromStr_encode _ _ _ _, rfl⟩
  obtain ⟨order, ho, -⟩ := ((validate_ok_iff .standard).1 demo_valid).teardownOrder_eq
  obtain ⟨t₂, hstop⟩ := stop_services_run .standard demo.runtime.wslDistribution twoCreated.containers order fs
  obtain ⟨t₃, fs', hsave, hfile', -⟩ := open_saves (createdAt hp 0).down hopen hp.word hp.ne_empty
  have hdown := (run_down_ok .standard).2
    ⟨createdAt hp 0, order, _, fs, t₂, t₃, hload, rfl, nofun, ho, hstop, hsave, rfl, rfl⟩
  have hruns : Runs (CommandStep .standard runsDir SeenStep) .empty [.apply demo false] fs :=
    runs_one.2 (.apply demo_valid hfirst)
  have hruns' : Runs (CommandStep .standard runsDir SeenStep) fs [.down run] fs' :=
    runs_one.2 (.down (run_unchecking (down_unchecking .standard runsDir run) hdown))
  exact ⟨run, createdAt hp 0, fs, fs', hruns, hruns', hfile, hfile', run_store_kept (fun _ _ => rfl) hruns hruns'⟩

end PhenoCompose
