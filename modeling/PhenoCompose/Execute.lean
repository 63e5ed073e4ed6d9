/-
`main.rs`: what the `run-action` command prints, and how it ends.

When the action fails the command reads the file of the job and prints what is in it, whoever wrote it.

- `run_loadJob`: reading a job changes nothing, and gives what its file decodes to.
- `save_job_trace`: a save that goes through has written the job and renamed it into place, and one that fails has not.
- `Earlier.only_reported`: over a job that is there already and is not missed, the command fails and prints nothing but
  that job.
- `failure_reports_own_job`: a failing command prints only a failure it has recorded itself exactly when no job can be
  read there beforehand.
-/
import PhenoCompose.ActionResults

namespace PhenoCompose

open Core.Collections Core.Json Core.Path Core.Process Core.Text

variable (lib : Externals)

/-! ## The command -/

/-- what a command has printed, and how it ends -/
structure Ended where
  stdout : List JobProvenance
  result : Except CliError Unit

/-- `Commands::RunAction`; printing does not fail -/
def executeRunAction (stateDir : PathBuf) (runId action jobId : String) : Proc CliError Ended := do
  match ← attempt (runActionWithClient lib stateDir runId action jobId) with
  | .ok provenance => pure { stdout := [provenance], result := .ok () }
  | .error error => do
    match ← attempt (loadJobProvenance lib stateDir runId jobId) with
    | .ok provenance => pure { stdout := [provenance], result := .error error }
    | .error _ => pure { stdout := [], result := .error error }

/-- in these calls the job was written, and renamed to this file -/
def Committed (file : Location) (t : Trace) (job : JobProvenance) : Prop :=
  ∃ temporary, ⟨.writeAll temporary (.json (JobProvenance.codec.encode job)), .ok ()⟩ ∈ t ∧
    ⟨.rename temporary file, .ok ()⟩ ∈ t

theorem Committed.mono {file : Location} {t t' : Trace} {job : JobProvenance} (h : Committed file t job) (ht : t ⊆ t') :
    Committed file t' job := by
  obtain ⟨temporary, hwritten, hrenamed⟩ := h
  exact ⟨temporary, ht hwritten, ht hrenamed⟩

/-- a failure, recorded in these calls -/
structure OwnFailure (file : Location) (t : Trace) (job : JobProvenance) : Prop where
  written : Committed file t job
  failed : job.success = false

/-- a job can be read under these ids -/
def Earlier (stateDir : PathBuf) (runId jobId : String) (fs : FileSystem) (job : JobProvenance) : Prop :=
  validateSlug "run_id" runId = .ok () ∧ validateSlug "job_id" jobId = .ok () ∧ ∃ contents,
    fs.files (jobPath stateDir runId jobId).components = some contents ∧
      lib.fromStr "JobProvenance" JobProvenance.codec contents = .ok job

/-! ## Loading and saving a job -/

section
variable {stateDir : PathBuf} {runId jobId : String} {fs fs' : FileSystem} {t : Trace}

/-- reading a job changes nothing, and gives what the file decodes to -/
theorem run_loadJob {job : JobProvenance}
    (h : Run Step (loadJobProvenance lib stateDir runId jobId) fs t (.ok job) fs') :
    Earlier lib stateDir runId jobId fs job := by
  obtain ⟨⟨⟩, hr, h₁⟩ := run_lift_bind_ok.1 h
  obtain ⟨⟨⟩, hj, h₂⟩ := run_lift_bind_ok.1 h₁
  obtain ⟨input, u, t', hread, h₃, rfl⟩ := run_sys_bind.1 h₂
  obtain ⟨contents, rfl, h₄⟩ := run_io_bind_ok.1 h₃
  exact ⟨hr, hj, contents, hread.2, (run_lift.1 h₄).2.1.symm⟩

theorem loadJobProvenance_only : Only Event.looking (loadJobProvenance lib stateDir runId jobId) := by
  apply (Only.lift _).bind
  intro _
  apply (Only.lift _).bind
  intro _
  apply (Only.call fun _ => trivial).bind
  intro _
  exact (ioResult_only _ _).bind fun _ => Only.lift _

/-- what can be read is read, when the disk answers -/
theorem Earlier.loads {job : JobProvenance} (h : Earlier lib stateDir runId jobId fs job) :
    ∃ t, Run Step (loadJobProvenance lib stateDir runId jobId) fs t (.ok job) fs := by
  obtain ⟨hr, hj, contents, hfile, hdecode⟩ := h
  refine ⟨[⟨.readToString (jobPath stateDir runId jobId).components, .ok contents⟩], ?_⟩
  refine run_lift_bind.2 (.inl ⟨(), hr, ?_⟩)
  refine run_lift_bind.2 (.inl ⟨(), hj, ?_⟩)
  refine run_sys_bind.2 ⟨.ok contents, fs, [], ⟨rfl, hfile⟩, ?_, rfl⟩
  refine run_io_bind.2 (.inl ⟨contents, rfl, ?_⟩)
  exact run_lift.2 ⟨rfl, hdecode.symm, rfl⟩

/-- a rename that went through -/
def Event.renamed : Event Answer → Prop
  | ⟨.rename _ _, .ok _⟩ => True
  | _ => False

theorem writeAndSync_only (file : Location) (contents : Contents) :
    Only (fun e => ¬Event.renamed e) (writeAndSync file contents) := by
  apply (Only.call fun _ => id).bind
  intro _
  exact (ioResult_only _ _).bind fun _ => (Only.call fun _ => id).bind fun _ => ioResult_only _ _

/-- a save has written the job and renamed it into place, or it fails and has renamed nothing -/
theorem save_job_trace {job : JobProvenance} {r : Except (Stop CliError) Unit}
    (h : Run Step (saveJobProvenance stateDir job) fs t r fs') :
    (r = .ok () ∧ Committed (jobPath stateDir job.runId job.jobId).components t job) ∨
      (∃ e, r = .error e) ∧ ∀ e ∈ t, ¬Event.renamed e := by
  cases run_save_job h with
  | noParent => exact .inr ⟨⟨_, rfl⟩, List.forall_mem_nil _⟩
  | noDirectory => exact .inr ⟨⟨_, rfl⟩, by simp [Event.renamed]⟩
  | notCreated => exact .inr ⟨⟨_, rfl⟩, by simp [Event.renamed]⟩
  | notWritten made created written removed =>
    refine .inr ⟨⟨_, rfl⟩, ?_⟩
    have hquiet := (writeAndSync_only _ _).mem written
    simp only [List.forall_mem_cons, List.forall_mem_append]
    exact ⟨id, id, id, hquiet, id, List.forall_mem_nil _⟩
  | notRenamed made created written removed =>
    refine .inr ⟨⟨_, rfl⟩, ?_⟩
    have hquiet := (writeAndSync_only _ _).mem written
    simp only [List.forall_mem_cons, List.forall_mem_append]
    exact ⟨id, id, id, hquiet, id, id, List.forall_mem_nil _⟩
  | saved made created written renamed =>
    rcases run_writeAndSync written with ⟨-, rfl, -⟩ | ⟨_, ⟨⟩, -⟩
    exact .inl ⟨rfl, _, .tail _ (.tail _ (.tail _ (.head _))),
      .tail _ (.tail _ (.tail _ (.tail _ (.tail _ (.head _)))))⟩

/-- a save that goes through has written the job and renamed it into place -/
theorem save_job_commits {job : JobProvenance} (h : Run Step (saveJobProvenance stateDir job) fs t (.ok ()) fs') :
    Committed (jobPath stateDir job.runId job.jobId).components t job := by
  rcases save_job_trace h with ⟨-, hcommitted⟩ | ⟨⟨e, he⟩, -⟩
  · exact hcommitted
  · cases he

end

/-! ## The command's runs -/

section
variable {stateDir : PathBuf} {runId action jobId : String} {fs fs' : FileSystem} {t : Trace}

/-- a command ends as its action does, and after a failure it has printed what could then be read -/
theorem run_ended {ended : Ended}
    (h : Run Step (executeRunAction lib stateDir runId action jobId) fs t (.ok ended) fs') :
    ∃ (acted : Except CliError JobProvenance) (t₁ t₂ : Trace) (u : FileSystem), t = t₁ ++ t₂ ∧
      Run Step (runActionWithClient lib stateDir runId action jobId) fs t₁ (acted.mapError .err) u ∧
      ended.result = acted.map (fun _ => ()) ∧
      ∀ error, acted = .error error → ∀ job ∈ ended.stdout, Earlier lib stateDir runId jobId u job := by
  obtain ⟨acted, t₁, u, t₂, hact, h₁, rfl⟩ := run_bind_ok.1 h
  refine ⟨acted, t₁, t₂, u, rfl, run_attempt_ok.1 hact, ?_⟩
  cases acted with
  | ok provenance =>
    obtain ⟨-, hended, -⟩ := run_pure.1 h₁
    cases hended
    exact ⟨rfl, fun _ he => by cases he⟩
  | error error =>
    obtain ⟨loaded, t₃, v, t₄, hload, h₂, rfl⟩ := run_bind_ok.1 h₁
    cases loaded with
    | ok provenance =>
      obtain ⟨-, hended, -⟩ := run_pure.1 h₂
      cases hended
      refine ⟨rfl, ?_⟩
      intro _ _ job hjob
      rw [List.mem_singleton.1 hjob]
      exact run_loadJob lib (run_attempt_ok.1 hload)
    | error _ =>
      obtain ⟨-, hended, -⟩ := run_pure.1 h₂
      cases hended
      exact ⟨rfl, fun _ _ job hjob => (List.not_mem_nil hjob).elim⟩

/-- the action runs in the working directory, if that can be told -/
theorem runAction_cases {r : Except (Stop CliError) JobProvenance}
    (h : Run Step (runActionWithClient lib stateDir runId action jobId) fs t r fs') :
    (fs' = fs ∧ (∃ e, r = .error e) ∧ ∀ e ∈ t, Event.looking e) ∨
      ∃ workspaceBase t₁ t₂, t = t₁ ++ t₂ ∧ (∀ e ∈ t₁, Event.looking e) ∧
        ActionRun lib workspaceBase stateDir runId action jobId fs t₂ r fs' := by
  obtain ⟨directory, u, t₁, hu, h₁, rfl⟩ := run_sys_bind.1 h
  obtain rfl : u = fs := hu
  rcases run_io_bind.1 h₁ with ⟨workspaceBase, -, h₂⟩ | ⟨e, -, rfl, rfl, rfl⟩
  · exact .inr ⟨workspaceBase, [_], t₁, rfl, fun _ he => List.mem_singleton.1 he ▸ trivial, runAction_run lib h₂⟩
  · exact .inl ⟨rfl, ⟨_, rfl⟩, fun _ he => List.mem_singleton.1 he ▸ trivial⟩

/-- a job that was not there before a save is the one that the save committed -/
theorem Saves.committed {saved job : JobProvenance} {out r : Except (Stop CliError) JobProvenance}
    (h : Saves stateDir saved out fs t r fs') (hrun : saved.runId = runId) (hjob : saved.jobId = jobId)
    (hread : Earlier lib stateDir runId jobId fs' job) :
    Earlier lib stateDir runId jobId fs job ∨
      job = saved ∧ r = out ∧ Committed (jobPath stateDir runId jobId).components t job := by
  subst hrun hjob
  obtain ⟨hr, hj, contents, hfile, hdecode⟩ := hread
  obtain ⟨hrw, -⟩ := slug_word hr
  obtain ⟨hjw, hne⟩ := slug_word hj
  obtain ⟨r₀, hsave, rfl⟩ := h
  have hpath := jobPath_components stateDir hrw hjw
  rcases save_job_spec hrw hjw hne hsave with ⟨rfl, hfiles⟩ | ⟨error, -, -, processId, hkept⟩
  · have hcontents : contents = .json (JobProvenance.codec.encode saved) := by
      rw [hpath, hfiles, Function.update_self] at hfile
      exact (Option.some.inj hfile).symm
    rw [hcontents, lib.fromStr_encode] at hdecode
    obtain rfl : saved = job := Except.ok.inj hdecode
    exact .inr ⟨rfl, rfl, save_job_commits hsave⟩
  · rw [hpath, hkept _ (jobTemporary_ne _ _ _ _).symm, ← hpath] at hfile
    exact .inl ⟨hr, hj, contents, hfile, hdecode⟩

/-- after an action that failed, what can be read could be read before, or is the failure that was recorded -/
theorem failed_action {job : JobProvenance} {error : CliError}
    (h : Run Step (runActionWithClient lib stateDir runId action jobId) fs t (.error (.err error)) fs')
    (hread : Earlier lib stateDir runId jobId fs' job) :
    Earlier lib stateDir runId jobId fs job ∨ OwnFailure (jobPath stateDir runId jobId).components t job := by
  rcases runAction_cases lib h with ⟨rfl, -, -⟩ | ⟨workspaceBase, t₁, t₂, rfl, -, hcases⟩
  · exact .inl hread
  -- the outcome as a variable, so that the cases of the action can be told apart
  generalize hout : (Except.error (Stop.err error) : Except (Stop CliError) JobProvenance) = r at hcases
  cases hcases with
  | refused checked => exact .inl hread
  | @unbuilt state service prepared _ t₃ t₄ t₅ _ _ checked built saves =>
    obtain ⟨-, -, -, -, hcheck, -⟩ := prepareAction_ok lib checked
    obtain ⟨_, closure, bindings, -, rfl⟩ := (checkAction_ok lib hcheck).initial
    rcases saves.committed lib rfl rfl hread with hearlier | ⟨rfl, -, hcommitted⟩
    · exact .inl hearlier
    refine .inr ⟨hcommitted.mono ?_, rfl⟩
    intro e he
    exact List.mem_append_right _ (List.mem_append_right _ (List.mem_append_right _ he))
  | @asked state service prepared saved request answer out _ t₃ t₄ t₅ _ checked built recorded saves =>
    obtain ⟨-, -, -, -, hcheck, -⟩ := prepareAction_ok lib checked
    obtain ⟨_, closure, bindings, -, hinitial⟩ := (checkAction_ok lib hcheck).initial
    obtain ⟨hrun, hjob, -⟩ := recorded.runId
    rcases saves.committed lib (by rw [hrun, hinitial]; rfl) (by rw [hjob, hinitial]; rfl) hread with
      hearlier | ⟨rfl, rfl, hcommitted⟩
    · exact .inl hearlier
    refine .inr ⟨hcommitted.mono ?_, ?_⟩
    · intro e he
      exact List.mem_append_right _ (List.mem_append_right _ (List.mem_append_right _ (List.mem_cons_of_mem _ he)))
    · -- a success that was committed would have been returned
      rw [← Bool.not_eq_true, recorded.success_iff]
      intro hreturned
      obtain ⟨returned, hreturned⟩ := hreturned
      cases hout.trans hreturned

end

/-- what is there already is printed when the working directory cannot be told, and nothing is written -/
theorem Earlier.reported {stateDir : PathBuf} {runId jobId : String} {fs : FileSystem} {job : JobProvenance}
    (h : Earlier lib stateDir runId jobId fs job) (action : String) :
    ∃ t, Run Step (executeRunAction lib stateDir runId action jobId) fs t
        (.ok ⟨[job], .error (.io "current_dir" otherError)⟩) fs ∧ ∀ e ∈ t, Event.looking e := by
  obtain ⟨t, hload⟩ := h.loads lib
  have hact : Run Step (runActionWithClient lib stateDir runId action jobId) fs
      [⟨.currentDir, .error otherError⟩] (.error (.err (.io "current_dir" otherError))) fs :=
    run_sys_bind.2 ⟨.error otherError, fs, [], rfl, run_io_bind.2 (.inr ⟨otherError, rfl, rfl, rfl, rfl⟩), rfl⟩
  refine ⟨[⟨.currentDir, .error otherError⟩] ++ (t ++ []), ?_, ?_⟩
  · refine run_bind_ok.2 ⟨.error _, _, fs, _, run_attempt_ok.2 hact, ?_, rfl⟩
    exact run_bind_ok.2 ⟨.ok job, _, fs, _, run_attempt_ok.2 hload, run_pure.2 ⟨rfl, rfl, rfl⟩, rfl⟩
  · intro e he
    rw [List.append_nil, List.singleton_append, List.mem_cons] at he
    rcases he with rfl | he
    · trivial
    · exact (loadJobProvenance_only lib).mem hload e he

/-- over a job that is there already, and is not missed, every action is refused -/
theorem Earlier.refused {stateDir : PathBuf} {runId action jobId : String} {fs fs' : FileSystem} {t : Trace}
    {job : JobProvenance} {r : Except (Stop CliError) JobProvenance}
    (h : Earlier lib stateDir runId jobId fs job)
    (hrun : Run Step (runActionWithClient lib stateDir runId action jobId) fs t r fs') (hseen : Seen fs t) :
    fs' = fs ∧ ∃ e, r = .error e := by
  obtain ⟨-, -, contents, hfile, -⟩ := h
  rcases runAction_cases lib hrun with ⟨hsame, hfailed, -⟩ | ⟨workspaceBase, t₁, t₂, rfl, -, hcases⟩
  · exact ⟨hsame, hfailed⟩
  -- an action that goes on was told that there is no such job
  have hthere : ⟨.pathExists (jobPath stateDir runId jobId).components, false⟩ ∉ t₂ := fun hm =>
    nomatch hfile.symm.trans (hseen.absent (List.mem_append_right _ hm))
  cases hcases with
  | refused => exact ⟨rfl, _, rfl⟩
  | unbuilt checked => exact (hthere (List.mem_append_left _ (prepareAction_ok lib checked).2.2.2.2.2)).elim
  | asked checked => exact (hthere (List.mem_append_left _ (prepareAction_ok lib checked).2.2.2.2.2)).elim

/-- then the command fails, and prints nothing but that job -/
theorem Earlier.only_reported {stateDir : PathBuf} {runId action jobId : String} {fs fs' : FileSystem} {t : Trace}
    {job : JobProvenance} {ended : Ended} (h : Earlier lib stateDir runId jobId fs job)
    (hrun : Run Step (executeRunAction lib stateDir runId action jobId) fs t (.ok ended) fs') (hseen : Seen fs t) :
    (∃ error, ended.result = .error error) ∧ ∀ printed ∈ ended.stdout, printed = job := by
  obtain ⟨acted, t₁, t₂, u, rfl, hact, hresult, hread⟩ := run_ended lib hrun
  obtain ⟨rfl, e, he⟩ := h.refused lib hact hseen.front
  cases acted with
  | ok => cases he
  | error error =>
    refine ⟨⟨error, hresult⟩, ?_⟩
    intro printed hprinted
    obtain ⟨-, -, contents, hfile, hdecode⟩ := h
    obtain ⟨-, -, contents', hfile', hdecode'⟩ := hread error rfl printed hprinted
    obtain rfl : contents = contents' := Option.some.inj (hfile.symm.trans hfile')
    exact Except.ok.inj (hdecode'.symm.trans hdecode)

/-- **A failing command reports its own failure, over a fresh job id.** Whatever the store holds and the client answers,
what a `run-action` that ends in an error has printed is a failure that it recorded itself, if and only if no job can be
read under its ids beforehand. -/
theorem failure_reports_own_job (stateDir : PathBuf) (runId action jobId : String) (fs : FileSystem) :
    (∀ t ended fs' error, Run Step (executeRunAction lib stateDir runId action jobId) fs t (.ok ended) fs' →
        ended.result = .error error →
          ∀ job ∈ ended.stdout, OwnFailure (jobPath stateDir runId jobId).components t job) ↔
      ¬∃ job, Earlier lib stateDir runId jobId fs job := by
  refine ⟨?_, ?_⟩
  · intro hall hearlier
    obtain ⟨job, hearlier⟩ := hearlier
    obtain ⟨t, hrun, hlooking⟩ := hearlier.reported lib action
    obtain ⟨temporary, hwritten, -⟩ := (hall _ _ _ _ hrun rfl job (List.mem_singleton_self _)).written
    exact hlooking _ hwritten
  · intro hfresh t ended fs' error hrun herror job hjob
    obtain ⟨acted, t₁, t₂, u, rfl, hact, hresult, hread⟩ := run_ended lib hrun
    cases acted with
    | ok => cases herror.symm.trans hresult
    | error error' =>
      rcases failed_action lib hact (hread error' rfl job hjob) with hearlier | hown
      · exact absurd ⟨job, hearlier⟩ hfresh
      · exact ⟨hown.written.mono (List.subset_append_left _ _), hown.failed⟩

/-- the action of `demo` a second time, under the id of the job that succeeded -/
def repeated : Trace × Except (Stop CliError) Ended × FileSystem :=
  exec (perform cleanEvaluation)
    (executeRunAction .standard (.ofStr "runs") "demo-000000000000" "evaluate" "job-1") evaluated.2.2

/-- the second command ends in an error and prints the success of the first -/
theorem success_reported_again : ∃ ended error job, repeated.2.1 = .ok ended ∧ ended.result = .error error ∧
    job ∈ ended.stdout ∧ job.success = true := by
  have h : (repeated.2.1.toOption.any fun ended => !ended.result.isOk && ended.stdout.any (·.success)) = true := by
    decide +kernel
  cases hr : repeated.2.1 with
  | error e =>
    rw [hr] at h
    cases h
  | ok ended =>
    rw [hr] at h
    obtain ⟨hfailed, hprinted⟩ := Bool.and_eq_true_iff.1 h
    obtain ⟨job, hjob, hsuccess⟩ := List.any_eq_true.1 hprinted
    cases hresult : ended.result with
    | ok =>
      rw [hresult] at hfailed
      cases hfailed
    | error error => exact ⟨ended, error, job, rfl, hresult, hjob, hsuccess⟩

theorem repeated_reports_success :
    ¬∀ fs t ended fs' error,
      Run Step (executeRunAction .standard (.ofStr "runs") "demo-000000000000" "evaluate" "job-1") fs t (.ok ended) fs' →
        ended.result = .error error → ∀ job ∈ ended.stdout,
          OwnFailure (jobPath (.ofStr "runs") "demo-000000000000" "job-1").components t job := by
  intro h
  obtain ⟨ended, error, job, hended, herror, hjob, hsuccess⟩ := success_reported_again
  have hrun := run_perform repeated.eq_def.symm
  rw [hended] at hrun
  rw [(h _ _ _ _ _ hrun herror job hjob).failed] at hsuccess
  cases hsuccess

end PhenoCompose
