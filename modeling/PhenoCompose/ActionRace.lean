/-
Processes that run an action under one job id.

The existence check and the rename that commits a job are two calls, with the evaluation between them; a rename replaces
what is there. `Stage` is how far a call has come.

- `action_follows`: a call commits at most once, only after a check that found no job, and returns `Ok` only after it.
- `there_iff`: the job is there when it was there at the start or has been committed.
- `job_ids_single_use`: one process at most returns `Ok`, and a job that is there stays what it is, exactly when no process
  commits it that has missed it in its check, or that another one got ahead of after its check.
-/
import PhenoCompose.ActionResults
import PhenoCompose.Core.CheckThenAct
import PhenoCompose.Core.Interleave

namespace PhenoCompose

open Core.CheckThenAct Core.Collections Core.Interleave Core.Json Core.Path Core.Process Core.Text Core.Transition

variable (lib : Externals)

/-! ## Processes -/

/-- what calls for one job may differ in -/
structure ActionCall where
  workspaceBase : PathBuf
  actionName : String

def actionCall (stateDir : PathBuf) (runId jobId : String) (c : ActionCall) : Proc CliError JobProvenance :=
  runActionWithClientAt lib c.workspaceBase stateDir runId c.actionName jobId

/-- a call of one process, which has its own id -/
def ProcessStep {ι : Type} (processIds : ι → UInt32) (i : ι) (fs : FileSystem) (call : SysCall) (answer : Answer call)
    (fs' : FileSystem) : Prop :=
  Step fs call answer fs' ∧ ∀ id, (⟨call, answer⟩ : Event Answer) = ⟨.processId, id⟩ → id = processIds i

abbrev ActionOutcome := Except (Stop CliError) JobProvenance

abbrev Processes (ι : Type) := Pool FileSystem ι ActionCall (Proc CliError JobProvenance)

abbrev ProcessLabel (ι : Type) := Label Answer ι ActionCall ActionOutcome

abbrev ProcessTurn {ι : Type} [DecidableEq ι] (processIds : ι → UInt32) (stateDir : PathBuf) (runId jobId : String) :
    Processes ι → ProcessLabel ι → Processes ι → Prop :=
  Turn (programs (actionCall lib stateDir runId jobId)) (ProcessStep processIds)

/-! ## The stages of a call -/

inductive Stage where
  | unchecked
  | entitled
  | committed

/-- a call that leaves the file of the job alone -/
def Spares (job : Location) : Event Answer → Prop
  | ⟨.readToString _, _⟩ | ⟨.readDir _, _⟩ | ⟨.pathExists _, _⟩ | ⟨.currentDir, _⟩ | ⟨.evaluation _, _⟩
  | ⟨.processId, _⟩ | ⟨.createDirAll _, _⟩ | ⟨.syncAll _, _⟩ => True
  | ⟨.createNew file, _⟩ | ⟨.writeAll file _, _⟩ | ⟨.removeFile file, _⟩ => file ≠ job
  | ⟨.rename _ _, a⟩ => ∃ e, a = .error e
  | _ => False

def Stage.does (job : Location) : Stage → Event Answer → Stage → Prop
  | .unchecked, e, q => (Event.looking e ∧ q = .unchecked) ∨ (e = ⟨.pathExists job, false⟩ ∧ q = .entitled)
  | .entitled, e, q => (Spares job e ∧ q = .entitled) ∨ ((∃ from_, e = ⟨.rename from_ job, .ok ()⟩) ∧ q = .committed)
  | .committed, _, _ => False

def Stage.ends {α : Type} (q : Stage) (r : Except (Stop CliError) α) : Prop := q = .committed ∨ ∃ e, r = .error e

def stages (job : Location) : Behaviour Answer ActionCall ActionOutcome Stage :=
  ⟨fun _ => .unchecked, Stage.does job, Stage.ends⟩

theorem Stage.ends_error {α β : Type} (q : Stage) (e : Stop CliError) (_ : q.ends (.error e : Except (Stop CliError) α)) :
    q.ends (.error e : Except (Stop CliError) β) := .inr ⟨e, rfl⟩

section
variable {job : Location}

theorem Event.looking.spares {e : Event Answer} (h : Event.looking e) : Spares job e := by
  obtain ⟨call, a⟩ := e
  cases call
  case readToString | readDir | pathExists | currentDir => trivial
  all_goals exact h.elim

/-- going on after a call that spares the job -/
theorem follows_sparing {α : Type} {call : SysCall} {f : Answer call → Proc CliError α}
    {ends : Stage → Except (Stop CliError) α → Prop} (hcall : ∀ a, Spares job ⟨call, a⟩)
    (hf : ∀ a, Follows (Stage.does job) ends (f a) .entitled) :
    Follows (Stage.does job) ends (sys call >>= f) .entitled :=
  fun a => ⟨.entitled, .inl ⟨hcall a, rfl⟩, hf a⟩

theorem follows_io {α : Type} {code : String} {x : Except IoError Unit} {f : Unit → Proc CliError α} {q : Stage}
    (hf : Follows (Stage.does job) Stage.ends (f ()) q) :
    Follows (Stage.does job) Stage.ends (ioResult code x >>= f) q := by
  cases x with
  | ok => exact hf
  | error e => exact Or.inr ⟨_, rfl⟩

end

/-- a job record that goes to the file of these ids -/
structure Named (runId jobId : String) (job : JobProvenance) : Prop where
  run_word : isWord runId = true
  job_word : isWord jobId = true
  job_ne : jobId ≠ ""
  run : job.runId = runId
  job : job.jobId = jobId

section
variable {stateDir : PathBuf} {runId jobId : String}

/-- the checks let a call through only when they found no job -/
theorem prepare_follows (actionName : String) :
    Follows (Stage.does (jobLocation stateDir runId jobId))
      (fun q r => (q = .entitled ∧ ∃ state service job, r = .ok (state, service, job) ∧ Named runId jobId job) ∨
        ∃ e, r = .error e)
      (prepareAction lib stateDir runId actionName jobId) .unchecked := by
  refine Follows.lift_bind (fun _ hr => ?_) fun e _ => .inr ⟨e, rfl⟩
  refine Follows.lift_bind (fun _ hj => ?_) fun e _ => .inr ⟨e, rfl⟩
  obtain ⟨hrw, -⟩ := slug_word hr
  obtain ⟨hjw, hne⟩ := slug_word hj
  refine Follows.bind (E := fun q _ => q = .unchecked)
    (Follows.only (loadState_only lib _ _) (fun e he => .inl ⟨he, rfl⟩) fun _ => rfl) ?_ fun _ e _ => .inr ⟨e, rfl⟩
  intro q state hq
  rw [hq]
  refine Follows.lift_bind (fun found hfound => ?_) fun e _ => .inr ⟨e, rfl⟩
  obtain ⟨action, closure, bindings, -, hinitial⟩ := (checkAction_ok lib hfound).initial
  have hnamed : Named runId jobId found.2 := ⟨hrw, hjw, hne, by rw [hinitial]; rfl, by rw [hinitial]; rfl⟩
  rw [jobPath_components stateDir hrw hjw]
  intro present
  cases present with
  | true => exact ⟨.unchecked, .inl ⟨trivial, rfl⟩, .inr ⟨_, rfl⟩⟩
  | false => exact ⟨.entitled, .inr ⟨rfl, rfl⟩, .inl ⟨rfl, state, found.1, found.2, rfl, hnamed⟩⟩

/-- a save commits once, or fails -/
theorem save_follows {saved : JobProvenance} (h : Named runId jobId saved) :
    Follows (Stage.does (jobLocation stateDir runId jobId)) Stage.ends (saveJobProvenance stateDir saved)
      .entitled := by
  have hspares : ∀ processId,
      jobTemporaryLocation stateDir runId jobId processId ≠ jobLocation stateDir runId jobId :=
    fun processId => jobTemporary_ne stateDir runId jobId processId
  have hgiveUp : ∀ (processId : UInt32) (error : CliError), Follows (Stage.does (jobLocation stateDir runId jobId))
      (Stage.ends (α := Unit)) (do
        let _ ← sys (.removeFile (jobTemporaryLocation stateDir runId jobId processId))
        fail error) .entitled := by
    intro processId error
    refine follows_sparing (fun _ => hspares processId) fun _ => ?_
    exact Follows.fail (.inr ⟨_, rfl⟩)
  rw [saveJobProvenance]
  dsimp only
  rw [h.run, h.job, jobPath_parent stateDir h.run_word h.job_word, jobPath_components stateDir h.run_word h.job_word]
  dsimp only
  refine follows_sparing (fun _ => trivial) fun made => follows_io ?_
  refine follows_sparing (fun _ => trivial) fun processId => ?_
  rw [jobTemporary_components stateDir h.run_word h.job_word h.job_ne processId]
  refine follows_sparing (fun _ => hspares processId) fun created => follows_io ?_
  refine Follows.bind (E := fun q _ => q = .entitled) (Follows.attempt (E := fun q _ => q = .entitled)
    (Follows.only (F := Spares (jobLocation stateDir runId jobId)) ?_ (fun e he => .inl ⟨he, rfl⟩) fun _ => rfl)
    fun _ _ hq => hq) ?_ fun _ e _ => .inr ⟨e, rfl⟩
  · apply (Only.call fun _ => hspares processId).bind
    intro _
    exact (ioResult_only _ _).bind fun _ => (Only.call fun _ => trivial).bind fun _ => ioResult_only _ _
  · intro q written hq
    rw [hq]
    cases written with
    | error error => exact hgiveUp processId error
    | ok =>
      intro renamed
      cases renamed with
      | ok => exact ⟨.committed, .inr ⟨⟨_, rfl⟩, rfl⟩, .inl rfl⟩
      | error e => exact ⟨.entitled, .inl ⟨⟨e, rfl⟩, rfl⟩, hgiveUp processId _⟩

/-- a save, and then whatever is returned -/
theorem save_then_follows {saved : JobProvenance} (h : Named runId jobId saved)
    (out : Except (Stop CliError) JobProvenance) :
    Follows (Stage.does (jobLocation stateDir runId jobId)) Stage.ends (do
      saveJobProvenance stateDir saved
      liftM out) .entitled := by
  refine Follows.bind (save_follows h) ?_ Stage.ends_error
  intro q _ hq
  rcases hq with hq | ⟨e, he⟩
  · exact Follows.lift (.inl hq)
  · cases he

theorem persist_follows {job : JobProvenance} (h : Named runId jobId job) (error : CliError) :
    Follows (Stage.does (jobLocation stateDir runId jobId)) Stage.ends
      (persistJobFailure stateDir job error : Proc CliError JobProvenance) .entitled := by
  have hfailed : Named runId jobId (job.failed error) := { h with }
  exact save_then_follows hfailed (.error (.err error))

theorem finish_follows {job : JobProvenance} (h : Named runId jobId job) (request : EvaluationRequest)
    (answer : Except EvaluationFailure EvaluationResult) :
    Follows (Stage.does (jobLocation stateDir runId jobId)) Stage.ends (finishAction lib stateDir job request answer)
      .entitled := by
  unfold finishAction
  cases answer with
  | error failure =>
    have hreported : Named runId jobId (job.withFailure lib request failure) := { h with }
    exact persist_follows hreported failure.error
  | ok result =>
    -- what the client reports does not rename the record
    have hreported : Named runId jobId (job.withResult lib request result) := { h with }
    refine Follows.bind (E := fun q _ => q = .entitled)
      (Follows.attempt (E := fun q _ => q = .entitled) (Follows.lift rfl) fun _ _ hq => hq) ?_ fun _ e _ => .inr ⟨e, rfl⟩
    intro q checked hq
    rw [hq]
    cases checked with
    | error error => exact persist_follows hreported error
    | ok =>
      dsimp only
      split_ifs
      · exact persist_follows hreported (rejection result)
      · have hsucceeded : Named runId jobId { job.withResult lib request result with success := true } :=
          { hreported with }
        exact save_then_follows hsucceeded (.ok { job.withResult lib request result with success := true })

end

/-- a call commits once, after a check that found no job, and returns `Ok` only after that -/
theorem action_follows (stateDir : PathBuf) (runId jobId : String) (c : ActionCall) :
    Follows (Stage.does (jobLocation stateDir runId jobId)) Stage.ends (actionCall lib stateDir runId jobId c)
      .unchecked := by
  refine Follows.bind (prepare_follows lib c.actionName) ?_ fun _ e _ => .inr ⟨e, rfl⟩
  intro q prepared hq
  rcases hq with ⟨rfl, state, service, job, he, hnamed⟩ | ⟨e, he⟩
  · cases he
    refine Follows.bind (E := fun q _ => q = .entitled) (Follows.attempt (E := fun q _ => q = .entitled)
      (Follows.only (build_only c.workspaceBase stateDir state job service) (fun e he => .inl ⟨he.spares, rfl⟩)
        fun _ => rfl) fun _ _ hq => hq) ?_ fun _ e _ => .inr ⟨e, rfl⟩
    intro q built hq
    rw [hq]
    cases built with
    | error error => exact persist_follows hnamed error
    | ok request =>
      have hrequested : Named runId jobId { job with outputRoot := request.outputRoot } := { hnamed with }
      exact follows_sparing (fun _ => trivial) fun answer => finish_follows lib hrequested request answer
  · cases he

/-! ## Checks, commits and returns -/

section
variable {ι : Type} (job : Location)

/-- whose commit of the job this is -/
def commitOf : ProcessLabel ι → Option ι
  | .event i _ ⟨.rename _ to_, .ok _⟩ => if to_ = job then some i else none
  | _ => none

/-- whose existence check this is, if it found no job -/
def checkOf : ProcessLabel ι → Option ι
  | .event i _ ⟨.pathExists file, false⟩ => if file = job then some i else none
  | _ => none

def returnedOk : ProcessLabel ι → Bool
  | .returns _ _ (.ok _) => true
  | _ => false

def commits (t : List (ProcessLabel ι)) : ℕ := t.countP fun l => (commitOf job l).isSome

def returnsOk (t : List (ProcessLabel ι)) : ℕ := t.countP returnedOk

/-- nobody commits between a process's existence check and its own commit -/
def Undisturbed (t : List (ProcessLabel ι)) : Prop :=
  ∀ i t₁ l₁ t₂ l₂ t₃, t = t₁ ++ l₁ :: (t₂ ++ l₂ :: t₃) → checkOf job l₁ = some i → commitOf job l₂ = some i →
    commits job t₂ = 0

/-- nobody commits after an existence check of its own that missed the job: it was there at the start, or had been
committed -/
def Unmissed (fs : FileSystem) (t : List (ProcessLabel ι)) : Prop :=
  ∀ i t₁ l₁ t₂ l₂ t₃, t = t₁ ++ l₁ :: (t₂ ++ l₂ :: t₃) → checkOf job l₁ = some i → commitOf job l₂ = some i →
    fs.files job = none ∧ commits job t₁ = 0

/-- what one process does to the job: nothing; or it commits it, as it is entitled to; or it returns it -/
inductive Moves (v : Pool FileSystem ι ActionCall Stage) (l : ProcessLabel ι) (v' : Pool FileSystem ι ActionCall Stage)
    (i : ι) : Prop where
  | passes (uncommitting : commitOf job l = none) (unreturned : returnedOk l = false)
      (kept : v'.shared.files job = v.shared.files job)
      (entitled : ∀ c, v'.parties i = some (c, .entitled) →
        v.parties i = some (c, .entitled) ∨ checkOf job l = some i)
      (uncommitted : ∀ c, v'.parties i ≠ some (c, .committed))
  | commits {c : ActionCall} (committing : commitOf job l = some i) (unreturned : returnedOk l = false)
      (before : v.parties i = some (c, .entitled)) (after : v'.parties i = some (c, .committed))
      (there : v'.shared.files job ≠ none)
  | succeeds {c : ActionCall} (uncommitting : commitOf job l = none) (returned : returnedOk l = true)
      (before : v.parties i = some (c, .committed)) (after : v'.parties i = none)
      (kept : v'.shared.files job = v.shared.files job)

variable {job}

theorem Spares.keeps {fs fs' : FileSystem} {call : SysCall} {a : Answer call} (h : Spares job ⟨call, a⟩)
    (hs : Step fs call a fs') : fs'.files job = fs.files job := by
  have hput : ∀ (file : Location) c, file ≠ job → (fs.put file c).files job = fs.files job :=
    fun file c hne => FileSystem.put_files_ne fs c (Ne.symm hne)
  cases call
  case readToString => cases a <;> exact congrArg (FileSystem.files · job) hs.1
  case readDir =>
    cases a with
    | ok => exact congrArg (FileSystem.files · job) hs.1
    | error => exact congrArg (FileSystem.files · job) hs
  case pathExists => exact congrArg (FileSystem.files · job) hs.1
  case currentDir | evaluation | processId | syncAll => exact congrArg (FileSystem.files · job) hs
  case createDirAll =>
    cases a with
    | ok =>
      obtain ⟨rfl, -⟩ := hs
      rfl
    | error e =>
      obtain ⟨made, -, rfl⟩ := hs
      rfl
  case createNew file =>
    cases a with
    | ok => exact (congrArg (FileSystem.files · job) hs.1).trans (hput file _ h)
    | error e => exact congrArg (FileSystem.files · job) hs
  case writeAll file contents =>
    cases a with
    | ok => exact (congrArg (FileSystem.files · job) hs).trans (hput file _ h)
    | error e =>
      obtain ⟨torn, rfl⟩ := hs
      exact hput file _ h
  case removeFile file =>
    cases a with
    | ok => exact (congrArg (FileSystem.files · job) hs.1).trans (hput file _ h)
    | error e => exact congrArg (FileSystem.files · job) hs
  case rename =>
    obtain ⟨e, rfl⟩ := h
    exact congrArg (FileSystem.files · job) hs
  all_goals exact h.elim

theorem Spares.commitOf {e : Event Answer} (h : Spares job e) (i : ι) (c : ActionCall) :
    PhenoCompose.commitOf job (.event i c e) = none := by
  obtain ⟨call, a⟩ := e
  cases call
  case rename =>
    obtain ⟨e, rfl⟩ := h
    rfl
  all_goals rfl

/-! ## Single use -/

theorem commits_append (t₁ t₂ : List (ProcessLabel ι)) : commits job (t₁ ++ t₂) = commits job t₁ + commits job t₂ :=
  List.countP_append

theorem commits_cons (l : ProcessLabel ι) (t : List (ProcessLabel ι)) :
    commits job (l :: t) = commits job t + if (commitOf job l).isSome then 1 else 0 := List.countP_cons

/-- a check is not a commit -/
theorem commitOf_check {i : ι} {l : ProcessLabel ι} (h : checkOf job l = some i) : commitOf job l = none := by
  cases l with
  | invoke | returns => rfl
  | event j c e =>
    obtain ⟨call, a⟩ := e
    cases call
    case rename => cases h
    all_goals rfl

/-- the checks, commits and returns of the labels -/
def watch (job : Location) : Watch ι (ProcessLabel ι) := ⟨checkOf job, commitOf job, returnedOk, commitOf_check⟩

/-- the job is taken once its file is there -/
def view (job : Location) : View ι (Pool FileSystem ι ActionCall Stage) where
  taken v := v.shared.files job ≠ none
  entitled v i := ∃ c, v.parties i = some (c, .entitled)
  acted v i := ∃ c, v.parties i = some (c, .committed)

theorem Moves.moves {v v' : Pool FileSystem ι ActionCall Stage} {l : ProcessLabel ι} {i : ι} (h : Moves job v l v' i) :
    Core.CheckThenAct.Moves (watch job) (view job) v l v' i := by
  cases h with
  | passes uncommitting unreturned kept entitled uncommitted =>
    refine .passes uncommitting unreturned (fun hthere => ?_) (fun hi => ?_) (fun hi => ?_)
    · exact kept.trans_ne hthere
    · obtain ⟨c, hc⟩ := hi
      exact (entitled c hc).imp_left fun hbefore => ⟨c, hbefore⟩
    · obtain ⟨c, hc⟩ := hi
      exact uncommitted c hc
  | @commits c committing unreturned before after there =>
    refine .acts committing unreturned ⟨c, before⟩ (fun hi => ?_) there
    obtain ⟨c', hc'⟩ := hi
    cases after.symm.trans hc'
  | @succeeds c uncommitting returned before after kept =>
    refine .reports uncommitting returned (fun hthere => kept.trans_ne hthere) ⟨c, before⟩ (fun hi => ?_) (fun hi => ?_)
    all_goals
      obtain ⟨c', hc'⟩ := hi
      cases after.symm.trans hc'

section
variable {fs : FileSystem} {t : List (ProcessLabel ι)}

theorem Unmissed.watched (h : Unmissed job fs t) : (watch job).Unmissed t :=
  fun i t₁ l₁ t₂ l₂ t₃ ht hcheck hcommit => (h i t₁ l₁ t₂ l₂ t₃ ht hcheck hcommit).2

/-- one commit at most, of a job that was not there, neither misses it nor gets ahead of another -/
theorem one_commit (hstart : fs.files job = none) (h : commits job t ≤ 1) : Unmissed job fs t ∧ Undisturbed job t := by
  have hone := Watch.one_act (w := watch job) h
  exact ⟨fun i t₁ l₁ t₂ l₂ t₃ ht hcheck hcommit => ⟨hstart, hone.2 i t₁ l₁ t₂ l₂ t₃ ht hcheck hcommit⟩, hone.1⟩

end

variable [DecidableEq ι]

/-- where a process is after it has moved -/
theorem moved_self {P : Type} {fs : FileSystem} {parties : ι → Option (ActionCall × P)} {i : ι}
    {x y : Option (ActionCall × P)}
    (h : (⟨fs, Function.update parties i x⟩ : Pool FileSystem ι ActionCall P).parties i = y) : x = y :=
  (Function.update_self i x parties).symm.trans h

theorem stage_turn {processIds : ι → UInt32} {v v' : Pool FileSystem ι ActionCall Stage} {l : ProcessLabel ι}
    (h : Turn (stages job) (ProcessStep processIds) v l v') :
    ∃ i, (∀ j, j ≠ i → v'.parties j = v.parties j) ∧ Moves job v l v' i := by
  cases h with
  | @invoke i c hidle =>
    refine ⟨i, fun j hj => Function.update_of_ne hj _ _, .passes rfl rfl rfl ?_ ?_⟩
    all_goals
      intro c' he
      cases moved_self he
  | @event i c x y e fs hin hdoes hstep =>
    refine ⟨i, fun j hj => Function.update_of_ne hj _ _, ?_⟩
    obtain ⟨call, a⟩ := e
    cases x with
    | unchecked =>
      rcases hdoes with ⟨hlooking, rfl⟩ | ⟨he, rfl⟩
      · refine .passes (hlooking.spares.commitOf i c) rfl (hlooking.spares.keeps hstep.1) ?_ ?_
        all_goals
          intro c' he
          cases moved_self he
      · cases he
        obtain ⟨rfl, -⟩ := hstep.1
        refine .passes rfl rfl rfl (fun _ _ => .inr (if_pos rfl)) ?_
        intro c' he
        cases moved_self he
    | entitled =>
      rcases hdoes with ⟨hspares, rfl⟩ | ⟨⟨from_, he⟩, rfl⟩
      · refine .passes (hspares.commitOf i c) rfl (hspares.keeps hstep.1) ?_ ?_
        · intro c' he
          cases moved_self he
          exact .inl hin
        · intro c' he
          cases moved_self he
      · cases he
        obtain ⟨contents, -, rfl, -⟩ := hstep.1
        refine .commits (if_pos rfl) rfl hin (Function.update_self ..) ?_
        rw [FileSystem.put_files_same]
        exact nofun
    | committed => exact hdoes.elim
  | @returns i c x r hin hends =>
    refine ⟨i, fun j hj => Function.update_of_ne hj _ _, ?_⟩
    cases r with
    | ok returned =>
      rcases hends with rfl | ⟨e, he⟩
      · exact .succeeds rfl rfl hin (Function.update_self ..) rfl
      · cases he
    | error e =>
      refine .passes rfl rfl rfl ?_ ?_
      all_goals
        intro c' he
        cases moved_self he

variable {processIds : ι → UInt32} {fs : FileSystem} {t : List (ProcessLabel ι)}
  {v v' : Pool FileSystem ι ActionCall Stage}

theorem known_runs (h : Runs (Turn (stages job) (ProcessStep processIds)) (.quiet fs) t v) :
    Known (watch job) (view job) t v := by
  refine (known_start ?_ ?_).run ?_ h
  · intro i hi
    obtain ⟨c, hc⟩ := hi
    cases hc
  · intro i hi
    obtain ⟨c, hc⟩ := hi
    cases hc
  · intro v l v' hl
    obtain ⟨i, hothers, hmove⟩ := stage_turn hl
    refine ⟨i, fun j hj => ?_, hmove.moves⟩
    simp only [view, hothers j hj]
    exact ⟨id, id⟩

theorem kept_without_commit (h : Runs (Turn (stages job) (ProcessStep processIds)) v t v') (hnone : commits job t = 0) :
    v'.shared.files job = v.shared.files job := by
  induction h with
  | nil => rfl
  | @cons v u v' l t hl _ ih =>
    rw [commits_cons] at hnone
    obtain ⟨i, -, hmove⟩ := stage_turn hl
    have hrest := ih (by omega)
    cases hmove with
    | passes _ _ kept => exact hrest.trans kept
    | commits committing =>
      rw [committing] at hnone
      exact absurd hnone (Nat.succ_ne_zero _)
    | succeeds _ _ _ _ kept => exact hrest.trans kept

/-- the job is there when it was there at the start, or has been committed -/
theorem there_iff (h : Runs (Turn (stages job) (ProcessStep processIds)) (.quiet fs) t v) :
    v.shared.files job ≠ none ↔ fs.files job ≠ none ∨ commits job t ≠ 0 := by
  refine ⟨fun hthere => ?_, fun hbefore => ?_⟩
  · by_cases hnone : commits job t = 0
    · exact .inl ((kept_without_commit h hnone).symm.trans_ne hthere)
    · exact .inr hnone
  · rcases hbefore with hstart | hcommits
    · -- no move takes the job away
      refine h.invariant (P := (view (ι := ι) job).taken) (fun v l v' hthere hl => ?_) hstart
      obtain ⟨i, -, hmove⟩ := stage_turn hl
      exact hmove.moves.taken hthere
    · exact (known_runs h).taken hcommits


/-- one process at most gets `Ok`, and once the job is there it stays what it is -/
structure SingleUse (turn : Processes ι → ProcessLabel ι → Processes ι → Prop) (job : Location) (fs : FileSystem)
    (t : List (ProcessLabel ι)) (u : Processes ι) : Prop where
  one_ok : returnsOk t ≤ 1
  never_replaced : ∀ t₁ v t₂, t = t₁ ++ t₂ → Runs turn (.quiet fs) t₁ v → Runs turn v t₂ u → v.shared.files job ≠ none →
    commits job t₂ = 0 ∧ u.shared.files job = v.shared.files job

variable {stateDir : PathBuf} {runId jobId : String} {u v : Processes ι}

/-- what is so of the stages is so of the processes -/
theorem process_there (h : Runs (ProcessTurn lib processIds stateDir runId jobId) (.quiet fs) t u) :
    u.shared.files (jobLocation stateDir runId jobId) ≠ none ↔
      fs.files (jobLocation stateDir runId jobId) ≠ none ∨ commits (jobLocation stateDir runId jobId) t ≠ 0 := by
  obtain ⟨w, hw, habstracts⟩ :=
    runs_follow (b := stages (jobLocation stateDir runId jobId)) (action_follows lib stateDir runId jobId) h
  rw [← habstracts.shared]
  exact there_iff hw

/-- where a job id is used once, a commit finds nothing in its place -/
theorem SingleUse.first
    (hsingle : SingleUse (ProcessTurn lib processIds stateDir runId jobId) (jobLocation stateDir runId jobId) fs
      t u)
    (h : Runs (ProcessTurn lib processIds stateDir runId jobId) (.quiet fs) t u) {t₁ t₂ : List (ProcessLabel ι)}
    {l : ProcessLabel ι} {i : ι} (ht : t = t₁ ++ l :: t₂)
    (hcommit : commitOf (jobLocation stateDir runId jobId) l = some i) :
    fs.files (jobLocation stateDir runId jobId) = none ∧ commits (jobLocation stateDir runId jobId) t₁ = 0 := by
  obtain ⟨v, hv, hrest⟩ := runs_append.1 (ht ▸ h)
  have hnone : ¬v.shared.files (jobLocation stateDir runId jobId) ≠ none := by
    intro hthere
    have hafter := (hsingle.never_replaced _ v _ ht hv hrest hthere).1
    rw [commits_cons, hcommit] at hafter
    exact absurd hafter (Nat.succ_ne_zero _)
  rw [process_there lib hv, not_or] at hnone
  exact ⟨not_not.1 hnone.1, not_not.1 hnone.2⟩

/-- no commit, no change -/
theorem process_kept (hv : Runs (ProcessTurn lib processIds stateDir runId jobId) (.quiet fs) t v)
    {t' : List (ProcessLabel ι)} (h : Runs (ProcessTurn lib processIds stateDir runId jobId) v t' u)
    (hnone : commits (jobLocation stateDir runId jobId) t' = 0) :
    u.shared.files (jobLocation stateDir runId jobId) = v.shared.files (jobLocation stateDir runId jobId) := by
  have hfollows := action_follows lib stateDir runId jobId
  obtain ⟨w, -, habstracts⟩ := runs_follow (b := stages (jobLocation stateDir runId jobId)) hfollows hv
  have hstep : ∀ u w l u', Abstracts (stages (jobLocation stateDir runId jobId)) u w →
      ProcessTurn lib processIds stateDir runId jobId u l u' →
      ∃ w', Turn (stages (jobLocation stateDir runId jobId)) (ProcessStep processIds) w l w' ∧
        Abstracts (stages (jobLocation stateDir runId jobId)) u' w' :=
    fun _ _ _ _ ha hl => ha.turn hfollows hl
  obtain ⟨w', hw', habstracts'⟩ := h.simulated hstep habstracts
  rw [← habstracts.shared, ← habstracts'.shared]
  exact kept_without_commit hw' hnone

/-- **A job id is used once exactly when nobody commits after missing the job, or after somebody got ahead.** Any number of
processes run actions under one job id, in any interleaving of their calls, and any existence check may be answered `false`.
One process at most gets `Ok` and the job, once there, is never replaced if and only if no process commits whose check had
missed the job, or had been made before another process's commit. -/
theorem job_ids_single_use (processIds : ι → UInt32) (stateDir : PathBuf) (runId jobId : String) {u : Processes ι}
    (h : Runs (ProcessTurn lib processIds stateDir runId jobId) (.quiet fs) t u) :
    SingleUse (ProcessTurn lib processIds stateDir runId jobId) (jobLocation stateDir runId jobId) fs t u ↔
      Unmissed (jobLocation stateDir runId jobId) fs t ∧ Undisturbed (jobLocation stateDir runId jobId) t := by
  refine ⟨?_, ?_⟩
  · intro hsingle
    refine ⟨?_, ?_⟩
    · intro i t₁ l₁ t₂ l₂ t₃ ht _ hcommit
      have ht' : t = (t₁ ++ l₁ :: t₂) ++ l₂ :: t₃ := by rw [ht]; simp
      obtain ⟨hstart, hbefore⟩ := hsingle.first lib h ht' hcommit
      rw [commits_append] at hbefore
      exact ⟨hstart, by omega⟩
    · intro i t₁ l₁ t₂ l₂ t₃ ht _ hcommit
      have ht' : t = (t₁ ++ l₁ :: t₂) ++ l₂ :: t₃ := by rw [ht]; simp
      have hbefore := (hsingle.first lib h ht' hcommit).2
      rw [commits_append, commits_cons] at hbefore
      omega
  · intro hcondition
    obtain ⟨hunmissed, hundisturbed⟩ := hcondition
    obtain ⟨w, hw, -⟩ :=
      runs_follow (b := stages (jobLocation stateDir runId jobId)) (action_follows lib stateDir runId jobId) h
    have hknown := known_runs hw
    obtain ⟨hone, hsuccesses⟩ := hknown.once hundisturbed hunmissed.watched
    refine ⟨hsuccesses, ?_⟩
    intro t₁ v t₂ ht hv hrest hthere
    have hone' : commits (jobLocation stateDir runId jobId) t₁ +
        commits (jobLocation stateDir runId jobId) t₂ ≤ 1 := by
      rw [← commits_append, ← ht]
      exact hone
    have hnone : commits (jobLocation stateDir runId jobId) t₂ = 0 := by
      rcases (process_there lib hv).1 hthere with hstart | hcommits
      · -- whoever commits has checked, and found what was there at the start
        by_contra hne
        have hcommits : commits (jobLocation stateDir runId jobId) t ≠ 0 := by
          rw [ht, commits_append]
          omega
        obtain ⟨i, t₁, l₁, t₂, l₂, t₃, ht', hcheck, hcommit⟩ := hknown.claimed hcommits
        exact hstart (hunmissed i t₁ l₁ t₂ l₂ t₃ ht' hcheck hcommit).1
      · omega
    exact ⟨hnone, process_kept lib hv hrest hnone⟩

end

/-! ## A race -/

def raceIds (i : Bool) : UInt32 := if i then 8 else 7

def raceScript (i : Bool) : Script := { cleanEvaluation with processId := raceIds i }

def raceCall : ActionCall := ⟨.ofStr "/work", "evaluate"⟩

def raceAction : Proc CliError JobProvenance :=
  actionCall .standard (.ofStr "runs") "demo-000000000000" "job-1" raceCall

abbrev RaceTurn : Processes Bool → ProcessLabel Bool → Processes Bool → Prop :=
  ProcessTurn .standard raceIds (.ofStr "runs") "demo-000000000000" "job-1"

theorem race_step (i : Bool) (fs : FileSystem) (call : SysCall) :
    ProcessStep raceIds i fs call (perform (raceScript i) fs call).1 (perform (raceScript i) fs call).2 := by
  refine ⟨perform_step (raceScript i) fs call, ?_⟩
  intro id he
  cases call
  case processId =>
    cases he
    rfl
  all_goals cases he

/-- the second process loads the state and finds no job -/
def raceCheck : List (Event Answer) × Prog Answer CliError JobProvenance × FileSystem :=
  execSome (perform (raceScript true)) 2 raceAction (runFiles demo)

/-- then the first makes all its calls -/
def raceFirst : List (Event Answer) × Prog Answer CliError JobProvenance × FileSystem :=
  execSome (perform (raceScript false)) 20 raceAction raceCheck.2.2

/-- and the second goes on -/
def raceSecond : List (Event Answer) × Prog Answer CliError JobProvenance × FileSystem :=
  execSome (perform (raceScript true)) 20 raceCheck.2.1 raceFirst.2.2

def endedOk : Proc CliError JobProvenance → Bool
  | .done (.ok _) => true
  | _ => false

theorem endedOk_iff {x : Proc CliError JobProvenance} (h : endedOk x = true) : ∃ job, x = .done (.ok job) := by
  cases x with
  | done r =>
    cases r with
    | ok job => exact ⟨job, rfl⟩
    | error e => cases h
  | call op next => cases h

theorem race_ends : endedOk raceFirst.2.1 = true ∧ endedOk raceSecond.2.1 = true := by
  have h : (endedOk raceFirst.2.1 && endedOk raceSecond.2.1) = true := by decide +kernel
  exact Bool.and_eq_true_iff.1 h

/-- the calls of both, and two returns -/
def raceLabels (first second : JobProvenance) : List (ProcessLabel Bool) :=
  .invoke true raceCall :: (raceCheck.1.map (.event true raceCall) ++ .invoke false raceCall ::
    (raceFirst.1.map (.event false raceCall) ++ .returns false raceCall (.ok first) ::
      (raceSecond.1.map (.event true raceCall) ++ [.returns true raceCall (.ok second)])))

theorem race_run : ∃ first second u, Runs RaceTurn (.quiet (runFiles demo)) (raceLabels first second) u := by
  obtain ⟨first, hfirst⟩ := endedOk_iff race_ends.1
  obtain ⟨second, hsecond⟩ := endedOk_iff race_ends.2
  obtain ⟨u₁, h₁, m₁⟩ : ∃ v, RaceTurn (.quiet (runFiles demo)) (.invoke true raceCall) v ∧ _ := plays_invoke _ rfl
  have hcheck : execSome (perform (raceScript true)) 2 raceAction u₁.shared = raceCheck := by
    rw [m₁.shared]
    exact raceCheck.eq_def.symm
  obtain ⟨u₂, h₂, m₂⟩ := plays_some (race_step true) m₁.self hcheck
  have hidle : u₂.parties false = none := (m₂.others false nofun).trans (m₁.others false nofun)
  obtain ⟨u₃, h₃, m₃⟩ : ∃ v, RaceTurn u₂ (.invoke false raceCall) v ∧ _ := plays_invoke _ hidle
  have hplay : execSome (perform (raceScript false)) 20 raceAction u₃.shared = raceFirst := by
    rw [m₃.shared, m₂.shared]
    exact raceFirst.eq_def.symm
  obtain ⟨u₄, h₄, m₄⟩ := plays_some (race_step false) m₃.self hplay
  have hdone : u₄.parties false = some (raceCall, .done (.ok first)) := by rw [m₄.self, hfirst]
  obtain ⟨u₅, h₅, m₅⟩ : ∃ v, RaceTurn u₄ (.returns false raceCall (.ok first)) v ∧ _ := plays_return hdone
  have hwaiting : u₅.parties true = some (raceCall, raceCheck.2.1) :=
    ((m₅.others true nofun).trans (m₄.others true nofun)).trans ((m₃.others true nofun).trans m₂.self)
  have hreplay : execSome (perform (raceScript true)) 20 raceCheck.2.1 u₅.shared = raceSecond := by
    rw [m₅.shared, m₄.shared]
    exact raceSecond.eq_def.symm
  obtain ⟨u₆, h₆, m₆⟩ := plays_some (race_step true) hwaiting hreplay
  have hdone' : u₆.parties true = some (raceCall, .done (.ok second)) := by rw [m₆.self, hsecond]
  obtain ⟨u₇, h₇, -⟩ : ∃ v, RaceTurn u₆ (.returns true raceCall (.ok second)) v ∧ _ := plays_return hdone'
  refine ⟨first, second, u₇, runs_cons.2 ⟨u₁, h₁, runs_append.2 ⟨u₂, h₂, runs_cons.2 ⟨u₃, h₃, ?_⟩⟩⟩⟩
  exact runs_append.2 ⟨u₄, h₄, runs_cons.2 ⟨u₅, h₅, runs_append.2 ⟨u₆, h₆, runs_one.2 h₇⟩⟩⟩

theorem returnsOk_events {ι : Type} (t : Trace) (i : ι) (c : ActionCall) :
    returnsOk (t.map (.event i c) : List (ProcessLabel ι)) = 0 := by
  rw [returnsOk, List.countP_eq_zero]
  intro l hl
  obtain ⟨e, -, rfl⟩ := List.mem_map.1 hl
  exact Bool.false_ne_true

theorem race_returns (first second : JobProvenance) : returnsOk (raceLabels first second) = 2 := by
  have happend : ∀ t₁ t₂ : List (ProcessLabel Bool), returnsOk (t₁ ++ t₂) = returnsOk t₁ + returnsOk t₂ :=
    fun _ _ => List.countP_append
  have hcons : ∀ (l : ProcessLabel Bool) t, returnsOk (l :: t) = returnsOk t + if returnedOk l then 1 else 0 :=
    fun _ _ => List.countP_cons
  simp only [raceLabels, hcons, happend, returnsOk_events]
  rfl

/-- two processes, with ids of their own, both run the action and return `Ok`; the file of the first is replaced -/
theorem both_processes_succeed : raceIds false ≠ raceIds true ∧
    ¬∀ t u, Runs RaceTurn (.quiet (runFiles demo)) t u →
      SingleUse RaceTurn (jobLocation (.ofStr "runs") "demo-000000000000" "job-1") (runFiles demo) t u := by
  refine ⟨by decide, fun hall => ?_⟩
  obtain ⟨first, second, u, hrun⟩ := race_run
  have hone := (hall _ u hrun).one_ok
  rw [race_returns] at hone
  omega

/-- one process makes the whole call -/
def loneCall (i : Bool) (fs : FileSystem) : Trace × ActionOutcome × FileSystem :=
  exec (perform (raceScript i)) raceAction fs

theorem lone_run (i : Bool) (fs : FileSystem) :
    Run (ProcessStep raceIds i) raceAction fs (loneCall i fs).1 (loneCall i fs).2.1 (loneCall i fs).2.2 :=
  run_exec (f := id) (race_step i) raceAction fs

/-- first the one process, and then the other -/
def turnLabels : List (ProcessLabel Bool) :=
  let first := loneCall false (runFiles demo)
  let second := loneCall true first.2.2
  (.invoke false raceCall :: (first.1.map (.event false raceCall) ++ [.returns false raceCall first.2.1])) ++
    (.invoke true raceCall :: (second.1.map (.event true raceCall) ++ [.returns true raceCall second.2.1]))

theorem turn_run : ∃ u, Runs RaceTurn (.quiet (runFiles demo)) turnLabels u := by
  have hidle : (Pool.quiet (runFiles demo) : Processes Bool).parties false = none := rfl
  obtain ⟨u₁, h₁, m₁⟩ : ∃ v, Runs RaceTurn (.quiet (runFiles demo)) _ v ∧ _ :=
    plays_alone (c := raceCall) hidle (lone_run false (runFiles demo))
  have hidle' : u₁.parties true = none := m₁.others true nofun
  have hrun : Run (ProcessStep raceIds true) raceAction u₁.shared
      (loneCall true (loneCall false (runFiles demo)).2.2).1 (loneCall true (loneCall false (runFiles demo)).2.2).2.1
      (loneCall true (loneCall false (runFiles demo)).2.2).2.2 := by
    rw [m₁.shared]
    exact lone_run true _
  obtain ⟨u₂, h₂, -⟩ : ∃ v, Runs RaceTurn u₁ _ v ∧ _ := plays_alone (c := raceCall) hidle' hrun
  exact ⟨u₂, runs_append.2 ⟨u₁, h₁, h₂⟩⟩

/-- the second process finds the job of the first, and is refused -/
theorem single_use_example : ∃ t u, Runs RaceTurn (.quiet (runFiles demo)) t u ∧ returnsOk t = 1 ∧
    (t.any fun | .returns true _ (.error _) => true | _ => false) = true ∧
    SingleUse RaceTurn (jobLocation (.ofStr "runs") "demo-000000000000" "job-1") (runFiles demo) t u := by
  have hlabels : returnsOk turnLabels = 1 ∧
      (turnLabels.any fun | .returns true _ (.error _) => true | _ => false) = true ∧
      commits (jobLocation (.ofStr "runs") "demo-000000000000" "job-1") turnLabels = 1 := by
    decide +kernel
  obtain ⟨u, hrun⟩ := turn_run
  have hstart : (runFiles demo).files (jobLocation (.ofStr "runs") "demo-000000000000" "job-1") = none := by
    decide +kernel
  exact ⟨turnLabels, u, hrun, hlabels.1, hlabels.2.1,
    (job_ids_single_use .standard raceIds (.ofStr "runs") "demo-000000000000" "job-1" hrun).2
      (one_commit hstart hlabels.2.2.le)⟩

end PhenoCompose
