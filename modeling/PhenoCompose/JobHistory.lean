/-
The jobs of a run over a history of actions, each of which may crash at any of its calls.

- `action_writes`: an action makes files in directories of jobs only, and writes only to what it has just made.
- `Invoked.done`: an action that ended or crashed has committed one job, or has touched temporary files only.
- `kept_history`: hence the directory of a run holds its committed jobs, and besides them only temporary files, unless a job
  has been committed over another one.
- `unreplaced_of_seen`: that happens only after an existence check that missed the job.
-/
import PhenoCompose.ActionRace
import PhenoCompose.Core.Crash
import PhenoCompose.Execute
import PhenoCompose.RunStore

namespace PhenoCompose

open Core.Collections Core.Crash Core.Interleave Core.Json Core.Path Core.Process Core.Text Core.Transition

variable (lib : Externals)

/-! ## What an action writes -/

/-- with the file just made, if it was the last call that made one: files are made at one depth, and written only then -/
def Writing (depth : ℕ) : Option Location → Event Answer → Option Location → Prop
  | _, ⟨.write _ _, _⟩, _ => False
  | _, ⟨.createDirAll directory, _⟩, made => made = none ∧ directory.length ≤ depth
  | _, ⟨.createNew file, .ok _⟩, made => made = some file ∧ file.length = depth + 1
  | made, ⟨.writeAll file _, _⟩, made' => made = some file ∧ made' = none
  | _, ⟨.rename _ to_, .ok _⟩, made => made = none ∧ to_.length = depth + 1
  | _, _, made => made = none

/-- the end of a call that has nothing left to write -/
def AtRest {α : Type} (made : Option Location) (_ : Except (Stop CliError) α) : Prop := made = none

section
variable {depth : ℕ}

theorem writing_looking {e : Event Answer} (h : Event.looking e) : Writing depth none e none := by
  obtain ⟨call, a⟩ := e
  cases call
  case readToString | readDir | pathExists | currentDir => rfl
  all_goals exact h.elim

theorem looking_writes {α : Type} {x : Proc CliError α} (h : Only Event.looking x) :
    Follows (Writing depth) AtRest x none :=
  Follows.only h (fun _ he => writing_looking he) fun _ => rfl

/-- going on after a call -/
theorem writing_next {α : Type} {call : SysCall} {f : Answer call → Proc CliError α} {made : Option Location}
    (h : ∀ a, ∃ made', Writing depth made ⟨call, a⟩ made' ∧ Follows (Writing depth) AtRest (f a) made') :
    Follows (Writing depth) AtRest (sys call >>= f) made := h

/-- going on after a call that neither makes nor writes a file -/
theorem writing_sys {α : Type} {call : SysCall} {f : Answer call → Proc CliError α}
    (hcall : ∀ a, Writing depth none ⟨call, a⟩ none) (hf : ∀ a, Follows (Writing depth) AtRest (f a) none) :
    Follows (Writing depth) AtRest (sys call >>= f) none :=
  fun a => ⟨none, hcall a, hf a⟩

theorem io_ok_bind {α β : Type} (code : String) (b : β) (f : β → Proc CliError α) :
    (ioResult code (.ok b) >>= f) = f b := rfl

theorem writing_io {α β : Type} {code : String} {x : Except IoError β} {f : β → Proc CliError α}
    (hf : ∀ b, Follows (Writing depth) AtRest (f b) none) :
    Follows (Writing depth) AtRest (ioResult code x >>= f) none := by
  cases x with
  | ok b => exact hf b
  | error e => exact Follows.fail rfl

theorem writing_bind {α β : Type} {x : Proc CliError α} {f : α → Proc CliError β}
    (hx : Follows (Writing depth) AtRest x none) (hf : ∀ a, Follows (Writing depth) AtRest (f a) none) :
    Follows (Writing depth) AtRest (x >>= f) none := by
  refine Follows.bind hx ?_ fun _ _ hq => hq
  intro q a hq
  rw [show q = none from hq]
  exact hf a

theorem writing_attempt {α : Type} {x : Proc CliError α} (hx : Follows (Writing depth) AtRest x none) :
    Follows (Writing depth) AtRest (attempt x : Proc CliError (Except CliError α)) none :=
  Follows.attempt hx fun _ _ hq => hq

end

section
variable {stateDir : PathBuf} {runId jobId : String}

/-- how deep the directories of jobs are -/
def jobsDepth (stateDir : PathBuf) : ℕ := stateDir.components.length + 1

theorem jobsLocation_length (stateDir : PathBuf) (runId : String) :
    (jobsLocation stateDir runId).length = jobsDepth stateDir := by
  simp [jobsLocation, jobsDepth]

theorem jobLocation_length (stateDir : PathBuf) (runId jobId : String) :
    (jobLocation stateDir runId jobId).length = jobsDepth stateDir + 1 := by
  simp [jobLocation, jobsLocation_length]

theorem jobTemporary_length (stateDir : PathBuf) (runId jobId : String) (processId : UInt32) :
    (jobTemporaryLocation stateDir runId jobId processId).length = jobsDepth stateDir + 1 := by
  simp [jobTemporaryLocation, jobsLocation_length]

theorem save_writes {saved : JobProvenance} (h : Named runId jobId saved) :
    Follows (Writing (jobsDepth stateDir)) AtRest (saveJobProvenance stateDir saved) none := by
  have hdirectory := jobsLocation_length stateDir runId
  have hjob := jobLocation_length stateDir runId jobId
  rw [saveJobProvenance]
  dsimp only
  rw [h.run, h.job, jobPath_parent stateDir h.run_word h.job_word, jobPath_components stateDir h.run_word h.job_word]
  dsimp only
  refine writing_sys (fun _ => ⟨rfl, hdirectory.le⟩) fun made => writing_io fun _ => ?_
  refine writing_sys (fun _ => rfl) fun processId => ?_
  rw [jobTemporary_components stateDir h.run_word h.job_word h.job_ne processId]
  refine writing_next fun created => ?_
  cases created with
  | error e => exact ⟨none, rfl, Follows.fail rfl⟩
  | ok =>
    refine ⟨some (jobTemporaryLocation stateDir runId jobId processId),
      ⟨rfl, jobTemporary_length stateDir runId jobId processId⟩, ?_⟩
    rw [io_ok_bind]
    refine Follows.bind (E := AtRest) (Follows.attempt (E := AtRest) ?_ fun _ _ hq => hq) ?_ fun _ _ hq => hq
    · refine writing_next fun written => ⟨none, ⟨rfl, rfl⟩, writing_io fun _ => ?_⟩
      exact writing_sys (fun _ => rfl) fun synced => looking_writes (ioResult_only _ _)
    · intro q written hq
      rw [show q = none from hq]
      cases written with
      | error e => exact writing_sys (fun _ => rfl) fun _ => Follows.fail rfl
      | ok =>
        refine writing_next fun renamed => ?_
        cases renamed with
        | ok => exact ⟨none, ⟨rfl, hjob⟩, Follows.pure rfl⟩
        | error e => exact ⟨none, rfl, writing_sys (fun _ => rfl) fun _ => Follows.fail rfl⟩

theorem save_then_writes {saved : JobProvenance} (h : Named runId jobId saved)
    (out : Except (Stop CliError) JobProvenance) :
    Follows (Writing (jobsDepth stateDir)) AtRest (do
      saveJobProvenance stateDir saved
      liftM out) none :=
  writing_bind (save_writes h) fun _ => Follows.lift rfl

theorem persist_writes {job : JobProvenance} (h : Named runId jobId job) (error : CliError) :
    Follows (Writing (jobsDepth stateDir)) AtRest
      (persistJobFailure stateDir job error : Proc CliError JobProvenance) none :=
  have hfailed : Named runId jobId (job.failed error) := { h with }
  save_then_writes hfailed (.error (.err error))

theorem finish_writes {job : JobProvenance} (h : Named runId jobId job) (request : EvaluationRequest)
    (answer : Except EvaluationFailure EvaluationResult) :
    Follows (Writing (jobsDepth stateDir)) AtRest (finishAction lib stateDir job request answer) none := by
  unfold finishAction
  cases answer with
  | error failure =>
    have hreported : Named runId jobId (job.withFailure lib request failure) := { h with }
    exact persist_writes hreported failure.error
  | ok result =>
    have hreported : Named runId jobId (job.withResult lib request result) := { h with }
    refine writing_bind (writing_attempt (Follows.lift rfl)) fun checked => ?_
    cases checked with
    | error error => exact persist_writes hreported error
    | ok =>
      dsimp only
      split_ifs
      · exact persist_writes hreported (rejection result)
      · have hsucceeded : Named runId jobId { job.withResult lib request result with success := true } :=
          { hreported with }
        exact save_then_writes hsucceeded (.ok { job.withResult lib request result with success := true })

/-- what the checks let through is named by the ids -/
theorem prepare_writes (actionName : String) :
    Follows (Writing (jobsDepth stateDir))
      (fun made r => made = none ∧ ∀ state service job, r = .ok (state, service, job) → Named runId jobId job)
      (prepareAction lib stateDir runId actionName jobId) none := by
  have hfailed : ∀ e : Stop CliError, (none : Option Location) = none ∧ ∀ state service job,
      (.error e : Except (Stop CliError) (RunState × Service × JobProvenance)) = .ok (state, service, job) →
        Named runId jobId job := fun _ => ⟨rfl, fun _ _ _ he => by cases he⟩
  refine Follows.lift_bind (fun _ hr => ?_) fun e _ => hfailed e
  refine Follows.lift_bind (fun _ hj => ?_) fun e _ => hfailed e
  obtain ⟨hrw, -⟩ := slug_word hr
  obtain ⟨hjw, hne⟩ := slug_word hj
  refine Follows.bind (looking_writes (loadState_only lib _ _)) ?_ fun q e hq => ⟨hq, (hfailed e).2⟩
  intro q state hq
  rw [show q = none from hq]
  refine Follows.lift_bind (fun found hfound => ?_) fun e _ => hfailed e
  obtain ⟨action, closure, bindings, -, hinitial⟩ := (checkAction_ok lib hfound).initial
  have hnamed : Named runId jobId found.2 := ⟨hrw, hjw, hne, by rw [hinitial]; rfl, by rw [hinitial]; rfl⟩
  intro present
  cases present with
  | true => exact ⟨none, rfl, hfailed _⟩
  | false =>
    refine ⟨none, rfl, rfl, ?_⟩
    intro state' service job he
    cases he
    exact hnamed

/-- an action makes files in directories of jobs only, and writes only to what it has just made -/
theorem action_writes (actionName : String) :
    Follows (Writing (jobsDepth stateDir)) AtRest (runActionWithClient lib stateDir runId actionName jobId)
      none := by
  refine writing_sys (fun _ => rfl) fun directory => writing_io fun workspaceBase => ?_
  refine Follows.bind (prepare_writes lib actionName) ?_ fun q e hq => hq.1
  intro q prepared hq
  obtain ⟨state, service, job⟩ := prepared
  have hnamed := hq.2 state service job rfl
  rw [hq.1]
  refine writing_bind (writing_attempt (looking_writes (build_only _ _ _ _ _))) fun built => ?_
  cases built with
  | error error => exact persist_writes hnamed error
  | ok request =>
    have hrequested : Named runId jobId { job with outputRoot := request.outputRoot } := { hnamed with }
    exact writing_sys (fun _ => rfl) fun answer => finish_writes lib hrequested request answer

end

/-! ## A directory of jobs -/

/-- a directory that holds finitely many files and no directory; it is there once it holds any -/
structure Orderly (directory : Location) (made : Option Location) (fs : FileSystem) : Prop where
  made : ∀ file, made = some file → fs.files file ≠ none ∧ file.length = directory.length + 1
  free : fs.files directory = none
  there : ∀ name, fs.files (directory ++ [name]) ≠ none → fs.dirs directory = true
  flat : ∀ name, fs.dirs (directory ++ [name]) = false
  finite : {name | fs.files (directory ++ [.normal name]) ≠ none}.Finite

section
variable {directory : Location} {made made' : Option Location} {fs fs' : FileSystem}

theorem Orderly.rests (h : Orderly directory made fs) : Orderly directory none fs :=
  { h with made := fun _ he => (Option.some_ne_none _ he.symm).elim }

/-- a file changes, at a place where its directory is there -/
theorem Orderly.put (h : Orderly directory made fs) {file : Location} {contents : Option Contents}
    (hplace : contents ≠ none →
      file.length = directory.length + 1 ∧ (file.dropLast = directory → fs.dirs directory = true)) :
    Orderly directory none (fs.put file contents) := by
  have hsubset : {name | (fs.put file contents).files (directory ++ [.normal name]) ≠ none} ⊆
      {name | fs.files (directory ++ [.normal name]) ≠ none} ∪ {name | directory ++ [.normal name] = file} := by
    intro name hname
    by_cases he : directory ++ [.normal name] = file
    · exact .inr he
    · left
      rwa [Set.mem_ofPred_eq, FileSystem.put_files_ne _ _ he] at hname
  have hone : {name | directory ++ [Component.normal name] = file}.Subsingleton := by
    intro name hname name' hname'
    simpa using hname.trans hname'.symm
  refine ⟨fun _ he => (Option.some_ne_none _ he.symm).elim, ?_, ?_, h.flat, (h.finite.union hone.finite).subset hsubset⟩
  · by_cases he : directory = file
    · rw [he, FileSystem.put_files_same]
      by_contra hne
      have hlength := (hplace hne).1
      rw [he] at hlength
      omega
    · rw [FileSystem.put_files_ne _ _ he]
      exact h.free
  · intro name hname
    by_cases he : directory ++ [name] = file
    · rw [he, FileSystem.put_files_same] at hname
      exact (hplace hname).2 (by rw [← he, List.dropLast_concat])
    · rw [FileSystem.put_files_ne _ _ he] at hname
      exact h.there name hname

theorem Orderly.addDirs (h : Orderly directory made fs) {d : Location} (hd : d.length ≤ directory.length) :
    Orderly directory none (fs.addDirs d) := by
  refine ⟨fun _ he => (Option.some_ne_none _ he.symm).elim, h.free, ?_, ?_, h.finite⟩
  · intro name hname
    simp [FileSystem.addDirs, h.there name hname]
  · intro name
    have hlong : (directory ++ [name]).isPrefixOf d = false := by
      rw [Bool.eq_false_iff, ne_eq, List.isPrefixOf_iff_prefix]
      intro hp
      have := hp.length_le
      rw [List.length_append, List.length_singleton] at this
      omega
    simp [FileSystem.addDirs, h.flat name, hlong]

/-- a file that was just made is in a directory that is there -/
theorem Orderly.place (h : Orderly directory made fs) {file : Location} (hmade : made = some file)
    (hdirectory : file.dropLast = directory) : fs.dirs directory = true := by
  obtain ⟨hpresent, hlength⟩ := h.made file hmade
  have hne : file ≠ [] := by
    rintro rfl
    simp at hlength
  have hlast : file.dropLast ++ [file.getLast hne] = file := List.dropLast_append_getLast hne
  rw [hdirectory] at hlast
  exact h.there _ (by rwa [hlast])

theorem parent_there (hne : directory ≠ []) {file : Location} (hparent : fs.hasParent file = true)
    (hdirectory : file.dropLast = directory) : fs.dirs directory = true := by
  rw [FileSystem.hasParent, hdirectory, Bool.or_eq_true, beq_iff_eq] at hparent
  exact hparent.resolve_left hne

/-- what an action does to the directory, call by call -/
theorem Orderly.step (hne : directory ≠ []) {call : SysCall} {a : Answer call} (h : Orderly directory made fs)
    (hdoes : Writing directory.length made ⟨call, a⟩ made') (hstep : Step fs call a fs') :
    Orderly directory made' fs' := by
  cases call with
  | podman | lifecycle | evaluation | clock | processId | syncAll =>
    obtain rfl : made' = none := hdoes
    rw [show fs' = fs from hstep]
    exact h.rests
  | pathExists | readToString | readDir | currentDir =>
    obtain rfl : made' = none := by cases a <;> exact hdoes
    obtain rfl : fs' = fs := Event.looking.keeps (by trivial) hstep
    exact h.rests
  | createDirAll d =>
    obtain ⟨rfl, hd⟩ : made' = none ∧ d.length ≤ directory.length := by cases a <;> exact hdoes
    cases a with
    | ok =>
      rw [hstep.1]
      exact h.addDirs hd
    | error =>
      obtain ⟨d', hd', rfl⟩ := hstep
      exact h.addDirs (hd'.length_le.trans hd)
  | write => cases a <;> exact hdoes.elim
  | createNew file =>
    cases a with
    | ok =>
      obtain ⟨rfl, hlength⟩ := hdoes
      obtain ⟨rfl, -, hp, -⟩ := hstep
      refine { h.put (fun _ => ⟨hlength, parent_there hne hp⟩) with made := ?_ }
      intro file' he
      cases he
      rw [FileSystem.put_files_same]
      exact ⟨Option.some_ne_none _, hlength⟩
    | error =>
      obtain rfl : made' = none := hdoes
      rw [show fs' = fs from hstep]
      exact h.rests
  | writeAll file contents =>
    obtain ⟨hmade, rfl⟩ : made = some file ∧ made' = none := by cases a <;> exact hdoes
    have hlength := (h.made file hmade).2
    cases a with
    | ok =>
      rw [show fs' = fs.put file (some contents) from hstep]
      exact h.put fun _ => ⟨hlength, h.place hmade⟩
    | error =>
      obtain ⟨torn, rfl⟩ := hstep
      exact h.put fun _ => ⟨hlength, h.place hmade⟩
  | rename from_ to_ =>
    cases a with
    | ok =>
      obtain ⟨rfl, hlength⟩ := hdoes
      obtain ⟨contents, -, rfl, hp, -⟩ := hstep
      exact (h.put fun hc => absurd rfl hc).put fun _ => ⟨hlength, parent_there hne hp⟩
    | error =>
      obtain rfl : made' = none := hdoes
      rw [show fs' = fs from hstep]
      exact h.rests
  | removeFile file =>
    obtain rfl : made' = none := by cases a <;> exact hdoes
    cases a with
    | ok =>
      rw [hstep.1]
      exact h.put fun hc => absurd rfl hc
    | error =>
      rw [show fs' = fs from hstep]
      exact h.rests

/-- a call that has neither written a file in full nor renamed one -/
def Event.unfinished : Event Answer → Prop
  | ⟨.writeAll _ _, .ok _⟩ | ⟨.rename _ _, .ok _⟩ => False
  | _ => True

/-- every call of an action can fail, or be answered, without a trace -/
theorem Orderly.fails {call : SysCall} (h : Orderly directory made fs)
    (hdoes : ∀ a, ∃ made', Writing directory.length made ⟨call, a⟩ made') :
    ∃ a, SeenStep fs call a fs ∧ Event.unfinished ⟨call, a⟩ := by
  cases call with
  | podman => exact ⟨.error otherError, ⟨rfl, id⟩, trivial⟩
  | lifecycle request => exact ⟨cleanEvaluation.lifecycle request, ⟨rfl, id⟩, trivial⟩
  | evaluation request => exact ⟨cleanEvaluation.evaluation request, ⟨rfl, id⟩, trivial⟩
  | clock => exact ⟨.error "", ⟨rfl, id⟩, trivial⟩
  | currentDir => exact ⟨.error otherError, ⟨rfl, id⟩, trivial⟩
  | processId => exact ⟨0, ⟨rfl, id⟩, trivial⟩
  | pathExists => exact ⟨_, seen_exists.2 ⟨rfl, rfl⟩, trivial⟩
  | readToString => exact ⟨.error otherError, ⟨⟨rfl, fun he => (Bool.false_ne_true he).elim⟩, id⟩, trivial⟩
  | readDir => exact ⟨.error otherError, ⟨rfl, id⟩, trivial⟩
  | createDirAll => exact ⟨.error otherError, ⟨⟨[], List.nil_prefix, (addDirs_nil fs).symm⟩, id⟩, trivial⟩
  | write =>
    obtain ⟨_, hnone⟩ := hdoes (.ok ())
    exact hnone.elim
  | createNew => exact ⟨.error otherError, ⟨rfl, id⟩, trivial⟩
  | writeAll file contents =>
    -- what the file holds already is a torn write, too
    obtain ⟨_, hmade, -⟩ := hdoes (.ok ())
    obtain ⟨old, hold⟩ := Option.ne_none_iff_exists'.1 (h.made file hmade).1
    refine ⟨.error otherError, ⟨⟨old, ?_⟩, id⟩, trivial⟩
    rw [FileSystem.put, ← hold, Function.update_eq_self]
  | syncAll => exact ⟨.error otherError, ⟨rfl, id⟩, trivial⟩
  | rename => exact ⟨.error otherError, ⟨rfl, id⟩, trivial⟩
  | removeFile => exact ⟨.error otherError, ⟨rfl, id⟩, trivial⟩

end

/-! ## One action -/

/-- the file that some process writes a job under before it is renamed -/
def JobTemporary (stateDir : PathBuf) (file : Location) : Prop :=
  ∃ runId jobId processId, isWord runId = true ∧ isWord jobId = true ∧ jobId ≠ "" ∧
    file = jobTemporaryLocation stateDir runId jobId processId

/-- what an action has done to the files: it has touched temporary ones only, or committed one job -/
inductive Done (stateDir : PathBuf) (runId jobId : String) (t : Trace) (fs fs' : FileSystem) : Prop where
  | spared (uncommitted : ∀ file job, ¬Committed file t job)
      (kept : ∀ l, ¬JobTemporary stateDir l → fs'.files l = fs.files l)
  | committed {saved : JobProvenance} (named : Named runId jobId saved)
      (commits : ∀ file job, Committed file t job ↔ file = jobLocation stateDir runId jobId ∧ job = saved)
      (files : fs'.files = Function.update fs.files (jobLocation stateDir runId jobId)
        (some (.json (JobProvenance.codec.encode saved))))

theorem Event.looking.unfinished {e : Event Answer} (h : Event.looking e) : Event.unfinished e := by
  obtain ⟨call, a⟩ := e
  cases call
  case writeAll | rename => exact h.elim
  all_goals trivial

/-- calls that wrote nothing in full and renamed nothing add nothing to what is committed -/
theorem committed_iff {t t' : Trace} (hsub : t' ⊆ t) (h : ∀ e ∈ t, e ∈ t' ∨ Event.unfinished e) (file : Location)
    (job : JobProvenance) : Committed file t job ↔ Committed file t' job := by
  refine ⟨?_, fun hcommitted => hcommitted.mono hsub⟩
  intro hcommitted
  obtain ⟨temporary, hwritten, hrenamed⟩ := hcommitted
  exact ⟨temporary, (h _ hwritten).resolve_right id, (h _ hrenamed).resolve_right id⟩

section
variable {stateDir : PathBuf} {runId actionName jobId : String} {fs fs' : FileSystem} {t t' : Trace}

theorem Done.of_iff (h : Done stateDir runId jobId t fs fs')
    (hiff : ∀ file job, Committed file t job ↔ Committed file t' job) : Done stateDir runId jobId t' fs fs' := by
  cases h with
  | spared uncommitted kept => exact .spared (fun file job hc => uncommitted file job ((hiff file job).2 hc)) kept
  | committed named commits files =>
    exact .committed named (fun file job => (hiff file job).symm.trans (commits file job)) files

/-- recording a job commits it, or leaves its temporary file -/
theorem Saves.done {saved : JobProvenance} {out r : Except (Stop CliError) JobProvenance}
    (h : Saves stateDir saved out fs t r fs') (hnamed : Named runId jobId saved) :
    Done stateDir runId jobId t fs fs' := by
  obtain ⟨hrw, hjw, hne, rfl, rfl⟩ := hnamed
  have hpath := jobPath_components stateDir hrw hjw
  obtain ⟨r₀, hsave, -⟩ := h
  have hsaving := (save_job_saving stateDir saved).mem hsave
  rcases save_job_spec hrw hjw hne hsave with ⟨rfl, hfiles⟩ | ⟨error, rfl, -, processId, hkept⟩
  · rcases save_job_trace hsave with ⟨-, hcommitted⟩ | ⟨⟨e, he⟩, -⟩
    swap
    · cases he
    rw [hpath] at hcommitted hsaving
    refine .committed ⟨hrw, hjw, hne, rfl, rfl⟩ ?_ hfiles
    intro file job
    refine ⟨?_, ?_⟩
    · intro hother
      obtain ⟨temporary, hwritten, hrenamed⟩ := hother
      have hcontents : Contents.json (JobProvenance.codec.encode job) = .json (JobProvenance.codec.encode saved) :=
        hsaving _ hwritten
      rw [Contents.json.injEq, Codec.encode_inj] at hcontents
      exact ⟨hsaving _ hrenamed, hcontents⟩
    · intro hsame
      obtain ⟨rfl, rfl⟩ := hsame
      exact hcommitted
  · rcases save_job_trace hsave with ⟨he, -⟩ | ⟨-, hunrenamed⟩
    · cases he
    refine .spared ?_ ?_
    · intro file job hcommitted
      obtain ⟨temporary, -, hrenamed⟩ := hcommitted
      exact hunrenamed _ hrenamed trivial
    · intro l hl
      refine hkept l ?_
      rintro rfl
      exact hl ⟨_, _, processId, hrw, hjw, hne, rfl⟩

/-- looking and asking, and then recording -/
theorem Saves.done_after {saved : JobProvenance} {out r : Except (Stop CliError) JobProvenance} {before : Trace}
    (h : Saves stateDir saved out fs t r fs') (hnamed : Named runId jobId saved)
    (hbefore : ∀ e ∈ before, Event.unfinished e) : Done stateDir runId jobId (before ++ t) fs fs' := by
  refine (h.done hnamed).of_iff fun file job => (committed_iff (List.subset_append_right _ _) ?_ file job).symm
  intro e he
  exact (List.mem_append.1 he).symm.imp_right (hbefore e)

theorem done_looking (h : ∀ e ∈ t, Event.looking e) : Done stateDir runId jobId t fs fs := by
  refine .spared ?_ fun _ _ => rfl
  intro file job hcommitted
  obtain ⟨temporary, -, hrenamed⟩ := hcommitted
  exact (h _ hrenamed).unfinished

/-- a job that passed the checks goes to the file of its ids, and there was said to be none -/
theorem prepared_named {state : RunState} {service : Service} {job : JobProvenance}
    (h : Run Step (prepareAction lib stateDir runId actionName jobId) fs t (.ok (state, service, job)) fs') :
    Named runId jobId job ∧ ⟨.pathExists (jobLocation stateDir runId jobId), false⟩ ∈ t := by
  obtain ⟨hr, hj, -, -, hcheck, hfound⟩ := prepareAction_ok lib h
  obtain ⟨_, closure, bindings, -, rfl⟩ := (checkAction_ok lib hcheck).initial
  obtain ⟨hrw, -⟩ := slug_word hr
  obtain ⟨hjw, hne⟩ := slug_word hj
  rw [jobPath_components stateDir hrw hjw] at hfound
  exact ⟨⟨hrw, hjw, hne, rfl, rfl⟩, hfound⟩

/-- what an action does that runs to its end -/
theorem action_done {r : Except (Stop CliError) JobProvenance}
    (h : Run Step (runActionWithClient lib stateDir runId actionName jobId) fs t r fs') :
    Done stateDir runId jobId t fs fs' := by
  rcases runAction_cases lib h with ⟨rfl, -, hlooking⟩ | ⟨workspaceBase, t₁, t₂, rfl, hlooking, hcases⟩
  · exact done_looking hlooking
  have hunfinished : ∀ {t : Trace}, (∀ e ∈ t, Event.looking e) → ∀ e ∈ t, Event.unfinished e :=
    fun h e he => (h e he).unfinished
  cases hcases with
  | refused checked =>
    refine done_looking ?_
    simp only [List.forall_mem_append]
    exact ⟨hlooking, (prepareAction_only lib _ _ _ _).mem checked⟩
  | @unbuilt state service job error t₃ t₄ t₅ _ _ checked built saves =>
    obtain ⟨hnamed, -⟩ := prepared_named lib checked
    have hfailed : Named runId jobId (job.failed error) := { hnamed with }
    have hbefore : ∀ e ∈ t₁ ++ (t₃ ++ t₄), Event.unfinished e := by
      simp only [List.forall_mem_append]
      exact ⟨hunfinished hlooking, hunfinished ((prepareAction_only lib _ _ _ _).mem checked),
        hunfinished ((build_only _ _ _ _ _).mem built)⟩
    have hdone := saves.done_after hfailed hbefore
    rwa [List.append_assoc, List.append_assoc] at hdone
  | @asked state service job saved request answer out _ t₃ t₄ t₅ _ checked built recorded saves =>
    obtain ⟨hnamed, -⟩ := prepared_named lib checked
    obtain ⟨hrun, hjob, -⟩ := recorded.runId
    have hsaved : Named runId jobId saved := { hnamed with run := hrun.trans hnamed.run, job := hjob.trans hnamed.job }
    have hbefore : ∀ e ∈ t₁ ++ (t₃ ++ (t₄ ++ [⟨.evaluation request, answer⟩])), Event.unfinished e := by
      simp only [List.forall_mem_append, List.forall_mem_singleton]
      exact ⟨hunfinished hlooking, hunfinished ((prepareAction_only lib _ _ _ _).mem checked),
        hunfinished ((build_only _ _ _ _ _).mem built), trivial⟩
    have hdone := saves.done_after hsaved hbefore
    rwa [List.append_assoc, List.append_assoc, List.append_assoc] at hdone

/-- an action commits a job only when told that there is none -/
theorem action_told {r : Except (Stop CliError) JobProvenance}
    (h : Run Step (runActionWithClient lib stateDir runId actionName jobId) fs t r fs') {file : Location}
    {job : JobProvenance} (hcommitted : Committed file t job) :
    ⟨.pathExists (jobLocation stateDir runId jobId), false⟩ ∈ t := by
  have hlooks : ¬∀ e ∈ t, Event.looking e := by
    intro hlooking
    obtain ⟨temporary, -, hrenamed⟩ := hcommitted
    exact (hlooking _ hrenamed).unfinished
  rcases runAction_cases lib h with ⟨-, -, hlooking⟩ | ⟨workspaceBase, t₁, t₂, rfl, hlooking, hcases⟩
  · exact (hlooks hlooking).elim
  cases hcases with
  | refused checked =>
    refine (hlooks ?_).elim
    simp only [List.forall_mem_append]
    exact ⟨hlooking, (prepareAction_only lib _ _ _ _).mem checked⟩
  | unbuilt checked => exact List.mem_append_right _ (List.mem_append_left _ (prepared_named lib checked).2)
  | asked checked => exact List.mem_append_right _ (List.mem_append_left _ (prepared_named lib checked).2)

theorem started_sees (stateDir : PathBuf) (runId actionName jobId : String) :
    Sees (runActionWithClient lib stateDir runId actionName jobId) := by
  refine .bind (Only.call fun _ => trivial) fun directory => .bind (ioResult_only _ _) fun workspaceBase => ?_
  exact action_sees lib workspaceBase stateDir runId actionName jobId

/-! ## Histories -/

/-- an action, with the calls it made until it ended or crashed -/
structure Invocation where
  runId : String
  actionName : String
  jobId : String
  calls : Trace

/-- an action that ended, or crashed, after these calls -/
def Invoked (step : FileSystem → (call : SysCall) → Answer call → FileSystem → Prop) (stateDir : PathBuf)
    (fs : FileSystem) (a : Invocation) (fs' : FileSystem) : Prop :=
  Begins step (runActionWithClient lib stateDir a.runId a.actionName a.jobId) fs a.calls fs'

variable {lib} in
/-- a crash leaves what a failing disk leaves: an action that ended or crashed has done what one that ends does -/
theorem Invoked.completes {step : FileSystem → (call : SysCall) → Answer call → FileSystem → Prop} {a : Invocation}
    {run : String} (hseen : ∀ {s op x u}, SeenStep s op x u → step s op x u)
    (hstep : ∀ {s op x u}, step s op x u → Step s op x u) (h : Invoked lib step stateDir fs a fs')
    (ho : Orderly (jobsLocation stateDir run) none fs) :
    Orderly (jobsLocation stateDir run) none fs' ∧
      ∃ t r, Run step (runActionWithClient lib stateDir a.runId a.actionName a.jobId) fs (a.calls ++ t) r fs' ∧
        ∀ e ∈ t, Event.unfinished e := by
  have hne : jobsLocation stateDir run ≠ [] := by simp [jobsLocation]
  have hwrites : Follows (Writing (jobsLocation stateDir run).length) AtRest
      (runActionWithClient lib stateDir a.runId a.actionName a.jobId) none := by
    rw [jobsLocation_length]
    exact action_writes lib a.actionName
  have hkeeps : ∀ made made' s op x u, Orderly (jobsLocation stateDir run) made s →
      Writing (jobsLocation stateDir run).length made ⟨op, x⟩ made' → step s op x u →
        Orderly (jobsLocation stateDir run) made' u := fun _ _ _ _ _ _ ho hdoes hs => ho.step hne hdoes (hstep hs)
  obtain ⟨made, hkept⟩ := keeps_protocol hkeeps h hwrites ho
  refine ⟨hkept.rests, Begins.completes hkeeps ?_ h hwrites ho⟩
  intro made s op ho hdoes
  obtain ⟨x, hx, hunfinished⟩ := ho.fails hdoes
  exact ⟨x, hseen hx, hunfinished⟩

variable {lib} in
theorem Invoked.done {a : Invocation} {run : String} (h : Invoked lib Step stateDir fs a fs')
    (ho : Orderly (jobsLocation stateDir run) none fs) :
    Orderly (jobsLocation stateDir run) none fs' ∧ Done stateDir a.runId a.jobId a.calls fs fs' := by
  obtain ⟨horderly, t, r, hrun, hfailed⟩ := h.completes SeenStep.step id ho
  refine ⟨horderly, (action_done lib hrun).of_iff fun file job => committed_iff (List.subset_append_left _ _) ?_ file job⟩
  intro e he
  exact (List.mem_append.1 he).imp_right (hfailed e)

variable {lib} in
/-- whose checks miss nothing commits where there was nothing -/
theorem Invoked.fresh {a : Invocation} {run : String} (h : Invoked lib SeenStep stateDir fs a fs')
    (ho : Orderly (jobsLocation stateDir run) none fs) {file : Location} {job : JobProvenance}
    (hcommitted : Committed file a.calls job) : fs.files file = none := by
  obtain ⟨-, t, r, hrun, -⟩ := h.completes id SeenStep.step ho
  have hall : Committed file (a.calls ++ t) job := hcommitted.mono (List.subset_append_left _ _)
  have hfound := action_told lib (seen_run hrun) hall
  cases action_done lib (seen_run hrun) with
  | spared uncommitted => exact (uncommitted file job hall).elim
  | committed _ commits =>
    obtain ⟨rfl, -⟩ := (commits file job).1 hall
    exact (started_sees lib _ _ _ _ _ _ _ _ hrun).absent hfound

/-- some action of the history committed this job -/
def CommittedIn (history : List Invocation) (file : Location) (job : JobProvenance) : Prop :=
  ∃ a ∈ history, Committed file a.calls job

/-- no job of the run is committed over another one -/
def Unreplaced (stateDir : PathBuf) (run : String) (history : List Invocation) : Prop :=
  ∀ jobId job job', CommittedIn history (jobLocation stateDir run jobId) job →
    CommittedIn history (jobLocation stateDir run jobId) job' → job = job'

/-- the job is in its file, under its own ids -/
structure Held (stateDir : PathBuf) (run : String) (fs : FileSystem) (jobId : String) (job : JobProvenance) : Prop where
  named : Named run jobId job
  file : fs.files (jobLocation stateDir run jobId) = some (.json (JobProvenance.codec.encode job))

/-- the directory of a run holds the jobs committed in the history, and besides them only temporary files -/
structure Kept (stateDir : PathBuf) (run : String) (fs₀ : FileSystem) (history : List Invocation) (fs : FileSystem) :
    Prop where
  orderly : Orderly (jobsLocation stateDir run) none fs
  state : fs.files (stateLocation stateDir run) = fs₀.files (stateLocation stateDir run)
  held : ∀ jobId job, CommittedIn history (jobLocation stateDir run jobId) job → Held stateDir run fs jobId job
  only : ∀ name contents, fs.files (jobsLocation stateDir run ++ [.normal name]) = some contents →
    JobTemporary stateDir (jobsLocation stateDir run ++ [.normal name]) ∨
      ∃ jobId job, name = bytes (jobId ++ ".json") ∧ Held stateDir run fs jobId job ∧
        CommittedIn history (jobLocation stateDir run jobId) job

theorem JobTemporary.temporary {file : Location} (h : JobTemporary stateDir file) : Temporary file := by
  obtain ⟨run, job, processId, -, -, -, rfl⟩ := h
  exact jobTemporary_temporary stateDir run job processId

theorem committedIn_snoc {history : List Invocation} {a : Invocation} {file : Location} {job : JobProvenance} :
    CommittedIn (history ++ [a]) file job ↔ CommittedIn history file job ∨ Committed file a.calls job := by
  simp [CommittedIn, or_and_right, exists_or]

variable {run : String} {fs₀ : FileSystem} {history : List Invocation} {a : Invocation}

theorem Unreplaced.front (h : Unreplaced stateDir run (history ++ [a])) : Unreplaced stateDir run history :=
  fun jobId job job' hc hc' => h jobId job job' (committedIn_snoc.2 (.inl hc)) (committedIn_snoc.2 (.inl hc'))

/-- a file that was there before an action is accounted for after it, where the action lost no job -/
theorem Kept.accounts (h : Kept stateDir run fs₀ history fs)
    (hheld : ∀ jobId job, CommittedIn history (jobLocation stateDir run jobId) job →
      Held stateDir run fs' jobId job)
    {name : Bytes} {contents : Contents}
    (hfile : fs.files (jobsLocation stateDir run ++ [.normal name]) = some contents) :
    JobTemporary stateDir (jobsLocation stateDir run ++ [.normal name]) ∨
      ∃ jobId job, name = bytes (jobId ++ ".json") ∧ Held stateDir run fs' jobId job ∧
        CommittedIn (history ++ [a]) (jobLocation stateDir run jobId) job := by
  rcases h.only name contents hfile with ht | ⟨jobId, job, hname, -, hc⟩
  · exact .inl ht
  · exact .inr ⟨jobId, job, hname, hheld jobId job hc, committedIn_snoc.2 (.inl hc)⟩

/-- one more action, ended or crashed -/
theorem Kept.invoked (h : Kept stateDir run fs₀ history fs) (ha : Invoked lib Step stateDir fs a fs')
    (hunreplaced : Unreplaced stateDir run (history ++ [a])) : Kept stateDir run fs₀ (history ++ [a]) fs' := by
  obtain ⟨horderly, hdone⟩ := ha.done h.orderly
  cases hdone with
  | spared uncommitted kept =>
    have hstate : ¬JobTemporary stateDir (stateLocation stateDir run) :=
      fun ht => state_not_temporary stateDir run ht.temporary
    have hjob : ∀ jobId, ¬JobTemporary stateDir (jobLocation stateDir run jobId) :=
      fun jobId ht => job_not_temporary stateDir run jobId ht.temporary
    have hheld : ∀ jobId job, CommittedIn history (jobLocation stateDir run jobId) job →
        Held stateDir run fs' jobId job := fun jobId job hc =>
      ⟨(h.held jobId job hc).named, (kept _ (hjob jobId)).trans (h.held jobId job hc).file⟩
    refine ⟨horderly, (kept _ hstate).trans h.state, ?_, ?_⟩
    · intro jobId job hc
      exact hheld jobId job ((committedIn_snoc.1 hc).resolve_right (uncommitted _ _))
    · intro name contents hfile
      by_cases ht : JobTemporary stateDir (jobsLocation stateDir run ++ [.normal name])
      · exact .inl ht
      · rw [kept _ ht] at hfile
        exact h.accounts hheld hfile
  | @committed saved named commits files =>
    have hnew : ∀ jobId, jobLocation stateDir run jobId = jobLocation stateDir a.runId a.jobId →
        Held stateDir run fs' jobId saved := by
      intro jobId he
      refine ⟨?_, ?_⟩
      · obtain ⟨rfl, rfl⟩ := (jobLocation_inj stateDir).1 he
        exact named
      · rw [files, he, Function.update_self]
    have hheld : ∀ jobId job, CommittedIn history (jobLocation stateDir run jobId) job →
        Held stateDir run fs' jobId job := by
      intro jobId job hc
      by_cases he : jobLocation stateDir run jobId = jobLocation stateDir a.runId a.jobId
      · -- the job was committed before, and is the one that is committed now
        have hnow : CommittedIn (history ++ [a]) (jobLocation stateDir run jobId) saved :=
          committedIn_snoc.2 (.inr ((commits _ saved).2 ⟨he, rfl⟩))
        obtain rfl : job = saved := hunreplaced jobId job saved (committedIn_snoc.2 (.inl hc)) hnow
        exact hnew jobId he
      · refine ⟨(h.held jobId job hc).named, ?_⟩
        rw [files, Function.update_of_ne he]
        exact (h.held jobId job hc).file
    refine ⟨horderly, ?_, ?_, ?_⟩
    · rw [files, Function.update_of_ne (job_ne_state _ _ _ _).symm]
      exact h.state
    · intro jobId job hc
      rcases committedIn_snoc.1 hc with hc | hc
      · exact hheld jobId job hc
      · obtain ⟨he, rfl⟩ := (commits _ _).1 hc
        exact hnew jobId he
    · intro name contents hfile
      by_cases he : jobsLocation stateDir run ++ [.normal name] = jobLocation stateDir a.runId a.jobId
      · have hname : name = bytes (a.jobId ++ ".json") := by
          simpa [jobLocation] using congrArg List.getLast? he
        have hlocation : jobLocation stateDir run a.jobId = jobLocation stateDir a.runId a.jobId := by
          rw [← he, hname]
          rfl
        exact .inr ⟨a.jobId, saved, hname, hnew a.jobId hlocation,
          committedIn_snoc.2 (.inr ((commits _ _).2 ⟨hlocation, rfl⟩))⟩
      · rw [files, Function.update_of_ne he] at hfile
        exact h.accounts hheld hfile

/-- a run that no action has touched -/
theorem kept_fresh (hnew : ∀ l, jobsLocation stateDir run <+: l → fs₀.files l = none ∧ fs₀.dirs l = false) :
    Kept stateDir run fs₀ [] fs₀ := by
  have hnone : ∀ name, fs₀.files (jobsLocation stateDir run ++ [name]) = none :=
    fun name => (hnew _ (List.prefix_append _ _)).1
  refine ⟨⟨?_, (hnew _ List.prefix_rfl).1, ?_, fun name => (hnew _ (List.prefix_append _ _)).2, ?_⟩, rfl, ?_, ?_⟩
  · exact fun _ he => (Option.some_ne_none _ he.symm).elim
  · exact fun name hname => absurd (hnone name) hname
  · simp [hnone]
  · intro jobId job hc
    obtain ⟨a, ha, -⟩ := hc
    exact (List.not_mem_nil ha).elim
  · intro name contents hfile
    cases (hnone _).symm.trans hfile

variable {lib} in
theorem kept_history (hnew : ∀ l, jobsLocation stateDir run <+: l → fs₀.files l = none ∧ fs₀.dirs l = false)
    (h : Runs (Invoked lib Step stateDir) fs₀ history fs) (hunreplaced : Unreplaced stateDir run history) :
    Kept stateDir run fs₀ history fs := by
  refine h.history (P := fun history fs => Unreplaced stateDir run history → Kept stateDir run fs₀ history fs)
    (fun _ => kept_fresh hnew) ?_ hunreplaced
  intro history s a u _ hkept ha hunreplaced
  exact (hkept hunreplaced.front).invoked lib ha hunreplaced

variable {lib} in
/-- where no existence check misses what is there, no job is committed over another one -/
theorem unreplaced_of_seen (hnew : ∀ l, jobsLocation stateDir run <+: l → fs₀.files l = none ∧ fs₀.dirs l = false)
    (h : Runs (Invoked lib SeenStep stateDir) fs₀ history fs) : Unreplaced stateDir run history := by
  refine (h.history (P := fun history fs => Unreplaced stateDir run history ∧ Kept stateDir run fs₀ history fs)
    ⟨?_, kept_fresh hnew⟩ ?_).1
  · intro jobId job job' hc
    obtain ⟨a, ha, -⟩ := hc
    exact (List.not_mem_nil ha).elim
  · intro history s a u _ hbefore ha
    obtain ⟨hunreplaced, hkept⟩ := hbefore
    have ha' : Invoked lib Step stateDir s a u := Begins.map SeenStep.step ha
    have hfirst : ∀ jobId job job', CommittedIn history (jobLocation stateDir run jobId) job →
        ¬Committed (jobLocation stateDir run jobId) a.calls job' := by
      intro jobId job job' hc hc'
      exact nomatch (ha.fresh hkept.orderly hc').symm.trans (hkept.held jobId job hc).file
    have hone : ∀ file job job', Committed file a.calls job → Committed file a.calls job' → job = job' := by
      intro file job job' hc hc'
      cases (ha'.done hkept.orderly).2 with
      | spared uncommitted => exact (uncommitted file job hc).elim
      | committed _ commits => exact ((commits file job).1 hc).2.trans ((commits file job').1 hc').2.symm
    have hunreplaced' : Unreplaced stateDir run (history ++ [a]) := by
      intro jobId job job' hc hc'
      rcases committedIn_snoc.1 hc with hc | hc
      · exact hunreplaced jobId job job' hc ((committedIn_snoc.1 hc').resolve_right (hfirst jobId job job' hc))
      · rcases committedIn_snoc.1 hc' with hc' | hc'
        · exact (hfirst jobId job' job hc' hc).elim
        · exact hone _ job job' hc hc'
    exact ⟨hunreplaced', hkept.invoked lib ha' hunreplaced'⟩

end

end PhenoCompose
