/-
The names in the state directory do not collide.

Every name is an id, a dot and a tail. An id has no dot, so the first dot tells it from the tail, and the tails of the
kinds of files differ.

- `store_layout`: for accepted ids every file is strictly inside the state directory and no two files are the same one;
  no run that apply names shares its file with the GPU reservations.
- `apply_produced`, `runAction_handed`: the run ids and the reservation file are those of the two commands.
- `reservations_accepted`: the file of the reservations is the state file of an id that commands do accept.
-/
import PhenoCompose.ActionResults
import PhenoCompose.Apply
import PhenoCompose.Core.Lexical
import PhenoCompose.Core.Split

namespace PhenoCompose

open Core.Collections Core.Path Core.Process Core.Split Core.Text

/-! ## Files -/

/-- what `saveState` and `saveJobProvenance` put in a state directory, with the directory of a run's jobs -/
inductive StoreFile where
  | state (runId : String)
  | stateTemporary (runId : String)
  | jobs (runId : String)
  | job (runId jobId : String)
  | jobTemporary (runId jobId : String) (processId : UInt32)
deriving DecidableEq, Repr

namespace StoreFile

def path (stateDir : PathBuf) : StoreFile → PathBuf
  | state runId => statePath stateDir runId
  | stateTemporary runId => (statePath stateDir runId).withExtension (bytes "json.tmp")
  | jobs runId => jobsPath stateDir runId
  | job runId jobId => jobPath stateDir runId jobId
  | jobTemporary runId jobId processId => PhenoCompose.jobTemporary (jobPath stateDir runId jobId) processId

/-- its ids pass `validateSlug` -/
def Accepted : StoreFile → Prop
  | state runId | stateTemporary runId | jobs runId => validateSlug "run_id" runId = .ok ()
  | job runId jobId | jobTemporary runId jobId _ =>
    validateSlug "run_id" runId = .ok () ∧ validateSlug "job_id" jobId = .ok ()

/-- the names below the state directory, each an id and a tail -/
def parts : StoreFile → List (String × String)
  | state runId => [(runId, "json")]
  | stateTemporary runId => [(runId, "json.tmp")]
  | jobs runId => [(runId, "jobs")]
  | job runId jobId => [(runId, "jobs"), (jobId, "json")]
  | jobTemporary runId jobId processId => [(runId, "jobs"), (jobId, jobTemporaryExtension processId)]

end StoreFile

/-- the name of an id and a tail -/
def dotted (part : String × String) : Bytes := bytes (part.1 ++ ("." ++ part.2))

/-! ## Names -/

theorem dot_not_mem_word {s : String} (hs : isWord s = true) : dot ∉ bytes s := by
  intro h
  rcases byte_of_word hs h with h | h <;> exact absurd h (by decide)

theorem dotted_eq (part : String × String) : dotted part = bytes part.1 ++ dot :: bytes part.2 := by
  rw [dotted, bytes_append, bytes_append]
  rfl

/-- the first dot ends the id -/
theorem dotted_inj {part part' : String × String} (h : isWord part.1 = true) (h' : isWord part'.1 = true)
    (he : dotted part = dotted part') : part = part' := by
  rw [dotted_eq, dotted_eq] at he
  obtain ⟨hid, htail⟩ := first_unique he (dot_not_mem_word h) (dot_not_mem_word h')
  exact Prod.ext (bytes_inj.1 hid) (bytes_inj.1 htail)

theorem names_inj {parts parts' : List (String × String)} (h : ∀ part ∈ parts, isWord part.1 = true)
    (h' : ∀ part ∈ parts', isWord part.1 = true)
    (he : parts.map (fun part => Component.normal (dotted part)) = parts'.map fun part => .normal (dotted part)) :
    parts = parts' := by
  induction parts generalizing parts' with
  | nil => exact (List.map_eq_nil_iff.1 he.symm).symm
  | cons part parts ih =>
    cases parts' with
    | nil => cases he
    | cons part' parts' =>
      rw [List.map_cons, List.map_cons, List.cons.injEq, Component.normal.injEq] at he
      rw [List.forall_mem_cons] at h h'
      rw [dotted_inj h.1 h'.1 he.1, ih h.2 h'.2 he.2]

/-- a process id can be read off the name -/
theorem jobTemporaryExtension_inj {processId processId' : UInt32} :
    jobTemporaryExtension processId = jobTemporaryExtension processId' ↔ processId = processId' := by
  refine ⟨fun h => ?_, congrArg _⟩
  have hdigits : toString processId.toNat = toString processId'.toNat := by
    simpa [jobTemporaryExtension] using h
  exact UInt32.toNat_inj.1 (Nat.repr_injective hdigits)

theorem jobTemporaryExtension_ne (processId : UInt32) : jobTemporaryExtension processId ≠ "json" := by
  intro h
  have hlast := congrArg (fun s => (bytes s).getLast?) h
  simp only [jobTemporaryExtension, bytes_append] at hlast
  rw [List.getLast?_append_of_ne_nil _ (by decide)] at hlast
  exact absurd hlast (by decide)

namespace StoreFile

variable {file other : StoreFile}

/-- the kinds differ in the tails of the names -/
theorem parts_inj (h : file.parts = other.parts) : file = other := by
  have hne := jobTemporaryExtension_ne
  cases file <;> cases other <;>
    simp_all [parts, jobTemporaryExtension_inj, fun processId => (hne processId).symm]

theorem Accepted.words (h : file.Accepted) : ∀ part ∈ file.parts, isWord part.1 = true := by
  cases file with
  | state runId => exact List.forall_mem_singleton.2 (slug_word h).1
  | stateTemporary runId => exact List.forall_mem_singleton.2 (slug_word h).1
  | jobs runId => exact List.forall_mem_singleton.2 (slug_word h).1
  | job runId jobId => exact List.forall_mem_cons.2 ⟨(slug_word h.1).1, List.forall_mem_singleton.2 (slug_word h.2).1⟩
  | jobTemporary runId jobId processId =>
    exact List.forall_mem_cons.2 ⟨(slug_word h.1).1, List.forall_mem_singleton.2 (slug_word h.2).1⟩

/-- where a file is: its names, below the components of the state directory -/
theorem Accepted.path_components (h : file.Accepted) (stateDir : PathBuf) :
    (file.path stateDir).components = stateDir.components ++ file.parts.map fun part => .normal (dotted part) := by
  cases file with
  | state runId => exact statePath_components stateDir (slug_word h).1
  | stateTemporary runId => exact stateTemporary_components stateDir (slug_word h).1 (slug_word h).2
  | jobs runId => exact jobsPath_components stateDir (slug_word h).1
  | job runId jobId =>
    refine (jobPath_components stateDir (slug_word h.1).1 (slug_word h.2).1).trans ?_
    rw [jobLocation, jobsLocation, List.append_assoc]
    rfl
  | jobTemporary runId jobId processId =>
    refine (jobTemporary_components stateDir (slug_word h.1).1 (slug_word h.2).1 (slug_word h.2).2 processId).trans ?_
    rw [jobTemporaryLocation, jobsLocation, List.append_assoc]
    rfl

theorem path_inj (h : file.Accepted) (h' : other.Accepted) {stateDir : PathBuf}
    (he : (file.path stateDir).components = (other.path stateDir).components) : file = other := by
  rw [h.path_components, h'.path_components] at he
  exact parts_inj (names_inj h.words h'.words (List.append_cancel_left he))

end StoreFile

/-! ## The reservation file -/

variable (lib : Externals)

/-- the run id that an apply of some manifest computes, whatever becomes of the apply -/
def Produced (run : String) : Prop :=
  ∃ (manifest : CompositionManifest) (plan : Plan), manifest.plan lib = .ok plan ∧
    runId manifest plan.manifestSha256 = .ok run

/-- the reservation file that some run of an action hands to the evaluation client -/
def Handed (stateDir file : PathBuf) : Prop :=
  ∃ workspaceBase runId actionName jobId fs t r fs' request answer,
    Run Step (runActionWithClientAt lib workspaceBase stateDir runId actionName jobId) fs t r fs' ∧
      (request, answer) ∈ evaluations t ∧ file = .ofStr request.reservationPath

variable {lib} {stateDir file : PathBuf}

/-- an action hands over one name, in the state directory or in the same one made absolute -/
theorem Handed.join (h : Handed lib stateDir file) : ∃ base : PathBuf,
    (base = stateDir ∨ ∃ directory : PathBuf, base = directory.join stateDir) ∧
      file = base.join (.ofStr "nanovms-gpu-reservations.json") := by
  obtain ⟨workspaceBase, runId, actionName, jobId, fs, t, r, fs', request, answer, hrun, hasked, rfl⟩ := h
  cases runAction_run lib hrun with
  | refused checked =>
    rw [evaluations_looking ((prepareAction_only lib _ _ _ _).mem checked)] at hasked
    exact absurd hasked List.not_mem_nil
  | unbuilt checked built saves =>
    rw [evaluations_unasked ((prepareAction_only lib _ _ _ _).mem checked) ((build_only _ _ _ _ _).mem built)
      saves.evaluations] at hasked
    exact absurd hasked List.not_mem_nil
  | asked checked built recorded saves =>
    rw [evaluations_asked ((prepareAction_only lib _ _ _ _).mem checked) ((build_only _ _ _ _ _).mem built)
      saves.evaluations] at hasked
    cases List.mem_singleton.1 hasked
    obtain ⟨-, base, hbase, hpath⟩ := build_parts built
    refine ⟨base, hbase, ?_⟩
    unfold pathString at hpath
    split at hpath
    · next htext =>
      cases hpath
      exact ofStr_toStr htext
    · cases hpath

/-- the action of `demo`, started from /work on the state directory `runs`, hands over a file -/
theorem handed_example : ∃ file, Handed .standard (.ofStr "runs") file := by
  obtain ⟨job, hok, -⟩ := evaluated_ok
  have hrun := evaluated_run
  rw [hok] at hrun
  rcases runAction_parts .standard hrun with ⟨e, he, -⟩ | ⟨state, service, job', t₁, t₂, t₃, ht, -, hrest⟩
  · cases he
  · rcases hrest with ⟨error, -, hsaves⟩ | ⟨request, answer, t₄, rfl, -, -⟩
    · -- a job that was not sent off is saved as a failure
      obtain ⟨r₀, -, hr⟩ := hsaves
      cases r₀ <;> cases hr
    · have hasked : (request, answer) ∈ evaluations evaluated.1 := by
        rw [ht]
        exact List.mem_filterMap.2 ⟨⟨.evaluation request, answer⟩, by simp, rfl⟩
      exact ⟨_, _, _, _, _, _, _, _, _, request, answer, evaluated_run, hasked, rfl⟩

/-- a run id ends with a digit of the digest -/
theorem Produced.last {run : String} (h : Produced lib run) : ∃ c, run.toList.getLast? = some c ∧
    isAsciiHexdigit c = true := by
  obtain ⟨manifest, plan, hplan, hrun⟩ := h
  obtain ⟨-, rfl⟩ := (plan_ok_iff lib).1 hplan
  rw [runId_ok] at hrun
  have hdigest : (shortDigest lib (manifest.canonicalBytes lib)).toList ≠ [] := by
    rw [shortDigest, String.toList_ofList, ← List.length_pos_iff, List.length_take, Externals.sha256Hex_length]
    decide
  obtain ⟨c, hc⟩ := Option.ne_none_iff_exists'.1 (mt List.getLast?_eq_none_iff.1 hdigest)
  refine ⟨c, ?_, ?_⟩
  · rw [← Except.ok.inj hrun, String.toList_append, List.getLast?_append_of_ne_nil _ hdigest, hc]
  · have hmem := List.mem_of_getLast? hc
    rw [shortDigest, String.toList_ofList] at hmem
    exact (hex_chars _ c (List.mem_of_mem_take hmem)).1

theorem Produced.word {run : String} (h : Produced lib run) : isWord run = true := by
  obtain ⟨manifest, plan, hplan, hrun⟩ := h
  obtain ⟨-, rfl⟩ := (plan_ok_iff lib).1 hplan
  exact isWord_runId lib hrun

/-- `reservations` does not end with a hexadecimal digit -/
theorem Produced.not_reservations {run : String} (h : Produced lib run) : run ≠ "nanovms-gpu-reservations" := by
  rintro rfl
  obtain ⟨c, hc, hdigit⟩ := h.last
  obtain rfl : c = 's' := (Option.some.inj hc).symm
  exact absurd hdigit (by decide)

/-- the reservation file is the state file of one id that the rules for ids allow -/
theorem reservations_accepted : validateSlug "run_id" "nanovms-gpu-reservations" = .ok () ∧
    ∀ base, base.join (.ofStr "nanovms-gpu-reservations.json") = statePath base "nanovms-gpu-reservations" :=
  ⟨by decide, fun _ => rfl⟩

/-- under no base do the two have the same last name -/
theorem Handed.ne_state (h : Handed lib stateDir file) {run : String} (hp : Produced lib run) (base : PathBuf) :
    (statePath base run).components ≠ file.components := by
  obtain ⟨base', -, rfl⟩ := h.join
  intro he
  rw [reservations_accepted.2, statePath_components _ hp.word, statePath_components _ (by decide)] at he
  have hlast := congrArg List.getLast? he
  rw [stateLocation, stateLocation, List.getLast?_concat, List.getLast?_concat, Option.some.injEq,
    Component.normal.injEq, bytes_append, bytes_append, List.append_cancel_right_eq, bytes_inj] at hlast
  exact hp.not_reservations hlast

theorem finishApply_runId {manifest : CompositionManifest} {lifecycle : LifecyclePlan}
    {request : ServiceLifecycleRequest} {answer : Except ServiceLifecycleFailure ServiceLifecycleResult}
    {output : ApplyOutput} {fs fs' : FileSystem} {t : Trace}
    (h : Run Step (finishApply lib manifest stateDir lifecycle request answer) fs t (.ok output) fs') :
    output.runId = request.runId := by
  unfold finishApply at h
  cases answer with
  | error failure =>
    obtain ⟨hr, -⟩ := run_rollback_fail.1 h
    cases hr
  | ok result =>
    obtain ⟨checked, _, _, _, -, h₁, -⟩ := run_bind_ok.1 h
    cases checked with
    | error error =>
      obtain ⟨hr, -⟩ := run_rollback_fail.1 h₁
      cases hr
    | ok =>
      obtain ⟨seconds, _, _, _, -, h₂, -⟩ := run_bind_ok.1 h₁
      obtain ⟨saved, _, _, _, -, h₃, -⟩ := run_bind_ok.1 h₂
      cases saved with
      | error error =>
        obtain ⟨hr, -⟩ := run_rollback_fail.1 h₃
        cases hr
      | ok =>
        obtain ⟨-, hr, -⟩ := run_pure.1 h₃
        rw [Except.ok.inj hr]

/-- every apply that returns, dry or not, returns a run id of this kind -/
theorem apply_produced {manifest : CompositionManifest} {dryRun : Bool} {output : ApplyOutput} {fs fs' : FileSystem}
    {t : Trace} (h : Run Step (applyWithLifecycleClient lib manifest stateDir dryRun) fs t (.ok output) fs') :
    Produced lib output.runId := by
  obtain ⟨plan, hplan, h₁⟩ := run_lift_bind_ok.1 h
  obtain ⟨lifecycle, -, h₂⟩ := run_lift_bind_ok.1 h₁
  obtain ⟨run, hrun, h₃⟩ := run_lift_bind_ok.1 h₂
  have houtput : output.runId = run := by
    cases dryRun with
    | true =>
      obtain ⟨-, hr, -⟩ := run_pure.1 h₃
      rw [Except.ok.inj hr]
    | false =>
      obtain ⟨-, _, _, _, -, h₄, -⟩ := run_bind_ok.1 h₃
      obtain ⟨answer, _, _, -, h₅, -⟩ := run_sys_bind.1 h₄
      exact finishApply_runId h₅
  exact ⟨manifest, plan, hplan, houtput ▸ hrun⟩

/-- started from the current directory, an action hands over the same file -/
theorem runAction_handed {runId actionName jobId : String} {r : Except (Stop CliError) JobProvenance}
    {fs fs' : FileSystem} {t : Trace}
    (h : Run Step (runActionWithClient lib stateDir runId actionName jobId) fs t r fs')
    {request : EvaluationRequest} {answer : Except EvaluationFailure EvaluationResult}
    (hasked : (request, answer) ∈ evaluations t) : Handed lib stateDir (.ofStr request.reservationPath) := by
  obtain ⟨directory, _, t', -, h₁, rfl⟩ := run_sys_bind.1 h
  rcases run_io_bind.1 h₁ with ⟨workspaceBase, -, h₂⟩ | ⟨error, -, rfl, -⟩
  · exact ⟨workspaceBase, runId, actionName, jobId, _, t', r, fs', request, answer, h₂, hasked, rfl⟩
  · exact absurd hasked List.not_mem_nil

/-! ## The layout -/

variable (lib) in
/-- a state directory whose names do not collide -/
structure Layout (stateDir : PathBuf) : Prop where
  inside : ∀ file : StoreFile, file.Accepted → ∃ names : List Bytes, names ≠ [] ∧
    (file.path stateDir).components = stateDir.components ++ names.map .normal
  distinct : ∀ file other : StoreFile, file.Accepted → other.Accepted →
    (file.path stateDir).components = (other.path stateDir).components → file = other
  reserved : ∀ run file, Produced lib run → Handed lib stateDir file →
    ∀ base, (statePath base run).components ≠ file.components

/-- **No two files of a state directory are one.** For all accepted ids and all process ids, the file of a run, the file
of a job, their temporary files and the directory of the jobs are strictly inside the state directory; they are the
same only if they are of one kind and of the same ids. No run id that apply computes names the reservation file that an
action hands over, wherever the state directory is. -/
theorem store_layout (lib : Externals) (stateDir : PathBuf) : Layout lib stateDir where
  inside file h := by
    refine ⟨file.parts.map dotted, ?_, ?_⟩
    · cases file <;> exact List.cons_ne_nil _ _
    · rw [h.path_components, List.map_map]
      rfl
  distinct file other h h' he := StoreFile.path_inj h h' he
  reserved run file hp hh base := hh.ne_state hp base

end PhenoCompose
