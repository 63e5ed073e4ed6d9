/-
`export-provenance`: what is recorded of a run and of its jobs, read back from the state directory.

The jobs are the ".json" entries of the run's directory; one that names another run or job than its file does stops the
export. `export_only`, `status_only`: neither an export nor a status makes a call that could change a file.
-/
import PhenoCompose.Teardown

namespace PhenoCompose

open Core.Collections Core.Path Core.Process Core.Text

structure Provenance where
  provenanceVersion : String
  runId : String
  manifestSha256 : String
  effectiveEngine : String
  createdUnixSeconds : UInt64
  containers : BTreeMap String
  jobs : BTreeMap JobProvenance
deriving DecidableEq

variable (lib : Externals)

/-- one entry of a directory of jobs, added to those before it -/
def loadJob (directory : PathBuf) (runId : String) (jobs : BTreeMap JobProvenance) (entry : Except IoError Bytes) :
    Proc CliError (BTreeMap JobProvenance) := do
  let name ← ioResult "jobs_read" entry
  let path := directory.join ⟨name⟩
  if path.extension.bind toStr ≠ some "json" then pure jobs
  else do
    let input ← ioResult "job_read" (← sys (.readToString path.components))
    let job ← lib.fromStr "JobProvenance" JobProvenance.codec input
    refuseIf (job.runId ≠ runId ∨ path.fileStem.bind toStr ≠ some job.jobId) <|
      .validation "job_identity_mismatch" ("job provenance identity does not match " ++ path.display)
    pure (jobs.insert job.jobId job)

def loadJobs (stateDir : PathBuf) (runId : String) : Proc CliError (BTreeMap JobProvenance) := do
  let directory := jobsPath stateDir runId
  if ← sys (.pathExists directory.components) then do
    let entries ← ioResult "jobs_read" (← sys (.readDir directory.components))
    entries.foldlM (loadJob lib directory runId) ∅
  else pure ∅

def exportProvenance (stateDir : PathBuf) (runId : String) : Proc CliError Provenance := do
  let state ← loadState lib stateDir runId
  refuseIf (state.manifest.provenance.required = false) <|
    .unsupported "provenance_not_requested" "the persisted manifest did not require provenance" "provenance.export"
      state.provider
  let jobs ← loadJobs lib stateDir runId
  pure
    { provenanceVersion := "phenocompose.provenance/v0"
      runId := state.runId
      manifestSha256 := state.manifestSha256
      effectiveEngine := state.provider
      createdUnixSeconds := state.createdUnixSeconds
      containers := state.containers
      jobs := jobs }

/-! ## Calls -/

theorem loadJob_reads {P : Event Answer → Prop} (h : ∀ file a, P ⟨.readToString file, a⟩) (directory : PathBuf)
    (runId : String) (jobs : BTreeMap JobProvenance) (entry : Except IoError Bytes) :
    Only P (loadJob lib directory runId jobs entry) := by
  apply (ioResult_only _ _).bind
  intro name
  dsimp only
  split_ifs
  · exact Only.pure _
  · apply (Only.call fun a => h _ a).bind
    intro _
    apply (ioResult_only _ _).bind
    intro _
    apply (Only.lift _).bind
    intro _
    exact (Only.lift _).bind fun _ => Only.pure _

/-- reading what there is of a directory of jobs -/
theorem load_entries_reads {P : Event Answer → Prop} (h : ∀ file a, P ⟨.readToString file, a⟩)
    (hdir : ∀ directory a, P ⟨.readDir directory, a⟩) (directory : PathBuf) (runId : String) :
    Only P (do
      let entries ← ioResult "jobs_read" (← sys (.readDir directory.components))
      entries.foldlM (loadJob lib directory runId) ∅) := by
  apply (Only.call fun a => hdir _ a).bind
  intro _
  apply (ioResult_only _ _).bind
  intro entries
  exact Only.foldlM entries (fun jobs entry _ => loadJob_reads lib h _ _ jobs entry) ∅

theorem export_only (stateDir : PathBuf) (runId : String) :
    Only Event.looking (exportProvenance lib stateDir runId) := by
  apply (loadState_only lib _ _).bind
  intro state
  apply (Only.lift _).bind
  intro _
  refine .bind ?_ fun _ => Only.pure _
  apply (Only.call fun _ => trivial).bind
  intro found
  cases found with
  | false => exact Only.pure _
  | true => exact load_entries_reads lib (fun _ _ => trivial) (fun _ _ => trivial) _ _

/-- a status looks at the state and asks about its containers -/
theorem status_only (stateDir : PathBuf) (runId : String) :
    Only (fun e => Event.looking e ∨ Event.commanding e) (status lib stateDir runId) := by
  apply ((loadState_only lib _ _).imp fun _ => .inl).bind
  intro state
  apply (Only.lift _).bind
  intro _
  refine .bind ?_ fun _ => Only.pure _
  refine Only.foldlM _ ?_ ∅
  intro services entry _
  refine .bind ?_ fun _ => Only.pure _
  exact ((podmanOutput_only fun _ => .inr trivial).mapErr.bind fun _ => Only.lift _).mapErr

end PhenoCompose
