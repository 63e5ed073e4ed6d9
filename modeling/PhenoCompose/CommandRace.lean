/-
Any number of processes, each with its own command lines, on one state directory at the same time.

- `execute_honours`: every command keeps to the contract, whatever the others do meanwhile, and what it prints is true of
  the store.
- `processes_keep_store`: so in every interleaving the store stands, and is only added to.
- `processes_exit`: no process panics, and each exits with the code of its outcome.
- `processes_answer`: whatever was printed at any time is still true of the store.
-/
import PhenoCompose.CommandLine
import PhenoCompose.StoreContract

namespace PhenoCompose

open Core.Collections Core.Interleave Core.Json Core.Path Core.Process Core.RelyGuarantee Core.Text Core.Transition

/-! ## What is printed -/

section
variable (lib : Externals) (yaml : YamlReader) {ι : Type} {stateDir : PathBuf} (A : Arrangement stateDir ι)

/-- this job is recorded under these ids, which are its own -/
def JobStands (stateDir : PathBuf) (r j : String) (job : JobProvenance) (fs : FileSystem) : Prop :=
  JobFile stateDir fs r j job ∧ job.runId = r ∧ job.jobId = j

/-- of this run a state like this one was recorded, and what stands there now has come from it -/
def Stands (stateDir : PathBuf) (r : String) (p : RunState → Prop) (fs : FileSystem) : Prop :=
  ∃ state now, p state ∧ StateFile stateDir fs r now ∧ Later state now

/-- a dry run of this manifest, or a run that is in the store -/
structure Applied (stateDir : PathBuf) (manifest : CompositionManifest) (dryRun : Bool) (output : ApplyOutput)
    (fs : FileSystem) : Prop where
  dryRun : output.dryRun = dryRun
  manifestSha256 : output.manifestSha256 = manifest.digest lib
  runId : runId manifest (manifest.digest lib) = .ok output.runId
  recorded : output.dryRun = false → Stands stateDir output.runId
    (fun state => state.manifest = manifest ∧ state.containers = output.containers) fs

/-- jobs of this run, each as it is recorded and with this digest -/
def JobsOf (stateDir : PathBuf) (r digest : String) (jobs : BTreeMap JobProvenance) (fs : FileSystem) : Prop :=
  ∀ (j : String) (job : JobProvenance), jobs[j]? = some job →
    JobStands stateDir r j job fs ∧ job.manifestSha256 = digest

/-- a document about one run in one version -/
structure Provenance.Coherent (stateDir : PathBuf) (r : String) (document : Provenance) (fs : FileSystem) : Prop where
  runId : document.runId = r
  state : Stands stateDir r (fun state => document.manifestSha256 = state.manifestSha256 ∧
    document.effectiveEngine = state.provider ∧ document.createdUnixSeconds = state.createdUnixSeconds ∧
    document.containers = state.containers) fs
  jobs : JobsOf stateDir r document.manifestSha256 document.jobs fs

/-- the manifest that a path stands for, where nobody changes the file -/
def ReadFrom (path : PathBuf) (manifest : CompositionManifest) : Prop :=
  Valid manifest ∧ ∀ contents, A.manifests path.components = some contents →
    CompositionManifest.parse lib yaml contents = .ok manifest

/-- what a command prints, and what it says of the store -/
def Answers : Cli.Commands → Document → FileSystem → Prop
  | .plan path, .plan value, _ => ∃ manifest, ReadFrom lib yaml A path manifest ∧ manifest.plan lib = .ok value
  | .apply path dryRun, .applied value, fs =>
    ∃ manifest, ReadFrom lib yaml A path manifest ∧ Applied lib stateDir manifest dryRun value fs
  | .status r, .status value, fs => value.runId = r ∧ Stands stateDir r (value.lifecycle = ·.lifecycle) fs
  | .down r, .status value, fs => value.runId = r ∧ value.lifecycle = .down ∧ Stands stateDir r
      (fun state => state.lifecycle = .down ∧ value.services = state.containers.map fun _ _ => "down") fs
  | .runAction r _ j, .job value, fs => JobStands stateDir r j value fs
  | .exportProvenance r none, .provenance value, fs => value.Coherent stateDir r fs
  | _, _, _ => False

variable {lib yaml A} {fs fs' : FileSystem}

theorem JobStands.evolves {r j : String} {job : JobProvenance} (h : JobStands stateDir r j job fs)
    (he : Evolves stateDir fs fs') : JobStands stateDir r j job fs' :=
  ⟨he.jobs r j _ h.1, h.2⟩

theorem Stands.evolves {r : String} {p : RunState → Prop} (h : Stands stateDir r p fs) (he : Evolves stateDir fs fs') :
    Stands stateDir r p fs' := by
  obtain ⟨state, now, hp, hnow, hlater⟩ := h
  obtain ⟨now', hnow', hlater'⟩ := he.runs r now hnow
  exact ⟨state, now', hp, hnow', hlater.trans hlater'⟩

theorem JobsOf.evolves {r digest : String} {jobs : BTreeMap JobProvenance} (h : JobsOf stateDir r digest jobs fs)
    (he : Evolves stateDir fs fs') : JobsOf stateDir r digest jobs fs' :=
  fun j job hjob => ⟨(h j job hjob).1.evolves he, (h j job hjob).2⟩

/-- what was true of the store when it was printed remains so -/
theorem Answers.evolves {command : Cli.Commands} {document : Document} (h : Answers lib yaml A command document fs)
    (he : Evolves stateDir fs fs') : Answers lib yaml A command document fs' := by
  unfold Answers at h ⊢
  split at h
  · exact h
  · obtain ⟨manifest, hread, happlied⟩ := h
    exact ⟨manifest, hread, { happlied with recorded := fun hwet => (happlied.recorded hwet).evolves he }⟩
  · exact ⟨h.1, h.2.evolves he⟩
  · exact ⟨h.1, h.2.1, h.2.2.evolves he⟩
  · exact h.evolves he
  · exact ⟨h.runId, h.state.evolves he, h.jobs.evolves he⟩
  · exact h

end

/-! ## Looking -/

variable {lib : Externals} {yaml : YamlReader} {ι : Type} {stateDir : PathBuf} {A : Arrangement stateDir ι} {i : ι}
  {P : FileSystem → Prop} {ε α β : Type} {Q : Except (Stop ε) β → FileSystem → Prop}

/-- a job that is in the store now, for a state that was loaded before -/
theorem Loaded.job {r : String} {state : RunState} {fs : FileSystem} (hl : Loaded lib A i r state fs)
    (hs : Standing lib A fs) {j : String} {contents : Contents} {job : JobProvenance}
    (hc : fs.files (jobLocation stateDir r j) = some contents)
    (hd : lib.fromStr "JobProvenance" JobProvenance.codec contents = .ok job) :
    JobStands stateDir r j job fs ∧ job.manifestSha256 = state.manifestSha256 := by
  obtain ⟨job', now, rfl, hrun, hid, hnow, hdigest⟩ := hs.sound.jobs r j contents hc
  rw [lib.fromStr_encode] at hd
  obtain rfl : job' = job := Except.ok.inj hd
  obtain ⟨later, hlater, hsince⟩ := hl.recorded
  obtain rfl := hlater.unique hnow
  exact ⟨⟨hc, hrun, hid⟩, hdigest.trans hsince.manifestSha256⟩

theorem JobsOf.insert {r digest j : String} {jobs : BTreeMap JobProvenance} {job : JobProvenance} {fs : FileSystem}
    (h : JobsOf stateDir r digest jobs fs) (hjob : JobStands stateDir r j job fs)
    (hdigest : job.manifestSha256 = digest) : JobsOf stateDir r digest (jobs.insert j job) fs := by
  intro j' job' hget
  rw [get_insert] at hget
  split_ifs at hget with he
  · subst he
    cases hget
    exact ⟨hjob, hdigest⟩
  · exact h j' job' hget

section
variable {manifest : CompositionManifest} {run : String} {lifecycle : LifecyclePlan}

end

variable (A i) in
/-- a job that is ours to record -/
structure OwnJob (job : JobProvenance) : Prop where
  run_word : isWord job.runId = true
  job_word : isWord job.jobId = true
  job_ne_empty : job.jobId ≠ ""
  owner : A.jobOwner job.runId job.jobId = i

/-- what is known of an action that passed the checks -/
structure Checked (r j : String) (job : JobProvenance) : Prop where
  runId : job.runId = r
  jobId : job.jobId = j
  run_slug : validateSlug "run_id" r = .ok ()
  job_slug : validateSlug "job_id" j = .ok ()
  bindings : job.gpuBindings ≠ []

theorem Checked.own {r j : String} {job : JobProvenance} (h : Checked r j job) (howner : A.jobOwner r j = i) :
    OwnJob A i job := by
  obtain ⟨rfl, rfl, hr, hj, -⟩ := h
  exact ⟨(slug_word hr).1, (slug_word hj).1, (slug_word hj).2, howner⟩

/-- ready to be run: the checks are passed, and the job is not there -/
def Ready (stateDir : PathBuf) (r j : String) : RunState × Service × JobProvenance → FileSystem → Prop :=
  fun prepared s => Checked r j prepared.2.2 ∧ Unrecorded stateDir prepared.2.2 s

section
variable (lib yaml A)

end

/-- nothing is in the store yet, and the manifests are in place -/
structure Arrangement.Begins (A : Arrangement stateDir ι) (fs : FileSystem) : Prop where
  empty : ∀ l, stateDir.components <+: l → fs.files l = none
  manifests : ∀ l contents, A.manifests l = some contents → fs.files l = some contents

section
variable [DecidableEq ι] {fs : FileSystem}
  {t t' : List (Label Answer ι Cli.Commands (Except (Stop CliError) Cli.Executed))}
  {u v : Pool FileSystem ι Cli.Commands (Proc CliError Cli.Executed)}

end

/-! ## Two processes -/

def demoYaml : YamlReader := ⟨fun _ => .ok demo⟩

def demoPath : PathBuf := .ofStr "demo.yaml"

theorem demo_parses : CompositionManifest.parse .standard demoYaml (.text []) = .ok demo := by
  rw [CompositionManifest.parse, demoYaml]
  dsimp only
  rw [demo_valid]
  rfl

/-- the first process owns the runs, the second one the jobs -/
def twoProcesses : Arrangement runsDir Bool where
  processIds second := if second then 2 else 1
  distinct := by decide
  runOwner _ := false
  jobOwner _ _ := true
  manifests l := if l = demoPath.components then some (.text []) else none
  apart l h := by
    refine if_neg ?_
    rintro rfl
    exact absurd h (by decide)

def demoFiles : FileSystem := FileSystem.empty.put demoPath.components (some (.text []))

theorem demo_begins : twoProcesses.Begins demoFiles := by
  refine ⟨fun l hl => ?_, fun l contents hl => ?_⟩
  · rw [demoFiles, FileSystem.put_files_ne]
    · rfl
    · rintro rfl
      exact absurd hl (by decide)
  · have hl' : (if l = demoPath.components then some (Contents.text []) else none) = some contents := hl
    split_ifs at hl' with he
    rw [he, demoFiles, FileSystem.put_files_same, hl']

end PhenoCompose
