/-
Any number of processes, each with its own command lines, on one state directory at the same time.

Every call to the operating system is one step, and the processes take turns in any order; one that stops for good in the
middle of a command just takes no more turns. Nothing in the code keeps two of them off the same run, so an `Arrangement`
says which process may apply a run and take it down, and which one may make each job; anyone may look.

- `Standing`: what the files hold at every moment. `Evolves`: what becomes of it.
- `contract`: what a process leaves alone, and may count on while the others take their turns.
- `loadState_honours`, `saveState_honours`, `save_job_honours`: what that is worth to a process that reads and writes.
-/
import PhenoCompose.Core.RelyGuarantee
import PhenoCompose.PanicFree
import PhenoCompose.RunStore
import PhenoCompose.StoreLayout

namespace PhenoCompose

open Core.Collections Core.Interleave Core.Json Core.Path Core.Process Core.RelyGuarantee Core.Text Core.Transition

/-! ## Who writes what -/

/-- the process ids, the one process that changes each file, and the manifests that nobody changes -/
structure Arrangement (stateDir : PathBuf) (ι : Type) where
  processIds : ι → UInt32
  distinct : Function.Injective processIds
  runOwner : String → ι
  jobOwner : String → String → ι
  manifests : Location → Option Contents
  apart : ∀ file, stateDir.components <+: file → manifests file = none

namespace StoreFile

/-- its ids are words: what a slug is, and what a run id is even where it is no slug -/
def Worded (file : StoreFile) : Prop := ∀ part ∈ file.parts, isWord part.1 = true

def location (stateDir : PathBuf) (file : StoreFile) : Location :=
  stateDir.components ++ file.parts.map fun part => .normal (dotted part)

variable {stateDir : PathBuf} {file other : StoreFile}

theorem location_inj (h : file.Worded) (h' : other.Worded) (he : file.location stateDir = other.location stateDir) :
    file = other := parts_inj (names_inj h h' (List.append_cancel_left he))

theorem location_state (r : String) : (state r).location stateDir = stateLocation stateDir r ∧
    (stateTemporary r).location stateDir = PhenoCompose.stateTemporary stateDir r := ⟨rfl, rfl⟩

end StoreFile

namespace Arrangement

variable {ι : Type} {stateDir : PathBuf} (A : Arrangement stateDir ι) {i j : ι}

/-- this process may change the file -/
def Writes (i : ι) : StoreFile → Prop
  | .state r | .stateTemporary r => A.runOwner r = i
  | .jobs _ => False
  | .job r j => A.jobOwner r j = i
  | .jobTemporary _ _ processId => processId = A.processIds i

theorem writes_unique {file : StoreFile} (h : A.Writes i file) (h' : A.Writes j file) : i = j := by
  cases file with
  | state | stateTemporary => exact h.symm.trans h'
  | jobs => exact h.elim
  | job => exact h.symm.trans h'
  | jobTemporary => exact A.distinct (h.symm.trans h')

/-- the location of a file that this process may change -/
def Owned (i : ι) (l : Location) : Prop := ∃ file : StoreFile, file.Worded ∧ A.Writes i file ∧ l = file.location stateDir

/-- neither in the store nor a manifest -/
def Free (l : Location) : Prop := ¬stateDir.components <+: l ∧ A.manifests l = none

theorem owned_unique {l : Location} (h : A.Owned i l) (h' : A.Owned j l) : i = j := by
  obtain ⟨file, hword, hwrites, rfl⟩ := h
  obtain ⟨other, hword', hwrites', he⟩ := h'
  obtain rfl := StoreFile.location_inj hword hword' he
  exact A.writes_unique hwrites hwrites'

theorem Owned.below {A : Arrangement stateDir ι} {l : Location} (h : A.Owned i l) : stateDir.components <+: l := by
  obtain ⟨file, -, -, rfl⟩ := h
  exact List.prefix_append _ _

end Arrangement

/-! ## What the files hold -/

section
variable (lib : Externals) {ι : Type} {stateDir : PathBuf} (A : Arrangement stateDir ι)

/-- the store is sound, its manifests are valid ones, and the manifests outside are as they were -/
structure Standing (fs : FileSystem) : Prop where
  sound : Sound lib stateDir fs
  valid : ∀ r state, StateFile stateDir fs r state → Valid state.manifest
  manifests : ∀ l contents, A.manifests l = some contents → fs.files l = some contents

/-- the others leave alone what is ours, and what they do to the rest of the store only adds to it -/
def contract (i : ι) : Contract FileSystem where
  inv := Standing lib A
  rely fs fs' := Evolves stateDir fs fs' ∧ ∀ l, A.Owned i l → fs'.files l = fs.files l
  guarantee fs fs' := Evolves stateDir fs fs' ∧ ∀ j, j ≠ i → ∀ l, A.Owned j l → fs'.files l = fs.files l

/-- a call of one process: it misses nothing that is there, it has its own id, and the entries of a directory have file
names -/
structure CallStep (i : ι) (fs : FileSystem) (call : SysCall) (answer : Answer call) (fs' : FileSystem) : Prop where
  step : Step fs call answer fs'
  unmissed : ¬Missed fs ⟨call, answer⟩
  own_id : ∀ id, (⟨call, answer⟩ : Event Answer) = ⟨.processId, id⟩ → id = A.processIds i
  plain : ∀ directory entries, (⟨call, answer⟩ : Event Answer) = ⟨.readDir directory, .ok entries⟩ →
    ∀ name, .ok name ∈ entries → Plain name

end

/-! ## What a call does to them -/

/-- the same states and jobs -/
structure SameStore (stateDir : PathBuf) (fs fs' : FileSystem) : Prop where
  runs : ∀ r, fs'.files (stateLocation stateDir r) = fs.files (stateLocation stateDir r)
  jobs : ∀ r j, fs'.files (jobLocation stateDir r j) = fs.files (jobLocation stateDir r j)

section
variable {lib : Externals} {ι : Type} {stateDir : PathBuf} {A : Arrangement stateDir ι} {i : ι} {fs fs' : FileSystem}

theorem SameStore.state_iff (h : SameStore stateDir fs fs') (r : String) (state : RunState) :
    StateFile stateDir fs' r state ↔ StateFile stateDir fs r state := by
  rw [StateFile, StateFile, h.runs]

theorem SameStore.sound (h : SameStore stateDir fs fs') (hs : Sound lib stateDir fs) : Sound lib stateDir fs' := by
  refine ⟨fun r contents hc => hs.runs r contents ((h.runs r).symm.trans hc), fun r j contents hc => ?_⟩
  simp only [h.state_iff]
  exact hs.jobs r j contents ((h.jobs r j).symm.trans hc)

theorem SameStore.evolves (h : SameStore stateDir fs fs') : Evolves stateDir fs fs' := by
  refine ⟨fun r state hs => ⟨state, (h.state_iff r state).2 hs, .inl rfl⟩, fun r j contents hc => ?_⟩
  rw [h.jobs r j, hc]

theorem same_store_of_files (h : fs'.files = fs.files) : SameStore stateDir fs fs' :=
  ⟨fun _ => congrFun h _, fun _ _ => congrFun h _⟩

variable (A) in
/-- a file of which the store knows nothing: one of our temporary ones, or one elsewhere -/
def Beside (i : ι) (l : Location) : Prop := Temporary l ∧ A.Owned i l ∨ A.Free l

theorem Beside.same_store {l : Location} (h : Beside A i l) (hframe : ∀ l', l' ≠ l → fs'.files l' = fs.files l') :
    SameStore stateDir fs fs' := by
  refine ⟨fun r => hframe _ ?_, fun r j => hframe _ ?_⟩
  · rintro rfl
    rcases h with h | h
    · exact state_not_temporary _ r h.1
    · exact h.1 (List.prefix_append _ _)
  · rintro rfl
    rcases h with h | h
    · exact job_not_temporary _ r j h.1
    · exact h.1 ((List.prefix_append _ _).trans (List.prefix_append _ _))

/-- a call that changes no file -/
theorem Standing.still (hs : Standing lib A fs) (h : fs'.files = fs.files) :
    Standing lib A fs' ∧ (contract lib A i).guarantee fs fs' := by
  have hsame : SameStore stateDir fs fs' := same_store_of_files h
  refine ⟨⟨hsame.sound hs.sound, fun r state hstate => hs.valid r state ((hsame.state_iff r state).1 hstate), ?_⟩,
    hsame.evolves, fun _ _ l _ => congrFun h l⟩
  intro l contents hl
  rw [h, hs.manifests l contents hl]

/-- nothing that is stable ends with it -/
theorem Standing.stays (hs : Standing lib A fs) {P : FileSystem → Prop} (hP : Stable (contract lib A i) P)
    (h : fs'.files = fs.files) (hp : P fs) : P fs' :=
  hP fs fs' hs (hs.still (i := i) h).1 ⟨(same_store_of_files h).evolves, fun l _ => congrFun h l⟩ hp

/-- a call that changes one file beside the store -/
theorem Standing.beside (hs : Standing lib A fs) {l : Location} (hb : Beside A i l)
    (hframe : ∀ l', l' ≠ l → fs'.files l' = fs.files l') :
    Standing lib A fs' ∧ (contract lib A i).guarantee fs fs' := by
  have hsame := hb.same_store hframe
  refine ⟨⟨hsame.sound hs.sound, fun r state hstate => hs.valid r state ((hsame.state_iff r state).1 hstate), ?_⟩,
    hsame.evolves, ?_⟩
  · intro l' contents hl'
    rw [hframe l' ?_, hs.manifests l' contents hl']
    rintro rfl
    rcases hb with hb | hb
    · rw [A.apart _ hb.2.below] at hl'
      cases hl'
    · rw [hb.2] at hl'
      cases hl'
  · intro j hj l' howned
    refine hframe l' ?_
    rintro rfl
    rcases hb with hb | hb
    · exact hj (A.owned_unique howned hb.2)
    · exact hb.1 howned.below

end

/-! ## Ends -/

/-- with an error to report, or with a value of which this holds -/
def Ends {α : Type} (Q : α → FileSystem → Prop) (out : Except (Stop CliError) α) (fs : FileSystem) : Prop :=
  Raises out ∧ ∀ a, out = .ok a → Q a fs

section
variable {α β : Type} {Q : α → FileSystem → Prop} {Q' : β → FileSystem → Prop} {fs : FileSystem}

theorem ends_ok {a : α} (h : Q a fs) : Ends Q (.ok a) fs := by
  refine ⟨.ok a, ?_⟩
  intro b he
  cases he
  exact h

theorem ends_error {x : Except (Stop CliError) β} (hx : Raises x) {e : Stop CliError} (he : x = .error e) :
    Ends Q (.error e) fs := by
  refine ⟨raises_pass hx he, ?_⟩
  intro b he
  cases he

theorem Ends.pass {e : Stop CliError} (h : Ends Q' (.error e) fs) : Ends Q (.error e) fs := ends_error h.1 rfl

end

/-! ## Reading and writing -/

section
variable {lib : Externals} {ι : Type} {stateDir : PathBuf} {A : Arrangement stateDir ι} {i : ι}
  {P : FileSystem → Prop} {ε α β γ : Type} {post : Except (Stop ε) β → FileSystem → Prop}

/-- what is not found is not there -/
theorem CallStep.absent {file : Location} {fs fs' : FileSystem} (h : CallStep A i fs (.pathExists file) false fs') :
    fs.files file = none := (seen_nothing ⟨h.step, h.unmissed⟩).1

theorem write_elsewhere {file : Location} {contents : Contents} {fs fs' : FileSystem} {a : Except IoError Unit}
    (h : Step fs (.write file contents) a fs') (l : Location) (hl : l ≠ file) : fs'.files l = fs.files l := by
  cases a with
  | ok => rw [h.1, FileSystem.put_files_ne _ _ hl]
  | error =>
    rcases h with rfl | ⟨torn, rfl⟩
    · rfl
    · rw [FileSystem.put_files_ne _ _ hl]

section
variable {x : Proc CliError β} {Q : β → FileSystem → Prop}

end

variable (lib A i) in
/-- what was loaded under a run id, and where it stands now -/
structure Loaded (r : String) (state : RunState) (s : FileSystem) : Prop where
  slug : validateSlug "run_id" r = .ok ()
  attests : Attests lib r state
  valid : Valid state.manifest
  recorded : ∃ state', StateFile stateDir s r state' ∧ Later state state'
  ours : A.runOwner r = i → StateFile stateDir s r state

/-- the job is not there yet, and its digest is that of its run -/
structure Unrecorded (stateDir : PathBuf) (job : JobProvenance) (s : FileSystem) : Prop where
  fresh : s.files (jobLocation stateDir job.runId job.jobId) = none
  digest : ∃ state, StateFile stateDir s job.runId state ∧ job.manifestSha256 = state.manifestSha256

/-- this job is recorded under these ids -/
def JobFile (stateDir : PathBuf) (fs : FileSystem) (r j : String) (job : JobProvenance) : Prop :=
  fs.files (jobLocation stateDir r j) = some (.json (JobProvenance.codec.encode job))

theorem stable_job_file (r j : String) (job : JobProvenance) :
    Stable (contract lib A i) fun s => JobFile stateDir s r j job := fun _ _ _ _ h hp => h.1.jobs r j _ hp

theorem Unrecorded.same {job : JobProvenance} {s u : FileSystem} (h : Unrecorded stateDir job s)
    (hsame : SameStore stateDir s u) : Unrecorded stateDir job u := by
  obtain ⟨state, hstate, hdigest⟩ := h.digest
  exact ⟨(hsame.jobs _ _).trans h.fresh, state, (hsame.state_iff _ _).2 hstate, hdigest⟩

end

end PhenoCompose
