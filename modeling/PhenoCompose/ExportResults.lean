/-
What an export tells of a run, after any history of actions that may have crashed.

`Gives x fs P`: where the disk answers, and nothing that is there is missed, the program `x` ends well over these files,
with a value that satisfies `P`.

- `Gives.bind`, `Gives.foldlM`: programs that give values, one after the other.
- `loadJob_held`, `loadJob_temporary`: an entry that is a job is loaded under its id, one that is temporary is passed over.
- `export_missed`: an export that misses the directory of jobs tells of none.
- `export_complete`: an export tells exactly the committed jobs if and only if the run id is one that commands accept, no job
  was committed over another one, and the export misses no directory that holds a job.
-/
import PhenoCompose.JobHistory

namespace PhenoCompose

open Core.Collections Core.Crash Core.Json Core.Path Core.Process Core.Text Core.Transition

variable (lib : Externals)

/-! ## A disk that answers -/

/-- a read that failed, of a file, a directory or one of its entries -/
def Event.unread : Event Answer → Prop
  | ⟨.readToString _, .error _⟩ | ⟨.readDir _, .error _⟩ => True
  | ⟨.readDir _, .ok entries⟩ => ∃ e, .error e ∈ entries
  | _ => False

/-- no read failed -/
def Answered (t : Trace) : Prop := ∀ e ∈ t, ¬Event.unread e

/-- where every read is answered, and no check misses what is there, the program ends well, with a value like this, and
changes nothing -/
structure Gives {α : Type} (x : Proc CliError α) (fs : FileSystem) (P : α → Prop) : Prop where
  ends : ∃ t a, Run Step x fs t (.ok a) fs ∧ Answered t ∧ Seen fs t
  value : ∀ t r fs', Run Step x fs t r fs' → Answered t → Seen fs t → fs' = fs ∧ ∃ a, r = .ok a ∧ P a

section
variable {α β : Type} {x : Proc CliError α} {fs : FileSystem} {P : α → Prop} {Q : β → Prop}

theorem gives_pure {a : α} (h : P a) : Gives (pure a : Proc CliError α) fs P := by
  refine ⟨⟨[], a, run_pure.2 ⟨rfl, rfl, rfl⟩, List.forall_mem_nil _, List.forall_mem_nil _⟩, ?_⟩
  intro t r fs' hrun _ _
  obtain ⟨-, rfl, rfl⟩ := run_pure.1 hrun
  exact ⟨rfl, a, rfl, h⟩

theorem gives_lift {y : Except (Stop CliError) α} {a : α} (hy : y = .ok a) (h : P a) :
    Gives (liftM y : Proc CliError α) fs P := by
  subst hy
  exact gives_pure h

theorem Gives.bind {f : α → Proc CliError β} (hx : Gives x fs P) (hf : ∀ a, P a → Gives (f a) fs Q) :
    Gives (x >>= f) fs Q := by
  have hsplit : ∀ {t₁ t₂ : Trace}, Answered (t₁ ++ t₂) ↔ Answered t₁ ∧ Answered t₂ :=
    fun {_ _} => List.forall_mem_append
  refine ⟨?_, ?_⟩
  · obtain ⟨t₁, a, hrun, ht₁, hs₁⟩ := hx.ends
    obtain ⟨-, a', he, ha⟩ := hx.value _ _ _ hrun ht₁ hs₁
    cases he
    obtain ⟨t₂, b, hrest, ht₂, hs₂⟩ := (hf a ha).ends
    exact ⟨t₁ ++ t₂, b, hrun.bind hrest, hsplit.2 ⟨ht₁, ht₂⟩, hs₁.append hs₂⟩
  · intro t r fs' hrun ht hs
    rcases run_bind.1 hrun with ⟨a, t₁, u, t₂, h₁, h₂, rfl⟩ | ⟨e, he, rfl⟩
    · obtain ⟨ht₁, ht₂⟩ := hsplit.1 ht
      obtain ⟨hs₁, hs₂⟩ := List.forall_mem_append.1 hs
      obtain ⟨rfl, a', hr, ha⟩ := hx.value _ _ _ h₁ ht₁ hs₁
      cases hr
      exact (hf a ha).value _ _ _ h₂ ht₂ hs₂
    · obtain ⟨-, a, hr, -⟩ := hx.value _ _ _ he ht hs
      cases hr

theorem gives_sys {op : SysCall} {P : Answer op → Prop} (hsome : ∃ a, SeenStep fs op a fs ∧ ¬Event.unread ⟨op, a⟩)
    (hall : ∀ a fs', SeenStep fs op a fs' → ¬Event.unread ⟨op, a⟩ → fs' = fs ∧ P a) :
    Gives (sys op : Proc CliError (Answer op)) fs P := by
  refine ⟨?_, ?_⟩
  · obtain ⟨a, hstep, ha⟩ := hsome
    exact ⟨_, a, run_sys.2 ⟨a, hstep.step, rfl, rfl⟩, List.forall_mem_singleton.2 ha, List.forall_mem_singleton.2 hstep.2⟩
  · intro t r fs' hrun ht hs
    obtain ⟨a, hstep, rfl, rfl⟩ := run_sys.1 hrun
    obtain ⟨hsame, ha⟩ := hall a fs' ⟨hstep, hs _ (List.mem_singleton_self _)⟩ (ht _ (List.mem_singleton_self _))
    exact ⟨hsame, a, rfl, ha⟩

/-- reading a file that is there -/
theorem gives_read {file : Location} {contents : Contents} (h : fs.files file = some contents) :
    Gives (sys (.readToString file) : Proc CliError _) fs fun answer => answer = .ok contents := by
  refine gives_sys ⟨.ok contents, ⟨⟨rfl, h⟩, id⟩, id⟩ ?_
  intro a fs' hstep ha
  cases a with
  | error e => exact (ha trivial).elim
  | ok contents' => exact ⟨hstep.step.1, congrArg _ (Option.some.inj (hstep.step.2.symm.trans h))⟩

theorem Gives.imp {Q : α → Prop} (h : Gives x fs P) (hpq : ∀ a, P a → Q a) : Gives x fs Q := by
  refine ⟨h.ends, ?_⟩
  intro t r fs' hrun ht hs
  obtain ⟨hsame, a, hr, ha⟩ := h.value t r fs' hrun ht hs
  exact ⟨hsame, a, hr, hpq a ha⟩

/-- a loop, with what holds after the entries done so far -/
theorem Gives.foldlM {σ : Type} {f : σ → β → Proc CliError σ} {I : List β → σ → Prop} {entries : List β}
    (hstep : ∀ done e s, e ∈ entries → I done s → Gives (f s e) fs (I (done ++ [e]))) {done : List β} {s : σ}
    (hs : I done s) : Gives (entries.foldlM f s) fs (I (done ++ entries)) := by
  induction entries generalizing done s with
  | nil =>
    rw [List.append_nil]
    exact gives_pure hs
  | cons e entries ih =>
    rw [List.foldlM_cons]
    refine (hstep done e s List.mem_cons_self hs).bind fun s' hs' => ?_
    have hrest := ih (fun done e' s he' => hstep done e' s (List.mem_cons_of_mem e he')) hs'
    rwa [List.append_assoc] at hrest

end

/-! ## Entries -/

section
variable {stateDir : PathBuf} {run : String} {fs : FileSystem} {jobs : BTreeMap JobProvenance}

/-- the file name of a job, taken apart -/
theorem job_fileName (stateDir : PathBuf) (run : String) {jobId : String} (hj : isWord jobId = true)
    (hne : jobId ≠ "") : (jobPath stateDir run jobId).extension.bind toStr = some "json" ∧
      (jobPath stateDir run jobId).fileStem.bind toStr = some jobId := by
  have hname : bytes (jobId ++ ".json") = bytes jobId ++ dot :: bytes "json" := by rw [bytes_append]; rfl
  have hplain : Plain (bytes (jobId ++ ".json")) := plain_word hj (by decide) (by decide)
  have hstem : bytes jobId ≠ [] := fun h => hne (bytes_inj.1 h)
  have hfile : (jobPath stateDir run jobId).fileName = some (bytes jobId ++ dot :: bytes "json") := by
    rw [jobPath, PathBuf.ofStr, fileName_join _ hplain, hname]
  refine ⟨?_, ?_⟩
  · rw [PathBuf.extension, hfile, Option.bind_some, extension_append hstem (by decide)]
    exact toStr_bytes "json"
  · rw [PathBuf.fileStem, hfile, Option.map_some, fileStem_append hstem (by decide)]
    exact toStr_bytes jobId

/-- an entry that is a job is loaded under its id -/
theorem loadJob_held {jobId : String} {job : JobProvenance} (h : Held stateDir run fs jobId job) :
    Gives (loadJob lib (jobsPath stateDir run) run jobs (.ok (bytes (jobId ++ ".json")))) fs
      fun loaded => loaded = jobs.insert jobId job := by
  obtain ⟨⟨hr, hj, hne, hrun, hjob⟩, hfile⟩ := h
  obtain ⟨hextension, hstem⟩ := job_fileName stateDir run hj hne
  rw [← jobPath_components stateDir hr hj] at hfile
  have hjoin : (jobsPath stateDir run).join ⟨bytes (jobId ++ ".json")⟩ = jobPath stateDir run jobId := rfl
  rw [loadJob, io_ok_bind]
  dsimp only
  rw [hjoin, hextension, if_neg (not_not.2 rfl)]
  refine (gives_read hfile).bind ?_
  rintro _ rfl
  rw [io_ok_bind]
  refine (gives_lift (lib.fromStr_encode _ _ job) rfl).bind ?_
  rintro _ rfl
  have hsame : ¬(job.runId ≠ run ∨ (jobPath stateDir run jobId).fileStem.bind toStr ≠ some job.jobId) := by
    rw [hstem, hrun, hjob]
    simp
  refine (gives_lift (P := fun _ => True) (a := ()) (refuseIf_ok.2 hsame) trivial).bind fun _ _ => ?_
  rw [hjob]
  exact gives_pure rfl

/-- an entry that is temporary is passed over -/
theorem loadJob_temporary {name : Bytes}
    (h : JobTemporary stateDir (jobsLocation stateDir run ++ [.normal name])) :
    Gives (loadJob lib (jobsPath stateDir run) run jobs (.ok name)) fs fun loaded => loaded = jobs := by
  obtain ⟨run', jobId, processId, hr, hj, hne, he⟩ := h
  have hname : name = bytes (jobId ++ ("." ++ jobTemporaryExtension processId)) := by
    simpa [jobTemporaryLocation] using congrArg List.getLast? he
  have hsplit : name = bytes (jobId ++ ("." ++ ("json." ++ toString processId.toNat))) ++ dot :: bytes "tmp" := by
    have htmp : bytes ".tmp" = dot :: bytes "tmp" := rfl
    rw [hname, ← htmp, ← bytes_append, jobTemporaryExtension]
    simp only [String.append_assoc]
  have hstem : bytes (jobId ++ ("." ++ ("json." ++ toString processId.toNat))) ≠ [] := by
    rw [bytes_append]
    exact List.append_ne_nil_of_left_ne_nil (fun h => hne (bytes_inj.1 h)) _
  have hextension : ((jobsPath stateDir run).join ⟨name⟩).extension.bind toStr = some "tmp" := by
    rw [PathBuf.extension, fileName_join _ (hname ▸ plain_jobTemporary hj processId), Option.bind_some, hsplit,
      extension_append hstem (by decide)]
    exact toStr_bytes "tmp"
  rw [loadJob, io_ok_bind]
  dsimp only
  rw [hextension, if_pos (by decide)]
  exact gives_pure rfl

variable {fs₀ : FileSystem} {history : List Invocation}

theorem Held.unique {jobId : String} {job job' : JobProvenance} (h : Held stateDir run fs jobId job)
    (h' : Held stateDir run fs jobId job') : job' = job := by
  have hfile := h.file.symm.trans h'.file
  rw [Option.some.injEq, Contents.json.injEq, Codec.encode_inj] at hfile
  exact hfile.symm

theorem Held.present {jobId : String} {job : JobProvenance} (h : Held stateDir run fs jobId job) :
    fs.files (jobsLocation stateDir run ++ [.normal (bytes (jobId ++ ".json"))]) ≠ none := by
  have hfile : fs.files (jobsLocation stateDir run ++ [.normal (bytes (jobId ++ ".json"))]) = _ := h.file
  rw [hfile]
  exact Option.some_ne_none _

/-- the jobs are those of the entries done so far -/
structure LoadedFrom (stateDir : PathBuf) (run : String) (fs : FileSystem) (history : List Invocation)
    (done : List (Except IoError Bytes)) (jobs : BTreeMap JobProvenance) : Prop where
  sound : ∀ jobId job, jobs[jobId]? = some job → CommittedIn history (jobLocation stateDir run jobId) job
  complete : ∀ jobId job, .ok (bytes (jobId ++ ".json")) ∈ done → Held stateDir run fs jobId job →
    jobs[jobId]? = some job

/-- one more entry -/
theorem Kept.load_entry (hk : Kept stateDir run fs₀ history fs) {done : List (Except IoError Bytes)} {name : Bytes}
    (hthere : (fs.files (jobsLocation stateDir run ++ [.normal name])).isSome)
    (h : LoadedFrom stateDir run fs history done jobs) :
    Gives (loadJob lib (jobsPath stateDir run) run jobs (.ok name)) fs
      (LoadedFrom stateDir run fs history (done ++ [.ok name])) := by
  obtain ⟨contents, hfile⟩ := Option.isSome_iff_exists.1 hthere
  rcases hk.only name contents hfile with ht | ⟨jobId, job, rfl, hheld, hcommitted⟩
  · refine (loadJob_temporary lib ht).imp ?_
    rintro _ rfl
    refine ⟨h.sound, ?_⟩
    intro jobId job hdone hheld
    rcases List.mem_append.1 hdone with hdone | hdone
    · exact h.complete jobId job hdone hheld
    · obtain rfl : bytes (jobId ++ ".json") = name := Except.ok.inj (List.mem_singleton.1 hdone)
      exact absurd ht.temporary (job_not_temporary stateDir run jobId)
  · refine (loadJob_held lib hheld).imp ?_
    rintro _ rfl
    refine ⟨?_, ?_⟩
    · intro jobId' job' hget
      rw [get_insert] at hget
      split_ifs at hget with he
      · obtain rfl : job = job' := Option.some.inj hget
        rwa [← he]
      · exact h.sound jobId' job' hget
    · intro jobId' job' hdone hheld'
      rw [get_insert]
      split_ifs with he
      · subst he
        rw [hheld'.unique hheld]
      · refine h.complete jobId' job' ((List.mem_append.1 hdone).resolve_right ?_) hheld'
        intro hlast
        exact he (name_inj.1 (Except.ok.inj (List.mem_singleton.1 hlast))).symm

/-- the entries of the directory can be listed -/
theorem Kept.lists (hk : Kept stateDir run fs₀ history fs) : ∃ entries : List (Except IoError Bytes),
    fs.Lists (jobsLocation stateDir run) entries ∧ ∀ e, .error e ∉ entries := by
  have hmem : ∀ name, name ∈ hk.orderly.finite.toFinset.toList ↔
      fs.files (jobsLocation stateDir run ++ [.normal name]) ≠ none := by simp
  refine ⟨hk.orderly.finite.toFinset.toList.map .ok, ⟨?_, ?_, ?_⟩, by simp⟩
  · intro name hname
    obtain ⟨name', hname', he⟩ := List.mem_map.1 hname
    cases he
    exact .inl (Option.isSome_iff_ne_none.2 ((hmem name).1 hname'))
  · have hnames : (hk.orderly.finite.toFinset.toList.map (Except.ok (ε := IoError))).filterMap Except.toOption =
        hk.orderly.finite.toFinset.toList := by
      rw [List.filterMap_map]
      exact List.filterMap_some
    rw [hnames]
    exact Finset.nodup_toList _
  · intro _ name hname
    refine List.mem_map.2 ⟨name, (hmem name).2 ?_, rfl⟩
    refine Option.isSome_iff_ne_none.1 (hname.resolve_right ?_)
    rw [hk.orderly.flat]
    exact Bool.false_ne_true

/-- the jobs that are loaded are the committed ones -/
theorem loadJobs_gives (hr : isWord run = true) (hk : Kept stateDir run fs₀ history fs) :
    Gives (loadJobs lib stateDir run) fs fun jobs =>
      ∀ jobId job, jobs[jobId]? = some job ↔ CommittedIn history (jobLocation stateDir run jobId) job := by
  rw [loadJobs, jobsPath_components stateDir hr]
  refine Gives.bind (P := fun present => present = fs.dirs (jobsLocation stateDir run)) ?_ fun present hpresent => ?_
  · refine gives_sys ⟨_, seen_exists.2 ⟨rfl, rfl⟩, id⟩ ?_
    intro present fs' hstep _
    obtain ⟨hsame, hfound⟩ := seen_exists.1 hstep
    refine ⟨hsame, ?_⟩
    rw [hfound, hk.orderly.free]
    rfl
  cases hdirs : fs.dirs (jobsLocation stateDir run) with
  | false =>
    rw [hdirs] at hpresent
    subst hpresent
    refine gives_pure fun jobId job => ⟨?_, ?_⟩
    · intro hget
      simp at hget
    · intro hc
      have hthere := hk.orderly.there _ (hk.held jobId job hc).present
      rw [hdirs] at hthere
      cases hthere
  | true =>
    rw [hdirs] at hpresent
    subst hpresent
    refine Gives.bind (P := fun answer => ∃ entries, answer = .ok entries ∧
      fs.Lists (jobsLocation stateDir run) entries ∧ ∀ e, .error e ∉ entries) ?_ fun answer hanswer => ?_
    · obtain ⟨entries, hlists, hread⟩ := hk.lists
      refine gives_sys ⟨.ok entries, ⟨⟨rfl, hdirs, hlists⟩, id⟩, ?_⟩ ?_
      · intro he
        obtain ⟨e, he⟩ := he
        exact hread e he
      · intro answer fs' hstep hread
        cases answer with
        | error e => exact (hread trivial).elim
        | ok entries => exact ⟨hstep.step.1, entries, rfl, hstep.step.2.2, fun e he => hread ⟨e, he⟩⟩
    · obtain ⟨entries, rfl, hlists, hread⟩ := hanswer
      rw [io_ok_bind]
      have hinit : LoadedFrom stateDir run fs history [] ∅ :=
        ⟨fun _ _ hget => by simp at hget, fun _ _ hdone => (List.not_mem_nil hdone).elim⟩
      refine (Gives.foldlM (I := LoadedFrom stateDir run fs history) ?_ hinit).imp fun jobs hloaded => ?_
      · intro done e jobs he hloaded
        cases e with
        | error e => exact (hread e he).elim
        | ok name =>
          have hpresent := (hlists.there name he).resolve_right (by
            rw [hk.orderly.flat]
            exact Bool.false_ne_true)
          exact hk.load_entry lib hpresent hloaded
      · rw [List.nil_append] at hloaded
        intro jobId job
        refine ⟨hloaded.sound jobId job, ?_⟩
        intro hc
        have hheld := hk.held jobId job hc
        exact hloaded.complete jobId job (hlists.all hread _ (.inl (Option.isSome_iff_ne_none.2 hheld.present))) hheld

/-! ## The export -/

/-- exactly the jobs that the history committed for the run, each with its own ids -/
structure Exported (stateDir : PathBuf) (run : String) (history : List Invocation) (output : Provenance) : Prop where
  jobs : ∀ (jobId : String) (job : JobProvenance),
    output.jobs[jobId]? = some job ↔ CommittedIn history (jobLocation stateDir run jobId) job
  own : ∀ (jobId : String) (job : JobProvenance), output.jobs[jobId]? = some job → job.runId = run ∧ job.jobId = jobId

theorem loadState_gives {contents : Contents} {state : RunState} (hslug : validateSlug "run_id" run = .ok ())
    (hfile : fs.files (statePath stateDir run).components = some contents)
    (hdecode : lib.fromStr "RunState" RunState.codec contents = .ok state) :
    Gives (loadState lib stateDir run) fs fun loaded => loaded = state := by
  refine (gives_lift (P := fun _ => True) hslug trivial).bind fun _ _ => ?_
  refine (gives_read hfile).bind ?_
  rintro _ rfl
  exact gives_lift hdecode rfl

/-- a run id that commands do not accept has no export -/
theorem export_refused (hslug : validateSlug "run_id" run ≠ .ok ()) {t : Trace}
    {r : Except (Stop CliError) Provenance} {fs' : FileSystem}
    (h : Run Step (exportProvenance lib stateDir run) fs t r fs') : ∃ e, r = .error e := by
  cases r with
  | error e => exact ⟨e, rfl⟩
  | ok output =>
    obtain ⟨state, t₁, u, t₂, hload, -, -⟩ := run_bind_ok.1 h
    exact absurd ((run_loadState lib).1 hload).1 hslug

/-- only the directory of jobs is checked for; where it is missed, there are no jobs -/
theorem loadJobs_missed {r : Except (Stop CliError) (BTreeMap JobProvenance)} {t : Trace} {fs' : FileSystem}
    (h : Run Step (loadJobs lib stateDir run) fs t r fs') : Seen fs t ∨ r = .ok ∅ := by
  obtain ⟨present, u, t', hfound, hrest, rfl⟩ := run_sys_bind.1 h
  cases present with
  | false => exact .inr (run_pure.1 hrest).2.1
  | true =>
    left
    have honly := load_entries_reads lib (P := Event.unchecking) (fun _ _ => trivial) (fun _ _ => trivial)
      (jobsPath stateDir run) run
    refine List.forall_mem_cons.2 ⟨fun hmissed => Bool.noConfusion hmissed.1, ?_⟩
    exact fun e he => (honly.mem hrest e he).seen

/-- an export that misses the directory of jobs tells of none -/
theorem export_missed {contents : Contents} {state : RunState} (hslug : validateSlug "run_id" run = .ok ())
    (hfile : fs.files (statePath stateDir run).components = some contents)
    (hdecode : lib.fromStr "RunState" RunState.codec contents = .ok state)
    (hrequired : state.manifest.provenance.required = true) {r : Except (Stop CliError) Provenance} {t : Trace}
    {fs' : FileSystem} (h : Run Step (exportProvenance lib stateDir run) fs t r fs') (hanswered : Answered t)
    (hmissed : ¬Seen fs t) : ∃ output, r = .ok output ∧ output.jobs = ∅ := by
  have hstate := loadState_gives lib hslug hfile hdecode
  have hlooked : ∀ {t r u}, Run Step (loadState lib stateDir run) fs t r u → Seen fs t := fun hload e he =>
    ((loadState_reads lib (P := Event.unchecking) (fun _ _ => trivial) _ _).mem hload e he).seen
  rcases run_bind.1 h with ⟨loaded, t₁, u, t', hload, h₁, rfl⟩ | ⟨e, hload, rfl⟩
  · have hseen₁ := hlooked hload
    obtain ⟨hanswered₁, -⟩ := List.forall_mem_append.1 hanswered
    obtain ⟨rfl, loaded', he, hloaded⟩ := hstate.value _ _ _ hload hanswered₁ hseen₁
    obtain rfl : state = loaded := hloaded.symm.trans (Except.ok.inj he).symm
    rcases run_lift_bind.1 h₁ with ⟨⟨⟩, -, h₂⟩ | ⟨e, hrefused, -⟩
    · rcases run_bind.1 h₂ with ⟨jobs, t₂, v, t₃, hjobs, hpure, rfl⟩ | ⟨e, hjobs, rfl⟩
      · obtain ⟨rfl, rfl, -⟩ := run_pure.1 hpure
        rw [List.append_nil] at hmissed
        refine ⟨_, rfl, ?_⟩
        exact Except.ok.inj ((loadJobs_missed lib hjobs).resolve_left fun hseen₂ => hmissed (hseen₁.append hseen₂))
      · cases (loadJobs_missed lib hjobs).resolve_left fun hseen₂ => hmissed (hseen₁.append hseen₂)
    · have hallowed : ¬state.manifest.provenance.required = false := by
        rw [hrequired]
        exact Bool.true_eq_false_eq_False
      cases hrefused.symm.trans (refuseIf_ok.2 hallowed : refuseIf _ _ = .ok ())
  · exact (hmissed (hlooked hload)).elim

/-- the state of the run is what it was before the history -/
theorem Kept.recorded {contents : Contents} (hk : Kept stateDir run fs₀ history fs)
    (hslug : validateSlug "run_id" run = .ok ())
    (hfile : fs₀.files (statePath stateDir run).components = some contents) :
    fs.files (statePath stateDir run).components = some contents := by
  rw [statePath_components stateDir (slug_word hslug).1] at hfile ⊢
  exact hk.state.trans hfile

/-- where no job was committed over another one, an export that misses nothing gives exactly the committed jobs -/
theorem export_gives {contents : Contents} {state : RunState} (hslug : validateSlug "run_id" run = .ok ())
    (hfile : fs.files (statePath stateDir run).components = some contents)
    (hdecode : lib.fromStr "RunState" RunState.codec contents = .ok state)
    (hrequired : state.manifest.provenance.required = true) (hk : Kept stateDir run fs₀ history fs) :
    Gives (exportProvenance lib stateDir run) fs (Exported stateDir run history) := by
  obtain ⟨hr, -⟩ := slug_word hslug
  have hallowed : ¬state.manifest.provenance.required = false := by
    rw [hrequired]
    exact Bool.true_eq_false_eq_False
  refine (loadState_gives lib hslug hfile hdecode).bind ?_
  rintro _ rfl
  refine (gives_lift (P := fun _ => True) (a := ()) (refuseIf_ok.2 hallowed) trivial).bind fun _ _ => ?_
  refine (loadJobs_gives lib hr hk).bind fun jobs hjobs => gives_pure ⟨hjobs, ?_⟩
  intro jobId job hget
  have hheld := hk.held jobId job ((hjobs jobId job).1 hget)
  exact ⟨hheld.named.run, hheld.named.job⟩

/-- what is told under an id is one job -/
theorem Exported.unreplaced {output : Provenance} (h : Exported stateDir run history output) :
    Unreplaced stateDir run history := by
  intro jobId job job' hc hc'
  exact Option.some.inj (((h.jobs jobId job).2 hc).symm.trans ((h.jobs jobId job').2 hc'))

/-- **An export is complete, over any history of actions.** A run that requires provenance has been recorded, and then
actions were run on this run and on others, each of which ended or crashed at any of its calls. An export whose reads are
answered ends well and tells exactly the jobs whose rename completed, if and only if the run id is one that commands accept,
no job of the run was committed over another one, and the export has not missed the directory of jobs, if any was committed.
Such an export there is. -/
theorem export_complete {contents : Contents} {state : RunState}
    (hfile : fs₀.files (statePath stateDir run).components = some contents)
    (hdecode : lib.fromStr "RunState" RunState.codec contents = .ok state)
    (hrequired : state.manifest.provenance.required = true)
    (hnew : ∀ l, jobsLocation stateDir run <+: l → fs₀.files l = none ∧ fs₀.dirs l = false)
    (h : Runs (Invoked lib Step stateDir) fs₀ history fs) :
    (∀ t r fs', Run Step (exportProvenance lib stateDir run) fs t r fs' → Answered t →
      ((∃ output, r = .ok output ∧ Exported stateDir run history output) ↔
        validateSlug "run_id" run = .ok () ∧ Unreplaced stateDir run history ∧
          (Seen fs t ∨ ∀ jobId job, ¬CommittedIn history (jobLocation stateDir run jobId) job))) ∧
      (validateSlug "run_id" run = .ok () → Unreplaced stateDir run history →
        ∃ t output, Run Step (exportProvenance lib stateDir run) fs t (.ok output) fs ∧ Answered t ∧ Seen fs t) := by
  have hkept : Unreplaced stateDir run history → Kept stateDir run fs₀ history fs := kept_history hnew h
  have hgives : ∀ (_ : validateSlug "run_id" run = .ok ()) (_ : Unreplaced stateDir run history),
      Gives (exportProvenance lib stateDir run) fs (Exported stateDir run history) := fun hslug hunreplaced =>
    export_gives lib hslug ((hkept hunreplaced).recorded hslug hfile) hdecode hrequired (hkept hunreplaced)
  refine ⟨?_, fun hslug hunreplaced => (hgives hslug hunreplaced).ends⟩
  intro t r fs' hrun hanswered
  have hmissed : ∀ (_ : validateSlug "run_id" run = .ok ()) (_ : Unreplaced stateDir run history) (_ : ¬Seen fs t),
      ∃ output, r = .ok output ∧ output.jobs = ∅ := fun hslug hunreplaced =>
    export_missed lib hslug ((hkept hunreplaced).recorded hslug hfile) hdecode hrequired hrun hanswered
  refine ⟨?_, ?_⟩
  · intro htold
    obtain ⟨output, rfl, hexported⟩ := htold
    have hslug : validateSlug "run_id" run = .ok () := by
      by_contra hslug
      obtain ⟨e, he⟩ := export_refused lib hslug hrun
      cases he
    refine ⟨hslug, hexported.unreplaced, ?_⟩
    by_cases hseen : Seen fs t
    · exact .inl hseen
    · right
      intro jobId job hc
      obtain ⟨_, he, hnone⟩ := hmissed hslug hexported.unreplaced hseen
      obtain rfl := Except.ok.inj he
      have hget := (hexported.jobs jobId job).2 hc
      rw [hnone] at hget
      simp at hget
  · intro hcondition
    obtain ⟨hslug, hunreplaced, hdirectory⟩ := hcondition
    by_cases hseen : Seen fs t
    · obtain ⟨-, output, hr, hexported⟩ := (hgives hslug hunreplaced).value t r fs' hrun hanswered hseen
      exact ⟨output, hr, hexported⟩
    · -- there was nothing to miss
      obtain ⟨output, hr, hnone⟩ := hmissed hslug hunreplaced hseen
      refine ⟨output, hr, fun jobId job => ?_, fun jobId job hget => ?_⟩
      · simp [hnone, hdirectory.resolve_left hseen jobId job]
      · simp [hnone] at hget

end

/-! ## Two runs -/

/-- a state directory that holds the file of a run holds no jobs of it -/
theorem alone_untouched (stateDir : PathBuf) {run : String} (hr : isWord run = true) (contents : Contents) :
    ∀ l, jobsLocation stateDir run <+: l →
      (FileSystem.empty.put (statePath stateDir run).components (some contents)).files l = none ∧
        (FileSystem.empty.put (statePath stateDir run).components (some contents)).dirs l = false := by
  intro l hl
  refine ⟨?_, rfl⟩
  have hne : l ≠ (statePath stateDir run).components := by
    rintro rfl
    rw [statePath_components stateDir hr] at hl
    have he : jobsLocation stateDir run = stateLocation stateDir run :=
      hl.eq_of_length (by simp [jobsLocation, stateLocation])
    have hb : bytes (run ++ ".jobs") = bytes (run ++ ".json") := by simpa [jobsLocation, stateLocation] using he
    rw [bytes_append, bytes_append] at hb
    exact absurd (List.append_cancel_left hb) (by decide)
  rw [FileSystem.put_files_ne _ _ hne]
  rfl

/-- the action of `demo`, from its first call -/
theorem action_run : Run SeenStep
    (runActionWithClient .standard (.ofStr "runs") "demo-000000000000" "evaluate" "job-1") (runFiles demo)
    (⟨.currentDir, .ok (.ofStr "/work")⟩ :: evaluated.1) evaluated.2.1 evaluated.2.2 :=
  run_call_next.2 ⟨.ok (.ofStr "/work"), runFiles demo, evaluated.1, ⟨rfl, id⟩,
    run_perform_seen evaluated.eq_def.symm, rfl⟩

/-- the job of an action that ran to its end is exported -/
theorem export_complete_example : ∃ history fs, Runs (Invoked .standard Step (.ofStr "runs")) (runFiles demo) history fs ∧
    history.length = 1 ∧ ∃ t output,
      Run Step (exportProvenance .standard (.ofStr "runs") "demo-000000000000") fs t (.ok output) fs ∧
      Exported (.ofStr "runs") "demo-000000000000" history output := by
  have hbegins : ∀ {step}, Run step (runActionWithClient .standard (.ofStr "runs") "demo-000000000000" "evaluate" "job-1")
      (runFiles demo) (⟨.currentDir, .ok (.ofStr "/work")⟩ :: evaluated.1) evaluated.2.1 evaluated.2.2 →
      Runs (Invoked .standard step (.ofStr "runs")) (runFiles demo)
        [⟨"demo-000000000000", "evaluate", "job-1", ⟨.currentDir, .ok (.ofStr "/work")⟩ :: evaluated.1⟩] evaluated.2.2 :=
    fun h => runs_one.2 (begins_of_run h)
  have hword : isWord "demo-000000000000" = true := rfl
  have huntouched := alone_untouched (.ofStr "runs") hword (.json (RunState.codec.encode (twoContainers demo)))
  have hruns := hbegins (seen_run action_run)
  have hunreplaced := unreplaced_of_seen huntouched (hbegins action_run)
  have hcomplete := export_complete .standard (FileSystem.put_files_same _ _ _)
    (Externals.standard.fromStr_encode _ _ _) rfl huntouched hruns
  obtain ⟨t, output, hrun, hanswered, hseen⟩ := hcomplete.2 rfl hunreplaced
  obtain ⟨output', he, hexported⟩ := (hcomplete.1 _ _ _ hrun hanswered).2 ⟨rfl, hunreplaced, .inl hseen⟩
  obtain rfl := Except.ok.inj he
  exact ⟨_, _, hruns, rfl, t, output, hrun, hexported⟩

/-- a run of a valid composition that requires provenance, recorded and untouched, and every export of it is refused -/
theorem underscore_not_exported : ∃ run lifecycle,
    Planned .standard (twoServices "_demo" uuidA [] "api") run lifecycle ∧ ∃ state fs,
      fs.files (statePath runsDir run).components = some (.json (RunState.codec.encode state)) ∧
      state.runId = run ∧ state.manifest = twoServices "_demo" uuidA [] "api" ∧
      state.manifest.provenance.required = true ∧
      (∀ l, jobsLocation runsDir run <+: l → fs.files l = none ∧ fs.dirs l = false) ∧
      ∀ t r fs', Run Step (exportProvenance .standard runsDir run) fs t r fs' → ∃ e, r = .error e := by
  have hvalid : (twoServices "_demo" uuidA [] "api").validate .standard = .ok () := rfl
  obtain ⟨run, lifecycle, hp⟩ := ((validate_ok_iff .standard).1 hvalid).planned .standard
  refine ⟨run, lifecycle, hp, { twoContainers (twoServices "_demo" uuidA [] "api") with runId := run },
    _, FileSystem.put_files_same _ _ _, rfl, rfl, rfl, alone_untouched runsDir hp.word _, ?_⟩
  intro t r fs' hrun
  exact export_refused .standard (fun hslug => absurd ((hp.slug_iff .standard).1 hslug).1 (by decide)) hrun

end PhenoCompose
