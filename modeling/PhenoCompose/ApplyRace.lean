/-
Processes that apply one manifest to one state directory.

The existence check and the rename that commits the state are two calls with the creation of the containers between them,
and every apply of a manifest writes the same temporary file. `Stage` is how far a call has come, with the state that it is
about to commit.

- `apply_follows`: an apply writes its state to the temporary and then renames that, only after a check that found no run.
- `Settled.turn`: what an undisturbed process renames is what it wrote, and the file stays what it renamed.
- `concurrent_applies`: where nobody who commits has missed a commit in its check, and nobody gets between a process's check
  and its commit, or writes the temporary between its write and its commit, one apply returns `Ok` at most, and the state
  file lists its containers.
-/
import PhenoCompose.Core.CheckThenAct
import PhenoCompose.Core.Interleave
import PhenoCompose.RunStore

namespace PhenoCompose.Applies

open Core.CheckThenAct Core.Collections Core.Interleave Core.Json Core.Path Core.Process Core.Text Core.Transition

variable (lib : Externals)

abbrev Outcome := Except (Stop CliError) ApplyOutput

abbrev Processes (ι : Type) := Pool FileSystem ι Unit (Proc CliError ApplyOutput)

abbrev ProcessLabel (ι : Type) := Label Answer ι Unit Outcome

/-- any process makes any call -/
def AnyProcess {ι : Type} (_ : ι) : FileSystem → (call : SysCall) → Answer call → FileSystem → Prop := Step

abbrev ProcessTurn {ι : Type} [DecidableEq ι] (manifest : CompositionManifest) (stateDir : PathBuf) :
    Processes ι → ProcessLabel ι → Processes ι → Prop :=
  Turn (programs fun _ : Unit => applyWithLifecycleClient lib manifest stateDir false) AnyProcess

/-! ## The stages of a call -/

inductive Stage where
  | unchecked
  | entitled
  | written (state : RunState)
  | committed (state : RunState)

/-- a call that leaves the state file and its temporary alone -/
def Spares : Event Answer → Prop
  | ⟨.podman _, _⟩ | ⟨.lifecycle _, _⟩ | ⟨.clock, _⟩ | ⟨.pathExists _, _⟩ | ⟨.createDirAll _, _⟩ => True
  | _ => False

/-- the contents of the file of a run -/
def contentsOf (state : RunState) : Contents := .json (RunState.codec.encode state)

def Stage.does (file temporary : Location) : Stage → Event Answer → Stage → Prop
  | .unchecked, e, q => (Event.preparing e ∧ q = .unchecked) ∨ (e = ⟨.pathExists file, false⟩ ∧ q = .entitled)
  | .entitled, e, q =>
    (Spares e ∧ q = .entitled) ∨
      ∃ state a, e = ⟨.write temporary (contentsOf state), a⟩ ∧ q = if a.isOk then .written state else .entitled
  | .written state, e, q => ∃ a, e = ⟨.rename temporary file, a⟩ ∧ q = if a.isOk then .committed state else .entitled
  | .committed _, _, _ => False

/-- a state and an output of the same run, with the same containers -/
def Records (state : RunState) (output : ApplyOutput) : Prop :=
  state.runId = output.runId ∧ state.containers = output.containers

def Stage.ends (q : Stage) (r : Outcome) : Prop :=
  (∃ e, r = .error e) ∨ ∃ state output, q = .committed state ∧ r = .ok output ∧ Records state output

def stages (file temporary : Location) : Behaviour Answer Unit Outcome Stage :=
  ⟨fun _ => .unchecked, Stage.does file temporary, Stage.ends⟩

section
variable {file temporary : Location}

theorem commanding_spares {e : Event Answer} (h : Event.commanding e) : Spares e := by
  obtain ⟨call, a⟩ := e
  cases call
  case podman => trivial
  all_goals exact h.elim

/-- Podman commands, from where they spare the state -/
theorem follows_commanding {α : Type} {x : Proc CliError α} (h : Only Event.commanding x) :
    Follows (Stage.does file temporary) (fun q _ => q = .entitled) x .entitled :=
  Follows.only h (fun _ he => .inl ⟨commanding_spares he, rfl⟩) fun _ => rfl

/-- going on after a call -/
theorem follows_next {α : Type} {call : SysCall} {f : Answer call → Proc CliError α} {q : Stage}
    {ends : Stage → Except (Stop CliError) α → Prop}
    (h : ∀ a, ∃ q', Stage.does file temporary q ⟨call, a⟩ q' ∧ Follows (Stage.does file temporary) ends (f a) q') :
    Follows (Stage.does file temporary) ends (sys call >>= f) q := h

/-- giving up after a rollback -/
theorem rollback_follows (distribution : Option String) (containers : BTreeMap String) (error : CliError) :
    Follows (Stage.does file temporary) Stage.ends (do
      rollbackContainersFromMap distribution containers
      fail error : Proc CliError ApplyOutput) .entitled := by
  refine Follows.bind (follows_commanding (rollback_only distribution containers)) ?_ fun _ e _ => .inl ⟨e, rfl⟩
  intro q _ hq
  exact Follows.fail (.inl ⟨_, rfl⟩)

end

section
variable {manifest : CompositionManifest} {stateDir : PathBuf} {lifecycle : LifecyclePlan} {run : String}

/-- the preparation lets a call through only when it found no run -/
theorem prepare_follows (hw : isWord run = true) :
    Follows (Stage.does (stateLocation stateDir run) (stateTemporary stateDir run))
      (fun q r => q = .entitled ∨ ∃ e, r = .error e) (prepareApply manifest stateDir lifecycle run) .unchecked := by
  refine Follows.lift_bind (fun _ _ => ?_) fun e _ => .inr ⟨e, rfl⟩
  refine Follows.lift_bind (fun _ _ => ?_) fun e _ => .inr ⟨e, rfl⟩
  rw [statePath_components stateDir hw]
  intro present
  cases present with
  | true => exact ⟨.unchecked, .inl ⟨trivial, rfl⟩, .inr ⟨_, rfl⟩⟩
  | false =>
    refine ⟨.entitled, .inr ⟨rfl, rfl⟩, (follows_commanding ?_).post fun _ _ hq => .inl hq⟩
    refine (probe_only fun _ => trivial).bind fun _ => .forM _ fun intent _ => ?_
    split_ifs
    · exact Only.pure _
    · exact (Only.lift _).bind fun service => (publishImage_only fun _ => trivial).bind fun _ => Only.pure _

/-- a save writes its state, and then commits that, or fails -/
theorem save_follows (state : RunState) (hrun : state.runId = run) (hw : isWord run = true) (hne : run ≠ "") :
    Follows (Stage.does (stateLocation stateDir run) (stateTemporary stateDir run))
      (fun q r => (q = .entitled ∧ ∃ e, r = .error e) ∨ q = .committed state ∧ r = .ok ())
      (saveState stateDir state) .entitled := by
  rw [saveState]
  dsimp only
  rw [hrun, statePath_components stateDir hw, stateTemporary_components stateDir hw hne]
  refine follows_next fun made => ⟨.entitled, .inl ⟨trivial, rfl⟩, ?_⟩
  cases made with
  | error e => exact .inl ⟨rfl, _, rfl⟩
  | ok =>
    refine follows_next fun written => ⟨_, .inr ⟨state, written, rfl, rfl⟩, ?_⟩
    cases written with
    | error e => exact .inl ⟨rfl, _, rfl⟩
    | ok =>
      refine follows_next fun renamed => ⟨_, ⟨renamed, rfl, rfl⟩, ?_⟩
      cases renamed with
      | error e => exact .inl ⟨rfl, _, rfl⟩
      | ok => exact .inr ⟨rfl, rfl⟩

theorem clock_only : Only Spares unixSeconds := by
  refine (Only.call fun _ => trivial).bind fun answer => ?_
  cases answer with
  | ok seconds => exact Only.pure _
  | error message => exact Only.fail _

theorem record_follows {request : ServiceLifecycleRequest} (hrun : request.runId = run) (hw : isWord run = true)
    (hne : run ≠ "") (containers : BTreeMap String) :
    Follows (Stage.does (stateLocation stateDir run) (stateTemporary stateDir run)) Stage.ends
      (recordRun manifest stateDir lifecycle request containers) .entitled := by
  refine Follows.bind (E := fun q _ => q = .entitled)
    (Follows.only clock_only (fun _ he => .inl ⟨he, rfl⟩) fun _ => rfl) ?_ fun _ e _ => .inl ⟨e, rfl⟩
  intro q seconds hq
  rw [hq]
  have hsave : Follows (Stage.does (stateLocation stateDir run) (stateTemporary stateDir run))
      (fun q r => (q = .entitled ∧ r ≠ .ok (.ok ())) ∨
        q = .committed (runState manifest request containers seconds) ∧ r = .ok (.ok ()))
      (attempt (saveState stateDir (runState manifest request containers seconds)) :
        Proc CliError (Except CliError Unit)) .entitled := by
    refine Follows.attempt (save_follows _ hrun hw hne) ?_
    intro q r hq
    rcases hq with ⟨rfl, e, rfl⟩ | ⟨rfl, rfl⟩
    · refine .inl ⟨rfl, ?_⟩
      cases e <;> simp [caught]
    · exact .inr ⟨rfl, rfl⟩
  refine Follows.bind hsave ?_ fun _ e _ => .inl ⟨e, rfl⟩
  intro q saved hq
  cases saved with
  | error error =>
    rcases hq with ⟨rfl, -⟩ | ⟨-, he⟩
    · exact rollback_follows _ _ _
    · cases he
  | ok =>
    rcases hq with ⟨-, hne⟩ | ⟨rfl, -⟩
    · exact absurd rfl hne
    · exact Follows.pure (.inr ⟨_, _, rfl, rfl, rfl, rfl⟩)

theorem finish_follows {request : ServiceLifecycleRequest} (hrun : request.runId = run) (hw : isWord run = true)
    (hne : run ≠ "") (answer : Except ServiceLifecycleFailure ServiceLifecycleResult) :
    Follows (Stage.does (stateLocation stateDir run) (stateTemporary stateDir run)) Stage.ends
      (finishApply lib manifest stateDir lifecycle request answer) .entitled := by
  unfold finishApply
  cases answer with
  | error failure => exact rollback_follows _ _ _
  | ok result =>
    refine Follows.bind (E := fun q _ => q = .entitled)
      (Follows.attempt (E := fun q _ => q = .entitled) (Follows.lift rfl) fun _ _ hq => hq) ?_ fun _ e _ => .inl ⟨e, rfl⟩
    intro q checked hq
    rw [hq]
    cases checked with
    | error error => exact rollback_follows _ _ _
    | ok => exact record_follows hrun hw hne result.containers

/-- an apply writes its state to the temporary and then renames that, only after a check that found no run; and it returns
`Ok` only after that -/
theorem apply_follows (hp : Planned lib manifest run lifecycle) (stateDir : PathBuf) :
    Follows (Stage.does (stateLocation stateDir run) (stateTemporary stateDir run)) Stage.ends
      (applyWithLifecycleClient lib manifest stateDir false) .unchecked := by
  have hrun : hp.request.runId = run := rfl
  rw [hp.apply_eq]
  refine Follows.bind (prepare_follows hp.word) ?_ fun _ e _ => .inl ⟨e, rfl⟩
  intro q _ hq
  rcases hq with rfl | ⟨e, he⟩
  · refine follows_next fun answer => ⟨.entitled, .inl ⟨trivial, rfl⟩, ?_⟩
    exact finish_follows lib hrun hp.word hp.ne_empty answer
  · cases he

end

/-! ## Checks, writes, commits and returns -/

section
variable {ι : Type} (file temporary : Location)

/-- whose existence check this is, if it found no run -/
def checkOf : ProcessLabel ι → Option ι
  | .event i _ ⟨.pathExists found, false⟩ => if found = file then some i else none
  | _ => none

/-- whose write of the temporary this is, whether it went through or not -/
def writeOf : ProcessLabel ι → Option ι
  | .event i _ ⟨.write written _, _⟩ => if written = temporary then some i else none
  | _ => none

/-- whose commit of the state this is -/
def commitOf : ProcessLabel ι → Option ι
  | .event i _ ⟨.rename _ to_, .ok _⟩ => if to_ = file then some i else none
  | _ => none

def returnedOk : ProcessLabel ι → Bool
  | .returns _ _ (.ok _) => true
  | _ => false

variable {file temporary} in
theorem commitOf_check {l : ProcessLabel ι} {i : ι} (h : checkOf file l = some i) : commitOf file l = none := by
  cases l with
  | invoke | returns => rfl
  | event j c e =>
    obtain ⟨call, a⟩ := e
    cases call
    case rename => cases h
    all_goals rfl

def watch : Watch ι (ProcessLabel ι) := ⟨checkOf file, commitOf file, returnedOk, commitOf_check⟩

/-- the run is taken once its file is there -/
def view : View ι (Pool FileSystem ι Unit Stage) where
  taken v := v.shared.files file ≠ none
  entitled v i := v.parties i = some ((), .entitled) ∨ ∃ state, v.parties i = some ((), .written state)
  acted v i := ∃ state, v.parties i = some ((), .committed state)

/-- nobody else writes the temporary between a process's last write of it and its commit -/
def Unmixed (t : List (ProcessLabel ι)) : Prop :=
  ∀ i t₁ l₁ t₂ l₂ t₃, t = t₁ ++ l₁ :: (t₂ ++ l₂ :: t₃) → writeOf temporary l₁ = some i → commitOf file l₂ = some i →
    (∀ l ∈ t₂, writeOf temporary l ≠ some i) → ∀ l ∈ t₂, writeOf temporary l = none

/-- nobody who commits has missed a commit in its check; and nobody commits between a process's check and its commit, or
writes the temporary between its write and its commit -/
structure Exclusive (t : List (ProcessLabel ι)) : Prop where
  unmissed : (watch file).Unmissed t
  undisturbed : (watch file).Undisturbed t
  unmixed : Unmixed file temporary t

/-- what one process does: nothing to the state file and its temporary; or it writes the temporary; or it renames that; or
it returns what it has recorded -/
inductive Moves (v : Pool FileSystem ι Unit Stage) (l : ProcessLabel ι) (v' : Pool FileSystem ι Unit Stage) (i : ι) :
    Prop where
  | passes (uncommitting : commitOf file l = none) (unwriting : writeOf temporary l = none)
      (unreturned : returnedOk l = false) (kept : v'.shared.files file = v.shared.files file)
      (spared : v'.shared.files temporary = v.shared.files temporary)
      (after : v'.parties i = none ∨ v'.parties i = some ((), .unchecked) ∨ v'.parties i = some ((), .entitled) ∧
        ((view file).entitled v i ∨ checkOf file l = some i))
  | writes {q : Stage} (uncommitting : commitOf file l = none) (writing : writeOf temporary l = some i)
      (unreturned : returnedOk l = false) (kept : v'.shared.files file = v.shared.files file)
      (before : v.parties i = some ((), .entitled)) (after : v'.parties i = some ((), q))
      (wrote : q = .entitled ∨ ∃ state, q = .written state ∧ v'.shared.files temporary = some (contentsOf state))
  | commits {state : RunState} (committing : commitOf file l = some i) (unwriting : writeOf temporary l = none)
      (unreturned : returnedOk l = false) (before : v.parties i = some ((), .written state))
      (after : v'.parties i = some ((), .committed state)) (there : v'.shared.files file ≠ none)
      (moved : v'.shared.files file = v.shared.files temporary)
  | succeeds {state : RunState} {output : ApplyOutput} (returned : l = .returns i () (.ok output))
      (before : v.parties i = some ((), .committed state)) (after : v'.parties i = none)
      (records : Records state output) (kept : v'.shared = v.shared)

variable {file temporary}

theorem Unmixed.front {t t' : List (ProcessLabel ι)} (h : Unmixed file temporary (t ++ t')) :
    Unmixed file temporary t := by
  intro i t₁ l₁ t₂ l₂ t₃ he
  refine h i t₁ l₁ t₂ l₂ (t₃ ++ t') ?_
  rw [he]
  simp

theorem Exclusive.front {t t' : List (ProcessLabel ι)} (h : Exclusive file temporary (t ++ t')) :
    Exclusive file temporary t :=
  ⟨h.unmissed.front, h.undisturbed.front, h.unmixed.front⟩

theorem Spares.keeps {fs fs' : FileSystem} {call : SysCall} {a : Answer call} (h : Spares ⟨call, a⟩)
    (hs : Step fs call a fs') : fs'.files = fs.files := by
  cases call
  case podman | lifecycle | clock => exact congrArg FileSystem.files hs
  case pathExists => exact congrArg FileSystem.files hs.1
  case createDirAll =>
    cases a with
    | ok =>
      rw [hs.1]
      rfl
    | error e =>
      obtain ⟨made, -, rfl⟩ := hs
      rfl
  all_goals exact h.elim

theorem Spares.uncommitting {e : Event Answer} (h : Spares e) (i : ι) : commitOf file (.event i () e) = none := by
  obtain ⟨call, a⟩ := e
  cases call
  case rename => exact h.elim
  all_goals rfl

theorem Spares.unwriting {e : Event Answer} (h : Spares e) (i : ι) : writeOf temporary (.event i () e) = none := by
  obtain ⟨call, a⟩ := e
  cases call
  case write => exact h.elim
  all_goals rfl

theorem preparing_spares {e : Event Answer} (h : Event.preparing e) : Spares e := by
  obtain ⟨call, a⟩ := e
  cases call
  case pathExists | podman => trivial
  all_goals exact h.elim

section
variable {v v' : Pool FileSystem ι Unit Stage} {l : ProcessLabel ι} {i j : ι} {state : RunState} {output : ApplyOutput}

/-- only a commit changes the state file -/
theorem Moves.kept (h : Moves file temporary v l v' i) (hcommit : commitOf file l = none) :
    v'.shared.files file = v.shared.files file := by
  cases h with
  | passes _ _ _ kept => exact kept
  | writes _ _ _ kept => exact kept
  | commits committing => cases hcommit.symm.trans committing
  | succeeds _ _ _ _ kept => rw [kept]

/-- only a write or a commit changes the temporary -/
theorem Moves.spared (h : Moves file temporary v l v' i) (hcommit : commitOf file l = none)
    (hwrite : writeOf temporary l = none) : v'.shared.files temporary = v.shared.files temporary := by
  cases h with
  | passes _ _ _ _ spared => exact spared
  | writes _ writing => cases hwrite.symm.trans writing
  | commits committing => cases hcommit.symm.trans committing
  | succeeds _ _ _ _ kept => rw [kept]

theorem Moves.writer (h : Moves file temporary v l v' i) (hj : j ≠ i) : writeOf temporary l ≠ some j := by
  intro hwrite
  cases h with
  | passes _ unwriting => cases unwriting.symm.trans hwrite
  | writes _ writing => exact hj (Option.some.inj (hwrite.symm.trans writing))
  | commits _ unwriting => cases unwriting.symm.trans hwrite
  | succeeds returned =>
    rw [returned] at hwrite
    cases hwrite

/-- who is about to commit has just written -/
theorem Moves.wrote (h : Moves file temporary v l v' i) (hin : v'.parties i = some ((), .written state)) :
    writeOf temporary l = some i ∧ v'.shared.files temporary = some (contentsOf state) := by
  cases h with
  | passes _ _ _ _ _ after =>
    rcases after with hafter | hafter | ⟨hafter, -⟩
    all_goals cases hafter.symm.trans hin
  | writes _ writing _ _ _ after wrote =>
    rcases wrote with rfl | ⟨state', rfl, hthere⟩
    · cases after.symm.trans hin
    · cases after.symm.trans hin
      exact ⟨writing, hthere⟩
  | commits _ _ _ _ after => cases after.symm.trans hin
  | succeeds _ _ after => cases after.symm.trans hin

/-- who has committed has renamed the temporary -/
theorem Moves.committed (h : Moves file temporary v l v' i) (hin : v'.parties i = some ((), .committed state)) :
    commitOf file l = some i ∧ v.parties i = some ((), .written state) ∧
      v'.shared.files file = v.shared.files temporary := by
  cases h with
  | passes _ _ _ _ _ after =>
    rcases after with hafter | hafter | ⟨hafter, -⟩
    all_goals cases hafter.symm.trans hin
  | writes _ _ _ _ _ after wrote =>
    rcases wrote with rfl | ⟨state', rfl, -⟩
    all_goals cases after.symm.trans hin
  | commits committing _ _ before after _ moved =>
    cases after.symm.trans hin
    exact ⟨committing, before, moved⟩
  | succeeds _ _ after => cases after.symm.trans hin

/-- who returns `Ok` has committed -/
theorem Moves.returned (h : Moves file temporary v l v' i) (hl : l = .returns j () (.ok output)) :
    ∃ state, v.parties i = some ((), .committed state) ∧ Records state output := by
  subst hl
  cases h with
  | passes _ _ unreturned => cases unreturned
  | writes _ writing => cases writing
  | commits committing => cases committing
  | succeeds returned before _ records =>
    cases returned
    exact ⟨_, before, records⟩

end

theorem Moves.moves {v v' : Pool FileSystem ι Unit Stage} {l : ProcessLabel ι} {i : ι}
    (h : Moves file temporary v l v' i) : Core.CheckThenAct.Moves (watch file) (view file) v l v' i := by
  cases h with
  | passes uncommitting unwriting unreturned kept spared after =>
    refine .passes uncommitting unreturned (fun hthere => kept.trans_ne hthere) ?_ ?_
    · intro hi
      rcases after with hafter | hafter | ⟨-, hbefore⟩
      · simp [view, hafter] at hi
      · simp [view, hafter] at hi
      · exact hbefore
    · intro hi
      rcases after with hafter | hafter | ⟨hafter, -⟩
      all_goals simp [view, hafter] at hi
  | writes uncommitting writing unreturned kept before after wrote =>
    refine .passes uncommitting unreturned (fun hthere => kept.trans_ne hthere) (fun _ => .inl (.inl before)) ?_
    intro hi
    rcases wrote with rfl | ⟨state, rfl, -⟩
    all_goals simp [view, after] at hi
  | commits committing unwriting unreturned before after there moved =>
    refine .acts committing unreturned (.inr ⟨_, before⟩) ?_ there
    simp [view, after]
  | succeeds returned before after records kept =>
    subst returned
    refine .reports rfl rfl (fun hthere => ?_) ⟨_, before⟩ ?_ ?_
    · simp only [view, kept]
      exact hthere
    · simp [view, after]
    · simp [view, after]

/-! ## What is in the files -/

/-- the state is what this process last wrote, and it is in the temporary unless others have written that, or committed -/
def LastWrote (file temporary : Location) (t : List (ProcessLabel ι)) (fs : FileSystem) (i : ι) (state : RunState) :
    Prop :=
  ∃ t₁ l t₂, t = t₁ ++ l :: t₂ ∧ writeOf temporary l = some i ∧ (∀ l ∈ t₂, writeOf temporary l ≠ some i) ∧
    ((watch file).acts t₂ = 0 → (∀ l ∈ t₂, writeOf temporary l = none) →
      fs.files temporary = some (contentsOf state))

theorem LastWrote.snoc {t : List (ProcessLabel ι)} {fs fs' : FileSystem} {i : ι} {state : RunState} {l : ProcessLabel ι}
    (h : LastWrote file temporary t fs i state) (hother : writeOf temporary l ≠ some i)
    (hspared : commitOf file l = none → writeOf temporary l = none → fs'.files temporary = fs.files temporary) :
    LastWrote file temporary (t ++ [l]) fs' i state := by
  obtain ⟨t₁, l', t₂, rfl, hwrite, hlast, hthere⟩ := h
  refine ⟨t₁, l', t₂ ++ [l], by simp, hwrite, ?_, ?_⟩
  · rw [List.forall_mem_append, List.forall_mem_singleton]
    exact ⟨hlast, hother⟩
  · rw [List.forall_mem_append, List.forall_mem_singleton]
    intro hacts hwrites
    have huncommitting : commitOf file l = none := by_contra fun hne => by
      obtain ⟨j, hj⟩ := Option.ne_none_iff_exists'.1 hne
      rw [Watch.acts_acting (w := watch file) t₂ hj] at hacts
      omega
    rw [Watch.acts_passing (w := watch file) t₂ huncommitting] at hacts
    rw [hspared huncommitting hwrites.2]
    exact hthere hacts hwrites.1

/-- what is written, committed and returned is in the files -/
structure Settled (file temporary : Location) (t : List (ProcessLabel ι)) (v : Pool FileSystem ι Unit Stage) : Prop where
  written : ∀ i state, v.parties i = some ((), .written state) → LastWrote file temporary t v.shared i state
  committed : ∀ i state, v.parties i = some ((), .committed state) → v.shared.files file = some (contentsOf state)
  returned : ∀ i output, .returns i () (.ok output) ∈ t →
    ∃ state, v.shared.files file = some (contentsOf state) ∧ Records state output

theorem LastWrote.turn {t : List (ProcessLabel ι)} {v v' : Pool FileSystem ι Unit Stage} {l : ProcessLabel ι} {i j : ι}
    {state : RunState} (h : ∀ state, v.parties j = some ((), .written state) → LastWrote file temporary t v.shared j state)
    (hothers : j ≠ i → v'.parties j = v.parties j) (hmove : Moves file temporary v l v' i)
    (hin : v'.parties j = some ((), .written state)) : LastWrote file temporary (t ++ [l]) v'.shared j state := by
  by_cases hj : j = i
  · subst hj
    obtain ⟨hwrite, hthere⟩ := hmove.wrote hin
    exact ⟨t, l, [], rfl, hwrite, fun _ hm => absurd hm List.not_mem_nil, fun _ _ => hthere⟩
  · rw [hothers hj] at hin
    exact (h state hin).snoc (hmove.writer hj) hmove.spared

theorem Settled.turn {t : List (ProcessLabel ι)} {v v' : Pool FileSystem ι Unit Stage} {l : ProcessLabel ι} {i : ι}
    (h : Settled file temporary t v) (hothers : ∀ j, j ≠ i → v'.parties j = v.parties j)
    (hmove : Moves file temporary v l v' i) (hknown : Core.CheckThenAct.Known (watch file) (view file) t v)
    (hafter : Core.CheckThenAct.Known (watch file) (view file) (t ++ [l]) v')
    (he : Exclusive file temporary (t ++ [l])) : Settled file temporary (t ++ [l]) v' := by
  have hwritten : ∀ j state, v'.parties j = some ((), .written state) →
      LastWrote file temporary (t ++ [l]) v'.shared j state :=
    fun j state hin => LastWrote.turn (h.written j) (hothers j) hmove hin
  cases hcommit : commitOf file l with
  | none =>
    have hkept := hmove.kept hcommit
    refine ⟨hwritten, ?_, ?_⟩
    · intro j state hin
      have hj : j ≠ i := by
        rintro rfl
        obtain ⟨hcommits, -⟩ := hmove.committed hin
        cases hcommit.symm.trans hcommits
      rw [hothers j hj] at hin
      exact hkept.trans (h.committed j state hin)
    · intro j output hm
      rw [hkept]
      rcases List.mem_append.1 hm with hm | hm
      · exact h.returned j output hm
      · obtain ⟨state, before, hrecords⟩ := hmove.returned (List.mem_singleton.1 hm).symm
        exact ⟨state, h.committed i state before, hrecords⟩
  | some k =>
    -- this is the first commit: nobody holds another state, and nobody has returned one
    have hnone : (watch file).acts t = 0 := by
      have hone := (hafter.once he.undisturbed he.unmissed).1
      rw [Watch.acts_acting (w := watch file) t hcommit] at hone
      omega
    obtain ⟨hunreported, hunacted⟩ := hknown.untaken hnone
    refine ⟨hwritten, ?_, ?_⟩
    · intro j state hin
      by_cases hj : j = i
      · subst hj
        obtain ⟨hcommits, before, moved⟩ := hmove.committed hin
        obtain ⟨t₁, l₁, t₂, rfl, hwrite, hlast, hthere⟩ := h.written j state before
        rw [Watch.acts_append, Watch.acts_cons] at hnone
        exact moved.trans (hthere (by omega) (he.unmixed j t₁ l₁ t₂ l [] (by simp) hwrite hcommits hlast))
      · rw [hothers j hj] at hin
        exact absurd ⟨state, hin⟩ (hunacted j)
    · intro j output hm
      rcases List.mem_append.1 hm with hm | hm
      · have hsuccess : (watch file).success (.returns j () (.ok output) : ProcessLabel ι) = true := rfl
        exact absurd hsuccess (List.countP_eq_zero.1 hunreported _ hm)
      · rw [← List.mem_singleton.1 hm] at hcommit
        cases hcommit

/-! ## Alone -/

theorem commits_once {q q' : Stage} {t : Trace} (i : ι) (h : Runs (Stage.does file temporary) q t q') :
    (watch file).acts (t.map (.event i ()) : List (ProcessLabel ι)) ≤ 1 := by
  induction h with
  | nil => exact Nat.zero_le _
  | @cons q q₁ q₂ e t hdoes hrest ih =>
    have hcommit : commitOf file (.event i () e : ProcessLabel ι) = none ∨ ∃ state, q₁ = .committed state := by
      cases q with
      | unchecked =>
        rcases hdoes with ⟨hpreparing, -⟩ | ⟨rfl, -⟩
        · exact .inl ((preparing_spares hpreparing).uncommitting i)
        · exact .inl rfl
      | entitled =>
        rcases hdoes with ⟨hspares, -⟩ | ⟨state, a, rfl, -⟩
        · exact .inl (hspares.uncommitting i)
        · exact .inl rfl
      | written state =>
        obtain ⟨a, rfl, rfl⟩ := hdoes
        cases a with
        | ok => exact .inr ⟨state, rfl⟩
        | error e => exact .inl rfl
      | committed state => exact hdoes.elim
    rcases hcommit with hnone | ⟨state, rfl⟩
    · have hact : (watch file).act (.event i () e : ProcessLabel ι) = none := hnone
      rw [List.map_cons, Watch.acts_cons, hact]
      exact ih
    · -- nothing follows a commit
      cases hrest with
      | nil => exact List.countP_le_length
      | cons hdoes' _ => exact hdoes'.elim

theorem writeOf_event {i j : ι} {e : Event Answer}
    (h : writeOf temporary (.event i () e : ProcessLabel ι) = some j) : j = i := by
  obtain ⟨call, a⟩ := e
  cases call
  case write written contents =>
    obtain ⟨-, he⟩ : written = temporary ∧ i = j := by simpa [writeOf] using h
    exact he.symm
  all_goals cases h

/-- where there is one commit at most, and one writer of the temporary, nobody gets in the way of another -/
theorem oneWriter {t : List (ProcessLabel ι)} (i : ι) (honce : (watch file).acts t ≤ 1)
    (hown : ∀ l ∈ t, ∀ j, writeOf temporary l = some j → j = i) : Exclusive file temporary t := by
  refine ⟨(Watch.one_act honce).2, (Watch.one_act honce).1, ?_⟩
  intro j t₁ l₁ t₂ l₂ t₃ ht hwrite _ hlast l hl
  rw [ht] at hown
  by_contra hne
  obtain ⟨k, hk⟩ := Option.ne_none_iff_exists'.1 hne
  obtain rfl := hown l₁ (by simp) j hwrite
  obtain rfl := hown l (by simp [hl]) k hk
  exact hlast l hl hk

/-- a process that applies the manifest alone commits once at most -/
theorem alone_acts {manifest : CompositionManifest} {run : String} {lifecycle : LifecyclePlan}
    (hp : Planned lib manifest run lifecycle) {stateDir : PathBuf} {fs fs' : FileSystem} {t : Trace} {r : Outcome}
    (h : Run Step (applyWithLifecycleClient lib manifest stateDir false) fs t r fs') (i : ι) :
    (watch (stateLocation stateDir run)).acts
      (.invoke i () :: (t.map (.event i ()) ++ [.returns i () r]) : List (ProcessLabel ι)) ≤ 1 := by
  obtain ⟨q, hruns, -⟩ := (apply_follows lib hp stateDir).runs h
  have hinvoke : (watch (stateLocation stateDir run)).act (.invoke i () : ProcessLabel ι) = none := rfl
  have hreturns : (watch (stateLocation stateDir run)).act (.returns i () r : ProcessLabel ι) = none := rfl
  rw [Watch.acts_cons, hinvoke, Watch.acts_passing _ hreturns]
  exact commits_once i hruns

theorem alone_writes (t : Trace) (r : Outcome) (i : ι) :
    ∀ l ∈ (.invoke i () :: (t.map (.event i ()) ++ [.returns i () r]) : List (ProcessLabel ι)), ∀ j,
      writeOf temporary l = some j → j = i := by
  intro l hl j hwrite
  rcases List.mem_cons.1 hl with rfl | hl
  · cases hwrite
  rcases List.mem_append.1 hl with hl | hl
  · obtain ⟨e, -, rfl⟩ := List.mem_map.1 hl
    exact writeOf_event hwrite
  · rw [List.mem_singleton.1 hl] at hwrite
    cases hwrite

/-- a call that only prepares commits nothing and writes nothing -/
theorem preparing_acts {t : Trace} (h : ∀ e ∈ t, Event.preparing e) (r : Outcome) (i : ι) :
    (watch file).acts (.invoke i () :: (t.map (.event i ()) ++ [.returns i () r]) : List (ProcessLabel ι)) = 0 ∧
      ∀ l ∈ (.invoke i () :: (t.map (.event i ()) ++ [.returns i () r]) : List (ProcessLabel ι)),
        writeOf temporary l = none := by
  have hevent : ∀ l ∈ (t.map (.event i ()) : List (ProcessLabel ι)),
      commitOf file l = none ∧ writeOf temporary l = none := by
    intro l hl
    obtain ⟨e, he, rfl⟩ := List.mem_map.1 hl
    exact ⟨(preparing_spares (h e he)).uncommitting i, (preparing_spares (h e he)).unwriting i⟩
  have hall : ∀ l ∈ (.invoke i () :: (t.map (.event i ()) ++ [.returns i () r]) : List (ProcessLabel ι)),
      commitOf file l = none ∧ writeOf temporary l = none := by
    intro l hl
    rcases List.mem_cons.1 hl with rfl | hl
    · exact ⟨rfl, rfl⟩
    rcases List.mem_append.1 hl with hl | hl
    · exact hevent l hl
    · rw [List.mem_singleton.1 hl]
      exact ⟨rfl, rfl⟩
  refine ⟨List.countP_eq_zero.2 fun l hl => ?_, fun l hl => (hall l hl).2⟩
  have hnone : (watch file).act l = none := (hall l hl).1
  rw [hnone]
  exact Bool.false_ne_true

/-! ## Runs -/

variable [DecidableEq ι]

/-- a write, also one that fails half way, leaves every other file as it was -/
theorem write_elsewhere {l other : Location} (hne : other ≠ l) {fs fs' : FileSystem} {contents : Contents}
    {a : Answer (.write l contents)} (h : Step fs (.write l contents) a fs') : fs'.files other = fs.files other := by
  cases a with
  | ok =>
    rw [h.1]
    exact FileSystem.put_files_ne _ _ hne
  | error e =>
    rcases h with rfl | ⟨torn, rfl⟩
    · rfl
    · exact FileSystem.put_files_ne _ _ hne

/-- what one turn does, to the files and to the process that takes it -/
theorem process_turn (hne : file ≠ temporary) {v v' : Pool FileSystem ι Unit Stage} {l : ProcessLabel ι}
    (h : Turn (stages file temporary) AnyProcess v l v') :
    ∃ i, (∀ j, j ≠ i → v'.parties j = v.parties j) ∧ Moves file temporary v l v' i := by
  cases h with
  | @invoke i c hidle =>
    refine ⟨i, fun j hj => Function.update_of_ne hj _ _, ?_⟩
    exact .passes rfl rfl rfl rfl rfl (.inr (.inl (Function.update_self ..)))
  | @event i c x y e fs hin hdoes hstep =>
    refine ⟨i, fun j hj => Function.update_of_ne hj _ _, ?_⟩
    cases x with
    | unchecked =>
      rcases hdoes with ⟨hpreparing, rfl⟩ | ⟨rfl, rfl⟩
      · have hspares := preparing_spares hpreparing
        have hkept := hspares.keeps hstep
        refine .passes (hspares.uncommitting i) (hspares.unwriting i) rfl ?_ ?_ (.inr (.inl (Function.update_self ..)))
        · exact congrFun hkept file
        · exact congrFun hkept temporary
      · obtain rfl : fs = v.shared := hstep.1
        exact .passes rfl rfl rfl rfl rfl (.inr (.inr ⟨Function.update_self .., .inr (if_pos rfl)⟩))
    | entitled =>
      rcases hdoes with ⟨hspares, rfl⟩ | ⟨state, a, rfl, rfl⟩
      · have hkept := hspares.keeps hstep
        refine .passes (hspares.uncommitting i) (hspares.unwriting i) rfl ?_ ?_
          (.inr (.inr ⟨Function.update_self .., .inl (.inl hin)⟩))
        · exact congrFun hkept file
        · exact congrFun hkept temporary
      · refine .writes rfl (if_pos rfl) rfl (write_elsewhere hne hstep) hin (Function.update_self ..) ?_
        cases a with
        | ok =>
          refine .inr ⟨state, rfl, ?_⟩
          rw [hstep.1]
          exact FileSystem.put_files_same _ _ _
        | error e => exact .inl rfl
    | written state =>
      obtain ⟨a, rfl, rfl⟩ := hdoes
      cases a with
      | ok =>
        obtain ⟨contents, hcontents, rfl, -⟩ := hstep
        refine .commits (if_pos rfl) rfl rfl hin (Function.update_self ..) ?_ ?_
        · rw [FileSystem.put_files_same]
          exact Option.some_ne_none _
        · rw [FileSystem.put_files_same, hcontents]
      | error e =>
        obtain rfl : fs = v.shared := hstep
        exact .passes rfl rfl rfl rfl rfl (.inr (.inr ⟨Function.update_self .., .inl (.inr ⟨state, hin⟩)⟩))
    | committed state => exact hdoes.elim
  | @returns i c x r hin hends =>
    refine ⟨i, fun j hj => Function.update_of_ne hj _ _, ?_⟩
    rcases hends with ⟨e, rfl⟩ | ⟨state, output, rfl, rfl, hrecords⟩
    · exact .passes rfl rfl rfl rfl rfl (.inl (Function.update_self ..))
    · exact .succeeds rfl hin (Function.update_self ..) hrecords rfl

/-- what is known, and what is in the files of an exclusive run -/
theorem settled_runs (hne : file ≠ temporary) {fs : FileSystem} {t : List (ProcessLabel ι)}
    {v : Pool FileSystem ι Unit Stage} (h : Runs (Turn (stages file temporary) AnyProcess) (.quiet fs) t v) :
    Core.CheckThenAct.Known (watch file) (view file) t v ∧
      (Exclusive file temporary t → Settled file temporary t v) := by
  refine h.history (P := fun t v => Core.CheckThenAct.Known (watch file) (view file) t v ∧
    (Exclusive file temporary t → Settled file temporary t v)) ⟨known_start ?_ ?_, fun _ => ⟨?_, ?_, ?_⟩⟩ ?_
  · intro i hi
    simp [view, Pool.quiet] at hi
  · intro i hi
    simp [view, Pool.quiet] at hi
  · intro i state hin
    cases hin
  · intro i state hin
    cases hin
  · intro i output hm
    cases hm
  · intro t v l v' _ hv hl
    obtain ⟨hknown, hsettled⟩ := hv
    obtain ⟨i, hothers, hmove⟩ := process_turn hne hl
    have hviews : Others (view file) v v' i := by
      intro j hj
      simp only [view, hothers j hj]
      exact ⟨id, id⟩
    have hafter := hknown.turn hviews hmove.moves
    exact ⟨hafter, fun he => (hsettled he.front).turn hothers hmove hknown hafter he⟩

/-- one apply returned `Ok` at most; and if one did, the state file lists the containers that it returned -/
structure NothingLost (file : Location) (t : List (ProcessLabel ι)) (fs : FileSystem) : Prop where
  one_ok : t.countP returnedOk ≤ 1
  listed : ∀ i output, .returns i () (.ok output) ∈ t →
    ∃ state, fs.files file = some (contentsOf state) ∧ Records state output

/-- **Concurrent applies lose nothing where they are exclusive.** Any number of processes apply a valid manifest to one
state directory, in any interleaving of their calls, and any existence check may be answered `false`. If nobody who commits
has missed a commit in its check, and nobody commits between a process's check and its commit, or writes the temporary
between its write and its commit, then one returns `Ok` at most, and the state file lists its containers. -/
theorem concurrent_applies {manifest : CompositionManifest} {run : String} {lifecycle : LifecyclePlan}
    (hp : Planned lib manifest run lifecycle) (stateDir : PathBuf) {fs : FileSystem} {t : List (ProcessLabel ι)}
    {u : Processes ι} (h : Runs (ProcessTurn lib manifest stateDir) (.quiet fs) t u)
    (he : Exclusive (stateLocation stateDir run) (stateTemporary stateDir run) t) :
    NothingLost (stateLocation stateDir run) t u.shared := by
  have hne := (stateTemporary_ne stateDir run).symm
  have hfollows : ∀ c : Unit, Follows (stages (stateLocation stateDir run) (stateTemporary stateDir run)).does
      (stages (stateLocation stateDir run) (stateTemporary stateDir run)).ends
      (applyWithLifecycleClient lib manifest stateDir false) .unchecked := fun _ => apply_follows lib hp stateDir
  obtain ⟨v, hv, habstracts⟩ := runs_follow hfollows h
  obtain ⟨hknown, hsettled⟩ := settled_runs hne hv
  refine ⟨(hknown.once he.undisturbed he.unmissed).2, ?_⟩
  rw [← habstracts.shared]
  exact (hsettled he).returned

end

/-! ## Races -/

abbrev RaceTurn : Processes Bool → ProcessLabel Bool → Processes Bool → Prop := ProcessTurn .standard demo runsDir

theorem events_return_nothing (t : Trace) (i : Bool) :
    (t.map (.event i ()) : List (ProcessLabel Bool)).countP returnedOk = 0 := by
  rw [List.countP_eq_zero]
  intro l hl
  obtain ⟨e, -, rfl⟩ := List.mem_map.1 hl
  exact Bool.false_ne_true

variable {run : String} {lifecycle : LifecyclePlan}

/-- one process checks, then the other applies the manifest, and then the first goes on -/
theorem race_run (hp : Planned .standard demo run lifecycle) :
    ∃ t u, Runs RaceTurn (.quiet .empty) t u ∧ t.countP returnedOk = 2 := by
  have habsent : FileSystem.empty.files (statePath runsDir run).components = none := rfl
  obtain ⟨t₁, hprepare⟩ := prepare_runs demo_applicable runsDir hp.intents habsent rfl
  obtain ⟨t₂, -, happly⟩ := hp.runs_apply demo_applicable runsDir .empty rfl rfl
  obtain ⟨t₃, first, fs₁, hfirst, -, -, hopen⟩ := hp.finish_records (twoCreated_attested hp) (open_empty run) 0
  obtain ⟨t₄, second, fs₂, hsecond, -⟩ := hp.finish_records (twoCreated_attested hp) hopen 1
  let rest : Unit → Proc CliError ApplyOutput := fun _ => do
    let answer ← sys (.lifecycle hp.request)
    finishApply .standard demo runsDir lifecycle hp.request answer
  obtain ⟨u₁, h₁, m₁⟩ : ∃ v, RaceTurn (.quiet .empty) (.invoke true ()) v ∧ _ := plays_invoke _ rfl
  have hstarted : u₁.parties true = some ((), prepareApply demo runsDir lifecycle run >>= rest) := by
    rw [m₁.self, hp.apply_eq]
  have hprepare' : Run (AnyProcess true) (prepareApply demo runsDir lifecycle run) u₁.shared t₁ (.ok ()) .empty := by
    rw [m₁.shared]
    exact seen_run hprepare
  obtain ⟨u₂, h₂, m₂⟩ := plays_within (k := fun x => x >>= rest) (fun _ _ => rfl) hstarted hprepare'
  have hidle : u₂.parties false = none := (m₂.others false nofun).trans (m₁.others false nofun)
  have happly' : Run (AnyProcess false) (applyWithLifecycleClient .standard demo runsDir false) u₂.shared
      (t₂ ++ ⟨.lifecycle hp.request, .ok twoCreated⟩ :: t₃) (.ok first) fs₁ := by
    rw [m₂.shared]
    exact seen_run (happly _ _ _ _ hfirst)
  obtain ⟨u₃, h₃, m₃⟩ : ∃ v, Runs RaceTurn u₂ _ v ∧ _ := plays_alone (c := ()) hidle happly'
  have hwaiting : u₃.parties true = some ((), rest ()) := (m₃.others true nofun).trans m₂.self
  have hrest : Run (AnyProcess true) (rest ()) u₃.shared (⟨.lifecycle hp.request, .ok twoCreated⟩ :: t₄) (.ok second)
      fs₂ := by
    rw [m₃.shared]
    exact run_sys_bind.2 ⟨.ok twoCreated, fs₁, t₄, rfl, hsecond, rfl⟩
  obtain ⟨u₄, h₄, m₄⟩ := plays_within (k := id) (fun _ _ => rfl) hwaiting hrest
  obtain ⟨u₅, h₅, -⟩ : ∃ v, RaceTurn u₄ (.returns true () (.ok second)) v ∧ _ := plays_return m₄.self
  refine ⟨_, u₅, runs_cons.2 ⟨u₁, h₁, runs_append.2 ⟨u₂, h₂, runs_append.2 ⟨u₃, h₃, runs_append.2 ⟨u₄, h₄,
    runs_one.2 h₅⟩⟩⟩⟩, ?_⟩
  simp only [List.countP_cons, List.countP_append, events_return_nothing]
  rfl

/-- two processes apply `demo`, and both return `Ok` -/
theorem both_applies_succeed : ∃ run lifecycle, Planned .standard demo run lifecycle ∧
    ¬∀ t u, Runs RaceTurn (.quiet .empty) t u → NothingLost (stateLocation runsDir run) t u.shared := by
  obtain ⟨run, lifecycle, hp⟩ := demo_planned
  refine ⟨run, lifecycle, hp, fun hall => ?_⟩
  obtain ⟨t, u, hrun, htwo⟩ := race_run hp
  have hone := (hall t u hrun).one_ok
  omega

/-- an apply over a run that is there, and is not missed, is refused -/
theorem applied_refused (hp : Planned .standard demo run lifecycle) {fs : FileSystem}
    (hthere : fs.files (stateLocation runsDir run) ≠ none) : ∃ t error,
      Run SeenStep (applyWithLifecycleClient .standard demo runsDir false) fs t (.error (.err error)) fs ∧
        ∀ e ∈ t, Event.preparing e := by
  have hfound : SeenStep fs (.pathExists (statePath runsDir run).components) true fs := by
    rw [statePath_components runsDir hp.word]
    refine seen_exists.2 ⟨rfl, ?_⟩
    rw [Option.isSome_iff_ne_none.2 hthere]
    rfl
  refine ⟨[⟨.pathExists (statePath runsDir run).components, true⟩],
    .conflict "run_exists" ("run " ++ run ++ " already has persisted state"), ?_, List.forall_mem_singleton.2 trivial⟩
  rw [hp.apply_eq]
  refine run_bind.2 (.inr ⟨_, ?_, rfl⟩)
  exact run_lift_bind.2 (.inl ⟨(), demo_applicable.1, run_lift_bind.2 (.inl ⟨(), demo_applicable.2,
    run_call_next.2 ⟨true, fs, [], hfound, run_fail.2 ⟨rfl, rfl, rfl⟩, rfl⟩⟩)⟩)

/-- one process applies `demo` and returns `Ok`; the other one then finds the run, and is refused -/
theorem concurrent_applies_example : ∃ run lifecycle, Planned .standard demo run lifecycle ∧
    ∃ t u, Runs RaceTurn (.quiet .empty) t u ∧ t.countP returnedOk = 1 ∧
      (∃ error, .returns true () (.error (.err error)) ∈ t) ∧
      NothingLost (stateLocation runsDir run) t u.shared := by
  obtain ⟨run, lifecycle, hp⟩ := demo_planned
  obtain ⟨t₁, -, happly⟩ := hp.runs_apply demo_applicable runsDir .empty rfl rfl
  obtain ⟨t₂, output, fs, hfinish, -, hfile, -⟩ := hp.finish_records (twoCreated_attested hp) (open_empty run) 0
  have hrun := seen_run (happly _ _ _ _ hfinish)
  have hthere : fs.files (stateLocation runsDir run) ≠ none := by
    rw [hfile]
    exact nofun
  obtain ⟨t₃, error, hrefused, hpreparing⟩ := applied_refused hp hthere
  have hfirst : Run (AnyProcess false) (applyWithLifecycleClient .standard demo runsDir false)
      (Pool.quiet (ι := Bool) (C := Unit) (P := Proc CliError ApplyOutput) .empty).shared
      (t₁ ++ ⟨.lifecycle hp.request, .ok twoCreated⟩ :: t₂) (.ok output) fs := hrun
  obtain ⟨u₁, h₁, m₁⟩ : ∃ v, Runs RaceTurn (.quiet .empty) _ v ∧ _ := plays_alone (c := ()) rfl hfirst
  have hsecond : Run (AnyProcess true) (applyWithLifecycleClient .standard demo runsDir false) u₁.shared t₃
      (.error (.err error)) fs := by
    rw [m₁.shared]
    exact seen_run hrefused
  obtain ⟨u₂, h₂, -⟩ : ∃ v, Runs RaceTurn u₁ _ v ∧ _ := plays_alone (c := ()) (m₁.others true nofun) hsecond
  have hruns := runs_append.2 ⟨u₁, h₁, h₂⟩
  obtain ⟨hacts, hwrites⟩ : (watch (stateLocation runsDir run)).acts _ = 0 ∧
      ∀ l ∈ _, writeOf (stateTemporary runsDir run) l = none := preparing_acts hpreparing (.error (.err error)) true
  have hexclusive : Exclusive (stateLocation runsDir run) (stateTemporary runsDir run) _ := oneWriter false
    (by rw [Watch.acts_append, hacts]; exact alone_acts .standard hp hrun false)
    (List.forall_mem_append.2 ⟨alone_writes _ _ false, fun l hl j hj => nomatch (hwrites l hl).symm.trans hj⟩)
  refine ⟨run, lifecycle, hp, _, u₂, hruns, ?_, ⟨error, by simp⟩,
    concurrent_applies .standard hp runsDir hruns hexclusive⟩
  simp only [List.countP_cons, List.countP_append, events_return_nothing]
  rfl

end PhenoCompose.Applies
