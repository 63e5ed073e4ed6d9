/-
The calls the program makes to its surroundings, and what each may answer and change.

- Podman, the two NanoVMS clients, the clock and the process answer as they like and leave the state directory alone.
- File operations act on `FileSystem`, files by location; each may fail, and a failed write may leave anything under the
  name it was writing. A rename either happens or does not.
- An existence check whose metadata call fails is answered `false`, whatever is there: `Missed`.

`Step` is the relation, and `SeenStep` what it allows without missed checks. `perform` is one environment among those, in
which every file operation does what it can. `perform_seen` says so, and `run_perform` turns its computations into runs.
-/
import PhenoCompose.Evaluation

namespace PhenoCompose

open Core.Collections Core.Path Core.Process Core.Text

/-! ## Calls -/

/-- where a file is: the components of its path -/
abbrev Location := List Component

/-- `podman ..arguments`, inside a WSL distribution if one is given -/
structure Command where
  distribution : Option String
  arguments : List String
deriving DecidableEq, Repr

structure Output where
  success : Bool
  stdout : Bytes
  stderr : Bytes
deriving DecidableEq, Repr

inductive SysCall where
  | podman (command : Command)
  | lifecycle (request : ServiceLifecycleRequest)
  | evaluation (request : EvaluationRequest)
  | clock
  | currentDir
  | processId
  | pathExists (file : Location)
  | readToString (file : Location)
  | readDir (directory : Location)
  | createDirAll (directory : Location)
  | write (file : Location) (contents : Contents)
  | createNew (file : Location)
  | writeAll (file : Location) (contents : Contents)
  | syncAll (file : Location)
  | rename (from_ to_ : Location)
  | removeFile (file : Location)

@[reducible] def Answer : SysCall → Type
  | .podman _ => Except IoError Output
  | .lifecycle _ => Except ServiceLifecycleFailure ServiceLifecycleResult
  | .evaluation _ => Except EvaluationFailure EvaluationResult
  | .clock => Except String UInt64
  | .currentDir => Except IoError PathBuf
  | .processId => UInt32
  | .pathExists _ => Bool
  | .readToString _ => Except IoError Contents
  | .readDir _ => Except IoError (List (Except IoError Bytes))
  | .createDirAll _ | .write _ _ | .createNew _ | .writeAll _ _ | .syncAll _ | .rename _ _ | .removeFile _ =>
    Except IoError Unit

/-- a program of this repository -/
abbrev Proc (ε α : Type) := Prog Answer ε α

abbrev Trace := List (Event Answer)

/-- make a call -/
def sys {ε : Type} (op : SysCall) : Proc ε (Answer op) := call op

/-! ## The file system -/

structure FileSystem where
  files : Location → Option Contents
  dirs : Location → Bool

namespace FileSystem

def empty : FileSystem := ⟨fun _ => none, fun _ => false⟩

def put (fs : FileSystem) (file : Location) (contents : Option Contents) : FileSystem :=
  { fs with files := Function.update fs.files file contents }

@[simp] theorem put_files_same (fs : FileSystem) (file : Location) (c : Option Contents) :
    (fs.put file c).files file = c := by
  simp [put]

theorem put_files_ne (fs : FileSystem) {file other : Location} (c : Option Contents) (h : other ≠ file) :
    (fs.put file c).files other = fs.files other := by
  simp [put, h]

/-- the directory a file would be in is there; the empty location is the working directory -/
def hasParent (fs : FileSystem) (file : Location) : Bool := file.dropLast == [] || fs.dirs file.dropLast

/-- every directory on the way to `directory` is there afterwards -/
def addDirs (fs : FileSystem) (directory : Location) : FileSystem :=
  { fs with dirs := fun d => fs.dirs d || (d != [] && d.isPrefixOf directory) }

/-- what is read of a directory: names of entries, each once, and all of them if no entry was unreadable -/
structure Lists (fs : FileSystem) (directory : Location) (entries : List (Except IoError Bytes)) : Prop where
  there : ∀ name, .ok name ∈ entries →
    (fs.files (directory ++ [.normal name])).isSome ∨ fs.dirs (directory ++ [.normal name])
  once : (entries.filterMap Except.toOption).Nodup
  all : (∀ e, .error e ∉ entries) → ∀ name,
    (fs.files (directory ++ [.normal name])).isSome ∨ fs.dirs (directory ++ [.normal name]) → .ok name ∈ entries

end FileSystem

/-- what a call may answer in a state, and the state it may leave -/
def Step (fs : FileSystem) : (call : SysCall) → Answer call → FileSystem → Prop
  | .podman _, _, fs' | .lifecycle _, _, fs' | .evaluation _, _, fs' | .clock, _, fs' | .currentDir, _, fs'
  | .processId, _, fs' | .syncAll _, _, fs' => fs' = fs
  | .pathExists file, answer, fs' => fs' = fs ∧ (answer = true → (fs.files file).isSome = true ∨ fs.dirs file = true)
  | .readToString file, .ok contents, fs' => fs' = fs ∧ fs.files file = some contents
  | .readToString file, .error e, fs' => fs' = fs ∧ (e.notFound = true → fs.files file = none)
  | .readDir directory, .ok entries, fs' => fs' = fs ∧ fs.dirs directory = true ∧ fs.Lists directory entries
  | .readDir _, .error _, fs' => fs' = fs
  | .createDirAll directory, .ok _, fs' =>
    fs' = fs.addDirs directory ∧ ∀ d, d <+: directory → fs.files d = none
  | .createDirAll directory, .error _, fs' => ∃ made, made <+: directory ∧ fs' = fs.addDirs made
  | .write file contents, .ok _, fs' =>
    fs' = fs.put file (some contents) ∧ fs.hasParent file = true ∧ fs.dirs file = false
  | .write file _, .error _, fs' => fs' = fs ∨ ∃ torn, fs' = fs.put file (some torn)
  | .createNew file, .ok _, fs' =>
    fs' = fs.put file (some (.text [])) ∧ fs.files file = none ∧ fs.hasParent file = true ∧ fs.dirs file = false
  | .createNew _, .error _, fs' => fs' = fs
  | .writeAll file contents, .ok _, fs' => fs' = fs.put file (some contents)
  | .writeAll file _, .error _, fs' => ∃ torn, fs' = fs.put file (some torn)
  | .rename from_ to_, .ok _, fs' =>
    ∃ contents, fs.files from_ = some contents ∧ fs' = (fs.put from_ none).put to_ (some contents) ∧
      fs.hasParent to_ = true ∧ fs.dirs to_ = false
  | .rename _ _, .error _, fs' => fs' = fs
  | .removeFile file, .ok _, fs' => fs' = fs.put file none ∧ (fs.files file).isSome
  | .removeFile _, .error _, fs' => fs' = fs

/-- `exists()` is answered `false` although something is there: so it is when its metadata call fails -/
def Missed (fs : FileSystem) : Event Answer → Prop
  | ⟨.pathExists file, answer⟩ => answer = false ∧ ((fs.files file).isSome = true ∨ fs.dirs file = true)
  | _ => False

/-- a call that does not miss what is there -/
def SeenStep (fs : FileSystem) (call : SysCall) (answer : Answer call) (fs' : FileSystem) : Prop :=
  Step fs call answer fs' ∧ ¬Missed fs ⟨call, answer⟩

theorem SeenStep.step {fs fs' : FileSystem} {call : SysCall} {answer : Answer call} (h : SeenStep fs call answer fs') :
    Step fs call answer fs' := h.1

/-- an existence check that misses nothing tells what is there -/
theorem seen_exists {fs fs' : FileSystem} {file : Location} {answer : Bool} :
    SeenStep fs (.pathExists file) answer fs' ↔ fs' = fs ∧ answer = ((fs.files file).isSome || fs.dirs file) := by
  simp only [SeenStep, Step, Missed, and_assoc, ← Bool.or_eq_true]
  refine and_congr_right fun _ => ?_
  cases answer <;> cases ((fs.files file).isSome || fs.dirs file) <;> simp

theorem seen_nothing {fs fs' : FileSystem} {file : Location} (h : SeenStep fs (.pathExists file) false fs') :
    fs.files file = none ∧ fs.dirs file = false := by
  have hfound := (seen_exists.1 h).2
  rwa [eq_comm, Bool.or_eq_false_iff, Option.isSome_eq_false_iff, Option.isNone_iff_eq_none] at hfound

/-- a run without missed checks is a run -/
theorem seen_run {ε α : Type} {x : Proc ε α} {fs fs' : FileSystem} {t : Trace} {r : Except (Stop ε) α}
    (h : Run SeenStep x fs t r fs') : Run Step x fs t r fs' := h.map (f := id) SeenStep.step

@[simp] theorem run_sys {ε : Type} {op : SysCall} {r : Except (Stop ε) (Answer op)} {fs fs' : FileSystem} {t : Trace} :
    Run Step (sys op) fs t r fs' ↔ ∃ a, Step fs op a fs' ∧ t = [⟨op, a⟩] ∧ r = .ok a := run_call

/-- the first step of a program that begins with a call -/
theorem run_sys_bind {ε α : Type} {op : SysCall} {f : Answer op → Proc ε α} {r : Except (Stop ε) α}
    {fs fs' : FileSystem} {t : Trace} :
    Run Step (sys op >>= f) fs t r fs' ↔
      ∃ a u t', Step fs op a u ∧ Run Step (f a) u t' r fs' ∧ t = ⟨op, a⟩ :: t' := run_call_next

/-! ## Kinds of calls -/

/-- a call that a save makes: file operations, and the process id for a temporary name -/
def Event.storing : Event Answer → Prop
  | ⟨.processId, _⟩ | ⟨.createDirAll _, _⟩ | ⟨.write _ _, _⟩ | ⟨.createNew _, _⟩ | ⟨.writeAll _ _, _⟩
  | ⟨.syncAll _, _⟩ | ⟨.rename _ _, _⟩ | ⟨.removeFile _, _⟩ => True
  | _ => False

/-- a call that only looks -/
def Event.looking : Event Answer → Prop
  | ⟨.readToString _, _⟩ | ⟨.readDir _, _⟩ | ⟨.pathExists _, _⟩ | ⟨.currentDir, _⟩ => True
  | _ => False

theorem Event.looking.keeps {fs fs' : FileSystem} {call : SysCall} {a : Answer call}
    (h : Event.looking ⟨call, a⟩) (hs : Step fs call a fs') : fs' = fs := by
  cases call
  case readToString => cases a <;> exact hs.1
  case readDir =>
    cases a with
    | ok => exact hs.1
    | error => exact hs
  case pathExists => exact hs.1
  case currentDir => exact hs
  all_goals exact h.elim

/-- a Podman command -/
def Event.commanding : Event Answer → Prop
  | ⟨.podman _, _⟩ => True
  | _ => False

theorem Event.commanding.keeps {fs fs' : FileSystem} {call : SysCall} {a : Answer call}
    (h : Event.commanding ⟨call, a⟩) (hs : Step fs call a fs') : fs' = fs := by
  cases call
  case podman => exact hs
  all_goals exact h.elim

/-- no existence check in these calls missed what there was in this state -/
def Seen (fs : FileSystem) (t : Trace) : Prop := ∀ e ∈ t, ¬Missed fs e

theorem Seen.absent {fs : FileSystem} {t : Trace} (h : Seen fs t) {file : Location} (hm : ⟨.pathExists file, false⟩ ∈ t) :
    fs.files file = none :=
  Option.not_isSome_iff_eq_none.1 fun hfound => h _ hm ⟨rfl, .inl hfound⟩

theorem Seen.front {fs : FileSystem} {t t' : Trace} (h : Seen fs (t ++ t')) : Seen fs t :=
  (List.forall_mem_append.1 h).1

theorem Seen.append {fs : FileSystem} {t t' : Trace} (h : Seen fs t) (h' : Seen fs t') : Seen fs (t ++ t') :=
  List.forall_mem_append.2 ⟨h, h'⟩

/-- any call but an existence check -/
def Event.unchecking : Event Answer → Prop
  | ⟨.pathExists _, _⟩ => False
  | _ => True

theorem Event.unchecking.seen {fs : FileSystem} {e : Event Answer} (h : Event.unchecking e) : ¬Missed fs e := by
  obtain ⟨call, a⟩ := e
  cases call
  case pathExists => exact h.elim
  all_goals exact id

/-- a program that makes no existence check misses nothing -/
theorem run_unchecking {ε α : Type} {x : Proc ε α} (hx : Only Event.unchecking x) {fs fs' : FileSystem} {t : Trace}
    {r : Except (Stop ε) α} (h : Run Step x fs t r fs') : Run SeenStep x fs t r fs' :=
  hx.run (fun hu hs => ⟨hs, hu.seen⟩) h

theorem Event.commanding.unchecking {e : Event Answer} (h : Event.commanding e) : Event.unchecking e := by
  obtain ⟨call, a⟩ := e
  cases call
  case podman => trivial
  all_goals exact h.elim

theorem Event.storing.unchecking {e : Event Answer} (h : Event.storing e) : Event.unchecking e := by
  obtain ⟨call, a⟩ := e
  cases call
  case pathExists => exact h.elim
  all_goals trivial

/-- the existence checks of the program come before it changes anything: where they miss nothing, they tell what there is
at its start -/
def Sees {ε α : Type} (x : Proc ε α) : Prop :=
  ∀ (fs fs' : FileSystem) (t : Trace) (r : Except (Stop ε) α), Run SeenStep x fs t r fs' → Seen fs t

section
variable {ε α β : Type} {x : Proc ε α} {f : α → Proc ε β}

theorem Sees.looking (hx : Only Event.looking x) : Sees x :=
  fun _ _ _ _ h e he => (hx.each (fun hl hs => hl.keeps hs.step) h e he).2

theorem Sees.unchecking (hx : Only Event.unchecking x) : Sees x := fun _ _ _ _ h e he => (hx.mem h e he).seen

theorem Sees.bind (hx : Only Event.looking x) (hf : ∀ a, Sees (f a)) : Sees (x >>= f) := by
  intro fs fs' t r h
  rcases run_bind.1 h with ⟨a, t₁, u, t₂, h₁, h₂, rfl⟩ | ⟨e, he, rfl⟩
  · obtain rfl := hx.keeps (fun hl hs => hl.keeps (SeenStep.step hs)) h₁
    exact (Sees.looking hx _ _ _ _ h₁).append (hf a _ _ _ _ h₂)
  · exact Sees.looking hx _ _ _ _ he

end

/-! ## One environment -/

/-- the answers of everything but the file system -/
structure Script where
  podman : Command → Except IoError Output
  lifecycle : ServiceLifecycleRequest → Except ServiceLifecycleFailure ServiceLifecycleResult
  evaluation : EvaluationRequest → Except EvaluationFailure EvaluationResult
  clock : Except String UInt64
  currentDir : Except IoError PathBuf
  processId : UInt32

/-- any file error other than a missing file -/
def otherError : IoError := ⟨false, "Permission denied (os error 13)"⟩

def missingError : IoError := ⟨true, "No such file or directory (os error 2)"⟩

/-- answer from the script; every file operation does what it can, but no directory is read: what a function from
locations holds cannot be listed -/
def perform (script : Script) (fs : FileSystem) : (call : SysCall) → Answer call × FileSystem
  | .podman command => (script.podman command, fs)
  | .lifecycle request => (script.lifecycle request, fs)
  | .evaluation request => (script.evaluation request, fs)
  | .clock => (script.clock, fs)
  | .currentDir => (script.currentDir, fs)
  | .processId => (script.processId, fs)
  | .pathExists file => ((fs.files file).isSome || fs.dirs file, fs)
  | .readToString file => (match fs.files file with
    | some contents => .ok contents
    | none => .error missingError, fs)
  | .readDir _ => (.error otherError, fs)
  | .createDirAll directory =>
    if directory.inits.all fun d => (fs.files d).isNone then (.ok (), fs.addDirs directory)
    else (.error otherError, fs)
  | .write file contents =>
    if fs.hasParent file && !fs.dirs file then (.ok (), fs.put file (some contents)) else (.error otherError, fs)
  | .createNew file =>
    if (fs.files file).isNone && fs.hasParent file && !fs.dirs file then (.ok (), fs.put file (some (.text [])))
    else (.error otherError, fs)
  | .writeAll file contents => (.ok (), fs.put file (some contents))
  | .syncAll _ => (.ok (), fs)
  | .rename from_ to_ => match fs.files from_ with
    | some contents =>
      if fs.hasParent to_ && !fs.dirs to_ then (.ok (), (fs.put from_ none).put to_ (some contents))
      else (.error otherError, fs)
    | none => (.error missingError, fs)
  | .removeFile file =>
    if (fs.files file).isSome then (.ok (), fs.put file none) else (.error missingError, fs)

theorem addDirs_nil (fs : FileSystem) : fs.addDirs [] = fs := by
  obtain ⟨files, dirs⟩ := fs
  simp only [FileSystem.addDirs, FileSystem.mk.injEq, true_and]
  funext d
  cases d <;> simp

theorem perform_step (script : Script) (fs : FileSystem) (call : SysCall) :
    Step fs call (perform script fs call).1 (perform script fs call).2 := by
  cases call with
  | podman | lifecycle | evaluation | clock | currentDir | processId | readDir | syncAll => rfl
  | pathExists file => exact (seen_exists.2 ⟨rfl, rfl⟩).step
  | readToString file =>
    simp only [perform]
    cases h : fs.files file with
    | none => exact ⟨rfl, fun _ => h⟩
    | some contents => exact ⟨rfl, h⟩
  | createDirAll directory =>
    simp only [perform]
    split_ifs with h
    · refine ⟨rfl, fun d hd => ?_⟩
      simpa using List.all_eq_true.1 h d ((List.mem_inits d directory).2 hd)
    · exact ⟨[], List.nil_prefix, (addDirs_nil fs).symm⟩
  | write file contents =>
    simp only [perform]
    split_ifs with h
    · simp only [Bool.and_eq_true, Bool.not_eq_true'] at h
      exact ⟨rfl, h⟩
    · exact .inl rfl
  | createNew file =>
    simp only [perform]
    split_ifs with h
    · simp only [Bool.and_eq_true, Bool.not_eq_true', Option.isNone_iff_eq_none] at h
      exact ⟨rfl, h.1.1, h.1.2, h.2⟩
    · rfl
  | writeAll file contents => rfl
  | rename from_ to_ =>
    simp only [perform]
    cases h : fs.files from_ with
    | none => rfl
    | some contents =>
      dsimp only
      split_ifs with hp
      · simp only [Bool.and_eq_true, Bool.not_eq_true'] at hp
        exact ⟨contents, h, rfl, hp⟩
      · rfl
  | removeFile file =>
    simp only [perform]
    split_ifs with h
    · exact ⟨rfl, h⟩
    · rfl

theorem perform_seen (script : Script) (fs : FileSystem) (call : SysCall) :
    SeenStep fs call (perform script fs call).1 (perform script fs call).2 := by
  refine ⟨perform_step script fs call, fun hmissed => ?_⟩
  cases call
  case pathExists file => exact (seen_exists.2 ⟨rfl, rfl⟩ : SeenStep fs (.pathExists file) _ fs).2 hmissed
  all_goals exact hmissed

/-- what the environment computes is a run -/
theorem run_perform {ε α : Type} {script : Script} {x : Proc ε α} {fs : FileSystem}
    {out : Trace × Except (Stop ε) α × FileSystem} (h : exec (perform script) x fs = out) :
    Run Step x fs out.1 out.2.1 out.2.2 := by
  subst h
  have hstep : ∀ s call, Step (id s) call (perform script s call).1 (id (perform script s call).2) := perform_step script
  exact run_exec hstep x fs

theorem run_perform_seen {ε α : Type} {script : Script} {x : Proc ε α} {fs : FileSystem}
    {out : Trace × Except (Stop ε) α × FileSystem} (h : exec (perform script) x fs = out) :
    Run SeenStep x fs out.1 out.2.1 out.2.2 := by
  subst h
  have hstep : ∀ s call, SeenStep (id s) call (perform script s call).1 (id (perform script s call).2) :=
    perform_seen script
  exact run_exec hstep x fs

end PhenoCompose
