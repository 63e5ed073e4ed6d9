/-
The file-backed secret store: a map in memory behind a mutex, and the file it is written to after every update.

What the store sees of the disk is its file and the temporary next to it, whose names differ because an extension has no
dot in it. A file step that fails leaves the file as it was; whatever was written to the temporary may be left there.
A method is a program over sections, each taken under the mutex: `put` and `delete` let the mutex go between the update
of the map and the flush.

- `flush_attempts`: a flush writes the map it is given or leaves the file alone, and fails exactly when a file step does.
- `open_steady`: without failures, opening gives the map the file encodes.
- `run_get`, `run_list`, `run_put`, `run_delete`: what each call does to the map and to the file, and what it returns.
-/
import PhenoCompose.Secret

namespace PhenoCompose

open Core.Collections Core.Json Core.Process Core.Text Core.Transition SecretStore

/-! ## The file -/

structure Disk where
  file : Option Contents
  temporary : Option Contents

inductive FileCall where
  /-- is there a file -/
  | metadata
  | read
  | toVecPretty (inner : SecretMap)
  | create
  | writeAll (contents : Contents)
  | syncAll
  | rename

@[reducible] def FileCall.Value : FileCall → Type
  | .metadata => Bool
  | .read | .toVecPretty _ => Contents
  | .create | .writeAll _ | .syncAll | .rename => Unit

/-- what comes back, or the text of an error -/
abbrev FileAnswer := Fallible String FileCall.Value

/-- what a call may answer, and what it may leave on the disk -/
def FileStep (disk : Disk) : (call : FileCall) → FileAnswer call → Disk → Prop
  | .metadata, .ok found, disk' => disk' = disk ∧ found = disk.file.isSome
  | .read, .ok contents, disk' => disk' = disk ∧ disk.file = some contents
  | .toVecPretty inner, .ok contents, disk' => disk' = disk ∧ contents = .json (SecretMap.codec.encode inner)
  | .metadata, .error _, disk' | .read, .error _, disk' | .toVecPretty _, .error _, disk' | .syncAll, _, disk'
  | .rename, .error _, disk' => disk' = disk
  | .create, .ok _, disk' => disk' = { disk with temporary := some (.text []) }
  | .writeAll contents, .ok _, disk' => disk' = { disk with temporary := some contents }
  | .create, .error _, disk' | .writeAll _, .error _, disk' => disk'.file = disk.file
  | .rename, .ok _, disk' => disk.temporary.isSome ∧ disk' = ⟨disk.temporary, none⟩

inductive FileSecretStoreError where
  | parse (message : String)
  | write (message : String)
  | read (message : String)
  | rename (message : String)
deriving DecidableEq, Repr

/-- `SecretStoreError::from` -/
def FileSecretStoreError.into : FileSecretStoreError → SecretStoreError
  | .parse s | .read s | .write s | .rename s => .transport s

abbrev FileProg := Prog FileAnswer FileSecretStoreError

abbrev FileTrace := List (Event FileAnswer)

/-- `result.map_err(kind)?` -/
def tryFile (kind : String → FileSecretStoreError) (op : FileCall) : FileProg op.Value :=
  callOr (fun message => .err (kind message)) op

namespace FileSecretStore

/-- write the map to the temporary, and move it into place -/
def flush (inner : SecretMap) : FileProg Unit := do
  let bytes ← tryFile .write (.toVecPretty inner)
  tryFile .write .create
  tryFile .write (.writeAll bytes)
  tryFile .write .syncAll
  tryFile .rename .rename

/-- `path.exists()`: also false when the path cannot be looked at -/
def pathExists : FileProg Bool := do
  match ← call .metadata with
  | .ok found => pure found
  | .error _ => pure false

/-- `serde_json::from_slice` -/
def fromSlice (lib : Externals) (contents : Contents) : Except (Stop FileSecretStoreError) SecretMap :=
  let invalid := .error (.err (.parse (lib.serdeError "BTreeMap<String, Secret>" contents)))
  match contents with
  | .json value => match SecretMap.codec.decode value with
    | some inner => .ok inner
    | none => invalid
  | .text _ => invalid

/-- the map in the file, if there is one; a file without any bytes is an empty map -/
def load (lib : Externals) : FileProg SecretMap := do
  if ← pathExists then
    match ← tryFile .read .read with
    | .text [] => pure ∅
    | contents => fromSlice lib contents
  else pure ∅

def open_ (lib : Externals) : FileProg SecretMap := do
  let inner ← load lib
  flush inner
  pure inner

end FileSecretStore

/-! ## Sections and methods -/

/-- a store and its disk; a panic under the mutex poisons it -/
structure Shared where
  inner : SecretMap
  disk : Disk
  poisoned : Bool

/-- what is done while the mutex is held -/
inductive Section where
  | get (ref : SecretRef)
  | put (secret : Secret)
  | remove (ref : SecretRef)
  | list (namespace_ : String)
  | flush

/-- what a flush did to the disk, and its result -/
structure Flushed where
  trace : FileTrace
  result : Except FileSecretStoreError Unit

@[reducible] def Section.Value : Section → Type
  | .get _ => Option Secret
  | .put _ => Secret
  | .remove _ => Unit
  | .list _ => List SecretRef
  | .flush => Flushed

/-- a value, or the message of a panic -/
abbrev SectionAnswer := Fallible String Section.Value

/-- what a section does that finds the mutex sound -/
def underLock (overflowChecks : Bool) (s : Shared) : (op : Section) → SectionAnswer op → Shared → Prop
  | .get ref, answer, s' => s' = s ∧ answer = .ok s.inner[ref.locator]?
  | .put secret, answer, s' => match putSection overflowChecks s.inner secret with
    | .ok (stored, inner) => s' = { s with inner := inner } ∧ answer = .ok stored
    | .error (.panic message) => s' = { s with poisoned := true } ∧ answer = .error message
    | .error _ => False
  | .remove ref, answer, s' => s' = { s with inner := deleteSection s.inner ref } ∧ answer = .ok ()
  | .list namespace_, answer, s' => s' = s ∧ answer = .ok (refsIn namespace_ (values s.inner))
  | .flush, answer, s' => ∃ flushed disk, s' = { s with disk := disk } ∧ answer = .ok flushed ∧
      Run FileStep (FileSecretStore.flush s.inner) s.disk flushed.trace (flushed.result.mapError .err) disk

def SectionStep (overflowChecks : Bool) (s : Shared) (op : Section) (answer : SectionAnswer op) (s' : Shared) : Prop :=
  if s.poisoned then s' = s ∧ answer = .error "file secret store mutex poisoned"
  else underLock overflowChecks s op answer s'

abbrev Method := Prog SectionAnswer SecretStoreError

abbrev SectionTrace := List (Event SectionAnswer)

/-- `self.inner.lock().expect(..)` and what follows until the guard is dropped -/
def locked (op : Section) : Method op.Value := callOr .panic op

/-- `self.flush()?` -/
def flushOrFail : Method Unit := do
  let flushed ← locked .flush
  match flushed.result with
  | .ok () => pure ()
  | .error error => fail error.into

namespace FileSecretStore

def get (ref : SecretRef) : Method Secret := do
  validateRef ref
  match ← locked (.get ref) with
  | some secret => pure secret
  | none => fail (.notFound ("no secret at " ++ ref.locator))

def put (secret : Secret) : Method Secret := do
  validateRef secret.ref
  let stored ← locked (.put secret)
  flushOrFail
  pure stored

def delete (ref : SecretRef) : Method Unit := do
  validateRef ref
  locked (.remove ref)
  flushOrFail

def list (namespace_ : String) : Method (List SecretRef) := locked (.list namespace_)

def method : Call → Method Returned
  | .get ref => do
    let secret ← get ref
    pure (.secret secret)
  | .put secret => do
    let stored ← put secret
    pure (.secret stored)
  | .delete ref => do
    delete ref
    pure .unit
  | .list namespace_ => do
    let refs ← list namespace_
    pure (.refs refs)

end FileSecretStore

/-! ## What flushing and opening do -/

/-- the call gave an error -/
def Failed (e : Event FileAnswer) : Prop := ∃ message, e.2 = .error message

/-- a call that fails leaves the file alone -/
theorem file_step_error {disk disk' : Disk} {op : FileCall} {message : String}
    (h : FileStep disk op (.error message) disk') : disk'.file = disk.file := by
  cases op with
  | create | writeAll => exact h
  | metadata | read | toVecPretty | syncAll | rename =>
    obtain rfl : disk' = disk := h
    rfl

/-- all calls of `x` succeed and it ends with `post`, or one fails, it ends with an error, and the file is as it was -/
def Attempts {α : Type} (x : FileProg α) (post : Disk → α → Disk → Prop) : Prop :=
  ∀ disk t r disk', Run FileStep x disk t r disk' →
    (∃ a, r = .ok a ∧ post disk a disk' ∧ ∀ e ∈ t, ¬Failed e) ∨
      ((∃ e, r = .error (.err e)) ∧ disk'.file = disk.file ∧ ∃ e ∈ t, Failed e)

theorem attempts_tryFile (kind : String → FileSecretStoreError) (op : FileCall) :
    Attempts (tryFile kind op) fun disk a disk' => FileStep disk op (.ok a) disk' := by
  intro disk t r disk' h
  obtain ⟨answer, hstep, rfl, rfl⟩ := run_callOr.1 h
  cases answer with
  | ok a =>
    refine .inl ⟨a, rfl, hstep, ?_⟩
    intro e he hfailed
    rw [List.mem_singleton.1 he] at hfailed
    obtain ⟨message, hm⟩ := hfailed
    cases hm
  | error message => exact .inr ⟨⟨_, rfl⟩, file_step_error hstep, _, List.mem_singleton_self _, message, rfl⟩

/-- what comes after calls that do not touch the file -/
theorem Attempts.bind {α β : Type} {x : FileProg α} {f : α → FileProg β} {p : Disk → α → Disk → Prop}
    {q : α → Disk → β → Disk → Prop} (hx : Attempts x p) (hf : ∀ a, Attempts (f a) (q a))
    (hkept : ∀ disk a disk', p disk a disk' → disk'.file = disk.file) :
    Attempts (x >>= f) fun disk b disk' => ∃ a u, p disk a u ∧ q a u b disk' := by
  intro disk t r disk' h
  rcases run_bind.1 h with ⟨a, t₁, u, t₂, h₁, h₂, rfl⟩ | ⟨e, h₁, rfl⟩
  · rcases hx _ _ _ _ h₁ with ⟨a', ha, hp, hclean₁⟩ | ⟨⟨e, he⟩, -⟩
    · obtain rfl := Except.ok.inj ha
      rcases hf a _ _ _ _ h₂ with ⟨b, rfl, hq, hclean₂⟩ | ⟨hr, hfile, e, he, hfailed⟩
      · refine .inl ⟨b, rfl, ⟨a, u, hp, hq⟩, ?_⟩
        intro e he
        exact (List.mem_append.1 he).elim (hclean₁ e) (hclean₂ e)
      · exact .inr ⟨hr, hfile.trans (hkept _ _ _ hp), e, List.mem_append_right _ he, hfailed⟩
    · cases he
  · rcases hx _ _ _ _ h₁ with ⟨a, ha, -⟩ | hfailed
    · cases ha
    · obtain ⟨⟨e', he⟩, hrest⟩ := hfailed
      cases he
      exact .inr ⟨⟨e', rfl⟩, hrest⟩

theorem Attempts.post {α : Type} {x : FileProg α} {p q : Disk → α → Disk → Prop} (hx : Attempts x p)
    (h : ∀ disk a disk', p disk a disk' → q disk a disk') : Attempts x q := by
  intro disk t r disk' hrun
  rcases hx _ _ _ _ hrun with ⟨a, hr, hp, hclean⟩ | hfailed
  · exact .inl ⟨a, hr, h _ _ _ hp, hclean⟩
  · exact .inr hfailed

namespace FileSecretStore

/-- **A flush writes the whole map or leaves the file alone**, and it fails exactly when one of its calls does. -/
theorem flush_attempts (inner : SecretMap) :
    Attempts (flush inner) fun _ _ disk' => disk'.file = some (.json (SecretMap.codec.encode inner)) := by
  refine ((attempts_tryFile _ _).bind (fun bytes => (attempts_tryFile _ _).bind (fun _ =>
    (attempts_tryFile _ _).bind (fun _ => (attempts_tryFile _ _).bind (fun _ => attempts_tryFile _ _) ?_) ?_) ?_)
    ?_).post ?_
  · intro disk _ disk' h
    rw [show disk' = disk from h]
  · intro disk _ disk' h
    rw [show disk' = { disk with temporary := _ } from h]
  · intro disk _ disk' h
    rw [show disk' = { disk with temporary := _ } from h]
  · intro disk bytes disk' h
    rw [h.1]
  · intro disk _ disk' h
    obtain ⟨bytes, _, ⟨rfl, rfl⟩, ⟨⟩, _, rfl, ⟨⟩, _, rfl, ⟨⟩, _, rfl, -, rfl⟩ := h
    rfl

/-- the calls of a flush that succeeds -/
def flushTrace (inner : SecretMap) : FileTrace :=
  let contents := .json (SecretMap.codec.encode inner)
  [⟨.toVecPretty inner, .ok contents⟩, ⟨.create, .ok ()⟩, ⟨.writeAll contents, .ok ()⟩, ⟨.syncAll, .ok ()⟩,
    ⟨.rename, .ok ()⟩]

theorem flushTrace_clean (inner : SecretMap) : ∀ e ∈ flushTrace inner, ¬Failed e := by
  intro e he hfailed
  obtain ⟨message, hm⟩ := hfailed
  simp only [flushTrace, List.mem_cons, List.not_mem_nil, or_false] at he
  rcases he with rfl | rfl | rfl | rfl | rfl
  all_goals cases hm

/-- a flush can succeed on any disk -/
theorem flush_runs (inner : SecretMap) (disk : Disk) : Run FileStep (flush inner) disk (flushTrace inner) (.ok ())
    ⟨some (.json (SecretMap.codec.encode inner)), none⟩ :=
  .call ⟨rfl, rfl⟩ <| .call rfl <| .call rfl <| .call rfl <| .call ⟨rfl, rfl⟩ .done

/-- opening a missing file gives an empty map, and writes it -/
theorem open_missing (lib : Externals) {disk : Disk} (hmissing : disk.file = none) :
    ∃ t, Run FileStep (open_ lib) disk t (.ok ∅) ⟨some (.json (SecretMap.codec.encode ∅)), none⟩ ∧
      ∀ e ∈ t, ¬Failed e := by
  have hmetadata : FileStep disk .metadata (.ok false) disk := ⟨rfl, by rw [hmissing]; rfl⟩
  refine ⟨⟨.metadata, .ok false⟩ :: (flushTrace ∅ ++ []), .call hmetadata ((flush_runs ∅ disk).bind .done), ?_⟩
  rw [List.append_nil, List.forall_mem_cons]
  refine ⟨?_, flushTrace_clean ∅⟩
  intro hfailed
  obtain ⟨message, hm⟩ := hfailed
  cases hm

/-- opening a file that a flush has written gives the map that was written -/
theorem open_written (lib : Externals) {inner : SecretMap} {disk : Disk}
    (hheld : disk.file = some (.json (SecretMap.codec.encode inner))) :
    ∃ t, Run FileStep (open_ lib) disk t (.ok inner) ⟨some (.json (SecretMap.codec.encode inner)), none⟩ ∧
      ∀ e ∈ t, ¬Failed e := by
  let contents := Contents.json (SecretMap.codec.encode inner)
  have hparsed : fromSlice lib contents = .ok inner := by
    simp only [contents, fromSlice, SecretMap.codec.decode_encode]
  have hload : Run FileStep (load lib) disk [⟨.metadata, .ok true⟩, ⟨.read, .ok contents⟩] (.ok inner) disk := by
    refine .call ⟨rfl, by rw [hheld]; rfl⟩ (.call ⟨rfl, hheld⟩ ?_)
    exact run_lift.2 ⟨rfl, hparsed.symm, rfl⟩
  refine ⟨_, hload.bind ((flush_runs inner disk).bind .done), ?_⟩
  intro e he
  rw [List.append_nil] at he
  rcases List.mem_append.1 he with he | he
  · intro hfailed
    obtain ⟨message, hm⟩ := hfailed
    rcases List.mem_pair.1 he with rfl | rfl
    all_goals cases hm
  · exact flushTrace_clean inner e he

section
variable {lib : Externals} {inner : SecretMap} {disk disk' : Disk} {t : FileTrace}

theorem pathExists_steady {found : Bool} (h : Run FileStep pathExists disk t (.ok found) disk')
    (hclean : ∀ e ∈ t, ¬Failed e) : found = disk.file.isSome ∧ disk' = disk := by
  obtain ⟨answer, u, t', hstep, hanswer, rfl⟩ := run_call_next.1 h
  cases answer with
  | error message => exact absurd ⟨message, rfl⟩ (hclean _ List.mem_cons_self)
  | ok answer =>
    obtain ⟨rfl, rfl⟩ := hstep
    obtain ⟨-, hf, rfl⟩ := run_done.1 hanswer
    exact ⟨Except.ok.inj hf, rfl⟩

/-- without failures, what is loaded is the map in the file -/
theorem load_steady (h : Run FileStep (load lib) disk t (.ok inner) disk') (hclean : ∀ e ∈ t, ¬Failed e) :
    (disk.file = none → inner = ∅) ∧
      ∀ held, disk.file = some (.json (SecretMap.codec.encode held)) → inner = held := by
  obtain ⟨found, t₁, u, t₂, hexists, hload, rfl⟩ := run_bind_ok.1 h
  obtain ⟨rfl, rfl⟩ := pathExists_steady hexists fun e he => hclean e (List.mem_append_left _ he)
  refine ⟨?_, ?_⟩
  · intro hnone
    rw [hnone] at hload
    obtain ⟨-, he, -⟩ := run_pure.1 hload
    exact Except.ok.inj he
  · intro held hheld
    rw [hheld] at hload
    obtain ⟨contents, t₃, v, t₄, hread, hparse, -⟩ := run_bind_ok.1 hload
    obtain ⟨answer, hstep, -, ha⟩ := run_callOr.1 hread
    cases answer with
    | error message => cases ha
    | ok answer =>
      obtain rfl := Except.ok.inj ha
      obtain ⟨-, hsame⟩ := hstep
      obtain rfl := Option.some.inj (hheld.symm.trans hsame)
      obtain ⟨-, he, -⟩ := run_lift.1 hparse
      simp only [fromSlice, SecretMap.codec.decode_encode] at he
      exact Except.ok.inj he

/-- opening, when no call fails: the map is the one in the file, and it is written back -/
theorem open_steady (h : Run FileStep (open_ lib) disk t (.ok inner) disk') (hclean : ∀ e ∈ t, ¬Failed e) :
    (disk.file = none → inner = ∅) ∧ (∀ held, disk.file = some (.json (SecretMap.codec.encode held)) → inner = held) ∧
      disk'.file = some (.json (SecretMap.codec.encode inner)) := by
  obtain ⟨loaded, t₁, u, t₂, hload, hrest, rfl⟩ := run_bind_ok.1 h
  obtain ⟨⟨⟩, t₃, v, t₄, hflush, hdone, rfl⟩ := run_bind_ok.1 hrest
  obtain ⟨-, he, rfl⟩ := run_pure.1 hdone
  obtain rfl := Except.ok.inj he
  obtain ⟨hmissing, hheld⟩ := load_steady hload fun e he => hclean e (List.mem_append_left _ he)
  refine ⟨hmissing, hheld, ?_⟩
  rcases flush_attempts inner _ _ _ _ hflush with ⟨-, -, hfile, -⟩ | ⟨⟨e, he⟩, -⟩
  · exact hfile
  · cases he

end

/-! ## What calls do -/

/-- a call of the disk failed during a flush -/
def IoFailed : Event SectionAnswer → Prop
  | ⟨.flush, .ok flushed⟩ => ∃ e ∈ flushed.trace, Failed e
  | _ => False

section
variable {overflowChecks : Bool} {s s' : Shared} {t : SectionTrace}

theorem section_sound (hs : s.poisoned = false) {op : Section} {answer : SectionAnswer op} :
    SectionStep overflowChecks s op answer s' ↔ underLock overflowChecks s op answer s' := by
  simp [SectionStep, hs]

/-- the outcome of flushing the map `inner`: the file is that map, or as it was -/
def FlushedTo {α : Type} (inner : SecretMap) (a : α) (s : Shared) (t : SectionTrace) (r : Except (Stop SecretStoreError) α)
    (s' : Shared) : Prop :=
  s'.inner = inner ∧ s'.poisoned = false ∧
    ((r = .ok a ∧ s'.disk.file = some (.json (SecretMap.codec.encode inner)) ∧ ∀ e ∈ t, ¬IoFailed e) ∨
      ((∃ e, r = .error (.err e)) ∧ s'.disk.file = s.disk.file ∧ ∃ e ∈ t, IoFailed e))

theorem run_flushOrFail (hs : s.poisoned = false) {r : Except (Stop SecretStoreError) Unit}
    (h : Run (SectionStep overflowChecks) flushOrFail s t r s') : FlushedTo s.inner () s t r s' := by
  rcases run_callOr_bind.1 h with ⟨flushed, u, t', hstep, hrest, rfl⟩ | ⟨message, hstep, -, -⟩
  · obtain ⟨flushed', disk, rfl, he, hrun⟩ := (section_sound hs).1 hstep
    obtain rfl := Except.ok.inj he
    obtain ⟨trace, result⟩ := flushed
    rcases flush_attempts _ _ _ _ _ hrun with ⟨⟨⟩, hr, hfile, hclean⟩ | ⟨⟨e, hr⟩, hfile, hfailed⟩
    · cases result with
      | error => cases hr
      | ok =>
        obtain ⟨rfl, rfl, rfl⟩ := run_pure.1 hrest
        refine ⟨rfl, hs, .inl ⟨rfl, hfile, ?_⟩⟩
        intro e he hio
        rw [List.mem_singleton.1 he] at hio
        obtain ⟨e', he', hf⟩ := hio
        exact hclean e' he' hf
    · cases result with
      | ok => cases hr
      | error e' =>
        obtain ⟨rfl, rfl, rfl⟩ := run_fail.1 hrest
        exact ⟨rfl, hs, .inr ⟨⟨_, rfl⟩, hfile, _, List.mem_singleton_self _, hfailed⟩⟩
  · obtain ⟨flushed, disk, -, he, -⟩ := (section_sound hs).1 hstep
    cases he

/-- a method that has updated the map, and flushes it before it returns `a` -/
theorem run_flush_then {α : Type} {a : α} (hs : s.poisoned = false) {r : Except (Stop SecretStoreError) α}
    (h : Run (SectionStep overflowChecks) (do flushOrFail; pure a) s t r s') : FlushedTo s.inner a s t r s' := by
  rcases run_bind.1 h with ⟨⟨⟩, t₁, u, t₂, h₁, h₂, rfl⟩ | ⟨e, h₁, rfl⟩
  · obtain ⟨hi, hp, hr⟩ := run_flushOrFail hs h₁
    obtain ⟨rfl, rfl, rfl⟩ := run_pure.1 h₂
    rw [List.append_nil]
    refine ⟨hi, hp, hr.imp ?_ ?_⟩
    · intro hok
      exact ⟨rfl, hok.2⟩
    · intro hfailed
      obtain ⟨⟨e, he⟩, -⟩ := hfailed
      cases he
  · obtain ⟨hi, hp, hr⟩ := run_flushOrFail hs h₁
    refine ⟨hi, hp, hr.imp ?_ ?_⟩
    · intro hok
      cases hok.1
    · intro hfailed
      obtain ⟨⟨e', he⟩, hrest⟩ := hfailed
      cases he
      exact ⟨⟨e', rfl⟩, hrest⟩

theorem FlushedTo.cons {α : Type} {inner : SecretMap} {a : α} {u : Shared} {r : Except (Stop SecretStoreError) α}
    (h : FlushedTo inner a u t r s') {e : Event SectionAnswer} (he : ¬IoFailed e) (hdisk : u.disk = s.disk) :
    FlushedTo inner a s (e :: t) r s' := by
  obtain ⟨hi, hp, hr⟩ := h
  refine ⟨hi, hp, hr.imp ?_ ?_⟩
  · intro hok
    exact ⟨hok.1, hok.2.1, List.forall_mem_cons.2 ⟨he, hok.2.2⟩⟩
  · intro hfailed
    obtain ⟨hr, hfile, e', he', hio⟩ := hfailed
    exact ⟨hr, hfile.trans (by rw [hdisk]), e', List.mem_cons_of_mem e he', hio⟩

/-- the section of a put: the map is updated, or the mutex is poisoned -/
theorem putSection_step (hs : s.poisoned = false) {secret : Secret} {answer : SectionAnswer (.put secret)}
    (h : SectionStep overflowChecks s (.put secret) answer s') :
    (∃ stored inner, putSection overflowChecks s.inner secret = .ok (stored, inner) ∧ answer = .ok stored ∧
        s' = { s with inner := inner }) ∨
      ∃ message, putSection overflowChecks s.inner secret = .error (.panic message) ∧ answer = .error message ∧
        s' = { s with poisoned := true } := by
  have hunder := (section_sound hs).1 h
  simp only [underLock] at hunder
  split at hunder
  next stored inner hput => exact .inl ⟨stored, inner, hput, hunder.2, hunder.1⟩
  next message hput => exact .inr ⟨message, hput, hunder.2, hunder.1⟩
  next => exact hunder.elim

theorem putSection_panics {inner : SecretMap} {secret : Secret} {e : Stop SecretStoreError}
    (h : putSection overflowChecks inner secret = .error e) : e = .panic "attempt to add with overflow" := by
  rw [putSection] at h
  cases hversion : nextVersion overflowChecks inner[secret.ref.locator]? with
  | ok version =>
    rw [hversion] at h
    cases h
  | error e' =>
    rw [hversion] at h
    cases h
    exact nextVersion_panics hversion

/-- every section can be taken, with nothing failing on the disk -/
theorem section_total (s : Shared) (op : Section) :
    ∃ answer s', SectionStep overflowChecks s op answer s' ∧ ¬IoFailed ⟨op, answer⟩ := by
  by_cases hs : s.poisoned = true
  · exact ⟨.error _, s, by rw [SectionStep, if_pos hs]; exact ⟨rfl, rfl⟩, by simp [IoFailed]⟩
  rw [Bool.not_eq_true] at hs
  simp only [section_sound hs]
  cases op with
  | get ref => exact ⟨_, s, ⟨rfl, rfl⟩, by simp [IoFailed]⟩
  | list namespace_ => exact ⟨_, s, ⟨rfl, rfl⟩, by simp [IoFailed]⟩
  | remove ref => exact ⟨_, _, ⟨rfl, rfl⟩, by simp [IoFailed]⟩
  | put secret =>
    simp only [underLock]
    cases hput : putSection overflowChecks s.inner secret with
    | ok p => exact ⟨_, _, ⟨rfl, rfl⟩, by simp [IoFailed]⟩
    | error e =>
      obtain rfl := putSection_panics hput
      exact ⟨_, _, ⟨rfl, rfl⟩, by simp [IoFailed]⟩
  | flush =>
    refine ⟨.ok ⟨flushTrace s.inner, .ok ()⟩, _, ⟨_, _, rfl, rfl, flush_runs s.inner s.disk⟩, ?_⟩
    intro hfailed
    obtain ⟨e, he, hf⟩ := hfailed
    exact flushTrace_clean s.inner e he hf

/-- every method has a run in which nothing fails on the disk -/
theorem steady_run (overflowChecks : Bool) {α : Type} (x : Method α) (s : Shared) :
    ∃ t r s', Run (SectionStep overflowChecks) x s t r s' ∧ ∀ e ∈ t, ¬IoFailed e :=
  exists_run (P := fun e => ¬IoFailed e) section_total x s

theorem run_get (hs : s.poisoned = false) {ref : SecretRef} {r : Except (Stop SecretStoreError) Secret}
    (h : Run (SectionStep overflowChecks) (get ref) s t r s') :
    r = InMemorySecretStore.get s.inner ref ∧ s' = s ∧ ∀ e ∈ t, ¬IoFailed e := by
  rw [InMemorySecretStore.get]
  rcases run_lift_bind.1 h with ⟨⟨⟩, hname, h⟩ | ⟨e, hname, rfl, rfl, rfl⟩
  · rw [hname, ok_bind, lookup]
    rcases run_callOr_bind.1 h with ⟨entry, u, t', hstep, hrest, rfl⟩ | ⟨message, hstep, -, -⟩
    · obtain ⟨rfl, he⟩ := (section_sound hs).1 hstep
      obtain rfl := Except.ok.inj he
      cases hentry : u.inner[ref.locator]? with
      | some secret =>
        rw [hentry] at hrest
        obtain ⟨rfl, rfl, rfl⟩ := run_pure.1 hrest
        exact ⟨rfl, rfl, by simp [IoFailed]⟩
      | none =>
        rw [hentry] at hrest
        obtain ⟨rfl, rfl, rfl⟩ := run_fail.1 hrest
        exact ⟨rfl, rfl, by simp [IoFailed]⟩
    · cases ((section_sound hs).1 hstep).2
  · rw [hname, error_bind]
    exact ⟨rfl, rfl, by simp⟩

theorem run_list (hs : s.poisoned = false) {namespace_ : String} {r : Except (Stop SecretStoreError) (List SecretRef)}
    (h : Run (SectionStep overflowChecks) (list namespace_) s t r s') :
    r = .ok (refsIn namespace_ (values s.inner)) ∧ s' = s ∧ ∀ e ∈ t, ¬IoFailed e := by
  obtain ⟨answer, hstep, rfl, rfl⟩ := run_callOr.1 h
  obtain ⟨rfl, rfl⟩ := (section_sound hs).1 hstep
  exact ⟨rfl, rfl, by simp [IoFailed]⟩

/-- an update as in memory, and a flush of the map it leaves -/
theorem run_put (hs : s.poisoned = false) {secret : Secret} {r : Except (Stop SecretStoreError) Secret}
    (h : Run (SectionStep overflowChecks) (put secret) s t r s') :
    (∃ stored inner, InMemorySecretStore.put overflowChecks s.inner secret = .ok (stored, inner) ∧
        FlushedTo inner stored s t r s') ∨
      ∃ e, InMemorySecretStore.put overflowChecks s.inner secret = .error e ∧ r = .error e ∧
        (s' = s ∨ (∃ message, e = .panic message) ∧ s' = { s with poisoned := true }) ∧ ∀ e ∈ t, ¬IoFailed e := by
  rw [InMemorySecretStore.put]
  rcases run_lift_bind.1 h with ⟨⟨⟩, hname, h⟩ | ⟨e, hname, rfl, rfl, rfl⟩
  · rw [hname, ok_bind]
    rcases run_callOr_bind.1 h with ⟨stored, u, t', hstep, hrest, rfl⟩ | ⟨message, hstep, rfl, rfl⟩
    · rcases putSection_step hs hstep with ⟨stored', inner, hput, he, rfl⟩ | ⟨message, -, he, -⟩
      · obtain rfl := Except.ok.inj he
        have hflushed := run_flush_then (s := { s with inner := inner }) hs hrest
        exact .inl ⟨stored, inner, hput, hflushed.cons (by simp [IoFailed]) rfl⟩
      · cases he
    · rcases putSection_step hs hstep with ⟨stored', inner, -, he, -⟩ | ⟨message', hput, he, rfl⟩
      · cases he
      · obtain rfl := Except.error.inj he
        exact .inr ⟨_, hput, rfl, .inr ⟨⟨_, rfl⟩, rfl⟩, by simp [IoFailed]⟩
  · rw [hname, error_bind]
    exact .inr ⟨e, rfl, rfl, .inl rfl, by simp⟩

theorem run_delete (hs : s.poisoned = false) {ref : SecretRef} {r : Except (Stop SecretStoreError) Unit}
    (h : Run (SectionStep overflowChecks) (delete ref) s t r s') :
    (∃ inner, InMemorySecretStore.delete s.inner ref = .ok inner ∧ FlushedTo inner () s t r s') ∨
      ∃ e, InMemorySecretStore.delete s.inner ref = .error e ∧ r = .error e ∧ s' = s ∧ ∀ e ∈ t, ¬IoFailed e := by
  rw [InMemorySecretStore.delete]
  rcases run_lift_bind.1 h with ⟨⟨⟩, hname, h⟩ | ⟨e, hname, rfl, rfl, rfl⟩
  · rw [hname, ok_bind]
    rcases run_callOr_bind.1 h with ⟨⟨⟩, u, t', hstep, hrest, rfl⟩ | ⟨message, hstep, rfl, rfl⟩
    · obtain ⟨rfl, -⟩ := (section_sound hs).1 hstep
      have hflushed := run_flushOrFail (s := { s with inner := deleteSection s.inner ref }) hs hrest
      exact .inl ⟨_, rfl, hflushed.cons (by simp [IoFailed]) rfl⟩
    · cases ((section_sound hs).1 hstep).2
  · rw [hname, error_bind]
    exact .inr ⟨e, rfl, rfl, rfl, by simp⟩

end

end FileSecretStore

end PhenoCompose
