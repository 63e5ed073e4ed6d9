/-
Lives of a file store: it is opened, used by threads, and stopped or killed at any point; then it is opened again.

Any call on the file may fail. A process may be killed between two sections, or in the middle of a flush or of an open,
after any of their calls; a write that is cut short is one that failed. What the operating system was handed it keeps.

- `open_cases`, `flush_stopped`, `open_stopped`: the file is left as it was, or holds one whole map.
- `held_step`: a map that is held after a step, in memory or by the file, was held before it, or was just updated.
- `updates_survive`: what a call made that returned `Ok` is in every map that is held from then on, or a later update is.
-/
import PhenoCompose.Core.Crash
import PhenoCompose.SharedStore

namespace PhenoCompose

open Core.Collections Core.Crash Core.Interleave Core.Json Core.Process Core.Transition SecretStore FileSecretStore

/-! ## Opening and flushing -/

/-- what `open` makes of the file, when it can look at it -/
def openedFrom : Option Contents → Option SecretMap
  | none | some (.text []) => some ∅
  | some (.json value) => SecretMap.codec.decode value
  | some (.text (_ :: _)) => none

/-- a call that could not tell whether there is a file -/
def Blind (trace : FileTrace) : Prop := ∃ message rest, trace = ⟨.metadata, .error message⟩ :: rest

section
variable {lib : Externals} {inner : SecretMap} {disk disk' : Disk} {t : FileTrace}

theorem opened_encoded (inner : SecretMap) : openedFrom (some (.json (SecretMap.codec.encode inner))) = some inner :=
  SecretMap.codec.decode_encode inner

theorem Blind.append (h : Blind t) (t' : FileTrace) : Blind (t ++ t') := by
  obtain ⟨message, rest, rfl⟩ := h
  exact ⟨message, rest ++ t', rfl⟩

theorem pathExists_cases {r : Except (Stop FileSecretStoreError) Bool} (h : Run FileStep pathExists disk t r disk') :
    disk' = disk ∧ (Blind t ∨ r = .ok disk.file.isSome) := by
  obtain ⟨answer, u, t', hstep, hanswer, rfl⟩ := run_call_next.1 h
  cases answer with
  | error message =>
    obtain rfl : u = disk := hstep
    obtain ⟨-, -, rfl⟩ := run_done.1 hanswer
    exact ⟨rfl, .inl ⟨message, t', rfl⟩⟩
  | ok found =>
    obtain ⟨rfl, rfl⟩ := hstep
    obtain ⟨-, rfl, rfl⟩ := run_done.1 hanswer
    exact ⟨rfl, .inr rfl⟩

theorem slice_cases {contents : Contents} (hne : contents ≠ .text []) {r : Except (Stop FileSecretStoreError) SecretMap}
    (h : Run FileStep (liftM (fromSlice lib contents)) disk t r disk') :
    disk' = disk ∧ ((∃ e, r = .error e) ∨ ∃ inner, r = .ok inner ∧ openedFrom (some contents) = some inner) := by
  obtain ⟨-, rfl, rfl⟩ := run_lift.1 h
  refine ⟨rfl, ?_⟩
  cases contents with
  | text codes =>
    cases codes with
    | nil => exact absurd rfl hne
    | cons => exact .inl ⟨_, rfl⟩
  | json value =>
    cases hdecode : SecretMap.codec.decode value with
    | none =>
      refine .inl ⟨.err (.parse (lib.serdeError "BTreeMap<String, Secret>" (.json value))), ?_⟩
      simp only [fromSlice, hdecode]
    | some inner => exact .inr ⟨inner, by simp only [fromSlice, hdecode], hdecode⟩

/-- loading changes nothing, and gives the map in the file or an error -/
theorem load_cases {r : Except (Stop FileSecretStoreError) SecretMap} (h : Run FileStep (load lib) disk t r disk')
    (hlook : ¬Blind t) :
    disk' = disk ∧ ((∃ e, r = .error e) ∨ ∃ inner, r = .ok inner ∧ openedFrom disk.file = some inner) := by
  rcases run_bind.1 h with ⟨found, t₁, u, t₂, hexists, hload, rfl⟩ | ⟨e, hexists, rfl⟩
  · obtain ⟨rfl, hblind | hfound⟩ := pathExists_cases hexists
    · exact absurd (hblind.append t₂) hlook
    obtain rfl := Except.ok.inj hfound
    cases hfile : u.file with
    | none =>
      rw [hfile] at hload
      obtain ⟨-, rfl, rfl⟩ := run_pure.1 hload
      exact ⟨rfl, .inr ⟨∅, rfl, rfl⟩⟩
    | some held =>
      rw [hfile] at hload
      rcases run_callOr_bind.1 hload with ⟨contents, v, t', ⟨rfl, hread⟩, hparse, -⟩ | ⟨message, hstep, -, rfl⟩
      · obtain rfl := Option.some.inj (hfile.symm.trans hread)
        cases held with
        | json value => exact slice_cases (by simp) hparse
        | text codes =>
          cases codes with
          | nil =>
            obtain ⟨-, rfl, rfl⟩ := run_pure.1 hparse
            exact ⟨rfl, .inr ⟨∅, rfl, rfl⟩⟩
          | cons => exact slice_cases (by simp) hparse
      · exact ⟨hstep, .inl ⟨_, rfl⟩⟩
  · exact ⟨(pathExists_cases hexists).1, .inl ⟨e, rfl⟩⟩

theorem open_cases {r : Except (Stop FileSecretStoreError) SecretMap} (h : Run FileStep (open_ lib) disk t r disk')
    (hlook : ¬Blind t) : (∃ e, r = .error e) ∧ disk'.file = disk.file ∨
      ∃ inner, r = .ok inner ∧ openedFrom disk.file = some inner ∧
        disk'.file = some (.json (SecretMap.codec.encode inner)) := by
  rcases run_bind.1 h with ⟨inner, t₁, u, t₂, hload, hflush, rfl⟩ | ⟨e, hload, rfl⟩
  · obtain ⟨rfl, ⟨e, he⟩ | ⟨inner', he, hopened⟩⟩ := load_cases hload fun hblind => hlook (hblind.append t₂)
    · cases he
    obtain rfl := Except.ok.inj he
    obtain ⟨r', hrun, rfl⟩ := run_bind_pure.1 hflush
    rcases flush_attempts _ _ _ _ _ hrun with ⟨⟨⟩, rfl, hfile, -⟩ | ⟨⟨e, rfl⟩, hfile, -⟩
    · exact .inr ⟨inner, rfl, hopened, hfile⟩
    · exact .inl ⟨⟨_, rfl⟩, hfile⟩
  · obtain ⟨rfl, -⟩ := load_cases hload hlook
    exact .inl ⟨⟨e, rfl⟩, rfl⟩

/-- every call can fail and change nothing -/
theorem call_fails (disk : Disk) (op : FileCall) : ∃ answer, FileStep disk op answer disk := by
  refine ⟨.error "", ?_⟩
  cases op with
  | create | writeAll | metadata | read | toVecPretty | syncAll | rename => rfl

/-- a flush that is killed leaves the old file or the new one -/
theorem flush_stopped (h : Begins FileStep (flush inner) disk t disk') :
    disk'.file = disk.file ∨ disk'.file = some (.json (SecretMap.codec.encode inner)) := by
  obtain ⟨t', r, hrun⟩ := h.runs call_fails
  rcases flush_attempts _ _ _ _ _ hrun with ⟨-, -, hfile, -⟩ | ⟨-, hfile, -⟩
  · exact .inr hfile
  · exact .inl hfile

/-- an open that cannot see whether there is a file writes an empty map over it -/
theorem blind_open_forgets (lib : Externals) (disk : Disk) (message : String) :
    Run FileStep (open_ lib) disk (⟨.metadata, .error message⟩ :: (flushTrace ∅ ++ [])) (.ok ∅)
      ⟨some (.json (SecretMap.codec.encode ∅)), none⟩ :=
  .call rfl ((flush_runs ∅ disk).bind .done)

theorem open_stopped (h : Begins FileStep (open_ lib) disk t disk') (hlook : ¬Blind t) :
    disk'.file = disk.file ∨
      ∃ inner, openedFrom disk.file = some inner ∧ disk'.file = some (.json (SecretMap.codec.encode inner)) := by
  obtain ⟨t', r, hrun⟩ := h.runs call_fails
  cases t with
  | nil =>
    cases h
    exact .inl rfl
  | cons e t =>
    have hlook' : ¬Blind ((e :: t) ++ t') := by
      rintro ⟨message, rest, he⟩
      obtain ⟨rfl, -⟩ := List.cons.inj he
      exact hlook ⟨message, t, rfl⟩
    rcases open_cases hrun hlook' with ⟨-, hfile⟩ | ⟨inner, -, hopened, hfile⟩
    · exact .inl hfile
    · exact .inr ⟨inner, hopened, hfile⟩

end

/-! ## Sections, with calls that may fail -/

section
variable {overflowChecks : Bool} {s s' : Shared} {op : Section} {answer : SectionAnswer op}

/-- a section makes its update, and leaves the file as it was or, by a flush, with the map -/
theorem section_cases (h : SectionStep overflowChecks s op answer s') :
    s'.inner = ((updateOf ⟨op, answer⟩).toList).foldl applyUpdate s.inner ∧
      (s'.disk.file = s.disk.file ∨ s'.disk.file = some (.json (SecretMap.codec.encode s.inner))) := by
  by_cases hio : IoFailed ⟨op, answer⟩
  · cases op with
    | flush =>
      have hs : s.poisoned = false := by
        by_contra hs
        obtain ⟨-, message, rfl⟩ := section_poisoned (Bool.not_eq_false _ ▸ hs) h
        exact hio.elim
      obtain ⟨flushed, disk, rfl, rfl, hrun⟩ := (section_sound hs).1 h
      refine ⟨rfl, ?_⟩
      rcases flush_attempts _ _ _ _ _ hrun with ⟨-, -, hfile, -⟩ | ⟨-, hfile, -⟩
      · exact .inr hfile
      · exact .inl hfile
    | get | put | remove | list => exact hio.elim
  · refine ⟨steady_inner ⟨h, hio⟩, ?_⟩
    rcases steady_disk ⟨h, hio⟩ with ⟨-, hfile⟩ | ⟨-, hdisk⟩
    · exact .inr hfile
    · exact .inl (by rw [hdisk])

/-- a flush that succeeds has written the map -/
theorem section_flushed {trace : FileTrace} (h : SectionStep overflowChecks s .flush (.ok ⟨trace, .ok ()⟩) s') :
    s'.inner = s.inner ∧ s'.disk.file = some (.json (SecretMap.codec.encode s.inner)) := by
  have hs : s.poisoned = false := by
    by_contra hs
    obtain ⟨-, message, he⟩ := section_poisoned (Bool.not_eq_false _ ▸ hs) h
    cases he
  obtain ⟨flushed, disk, rfl, he, hrun⟩ := (section_sound hs).1 h
  obtain rfl := Except.ok.inj he
  rcases flush_attempts _ _ _ _ _ hrun with ⟨-, -, hfile, -⟩ | ⟨⟨e, he⟩, -, -⟩
  · exact ⟨rfl, hfile⟩
  · cases he

end

/-! ## Lives -/

/-- nobody has the store open, or a process with its threads has -/
inductive StoreState (ι : Type) where
  | closed (disk : Disk)
  | running (threads : Threads ι)

def StoreState.file {ι : Type} : StoreState ι → Option Contents
  | .closed disk => disk.file
  | .running threads => threads.shared.disk.file

inductive StoreLabel (ι : Type) where
  /-- a store that was opened, or an open that failed or was killed -/
  | opens (trace : FileTrace) (succeeded : Bool)
  | turn (l : ThreadLabel ι)
  /-- with what a flush had done that was under way -/
  | killed (trace : FileTrace)

section
variable {ι : Type} [DecidableEq ι] (lib : Externals) (overflowChecks : Bool)

inductive Lives : StoreState ι → StoreLabel ι → StoreState ι → Prop where
  | opened {disk disk' : Disk} {trace : FileTrace} {inner : SecretMap}
      (hrun : Run FileStep (open_ lib) disk trace (.ok inner) disk') :
      Lives (.closed disk) (.opens trace true) (.running (.quiet ⟨inner, disk', false⟩))
  | notOpened {disk disk' : Disk} {trace : FileTrace} (hbegins : Begins FileStep (open_ lib) disk trace disk') :
      Lives (.closed disk) (.opens trace false) (.closed disk')
  | turn {u v : Threads ι} {l : ThreadLabel ι}
      (hturn : Turn (programs method) (fun _ => SectionStep overflowChecks) u l v) :
      Lives (.running u) (.turn l) (.running v)
  | killed {u : Threads ι} : Lives (.running u) (.killed []) (.closed u.shared.disk)
  | killedFlushing {u : Threads ι} {i : ι} {c : Call} {next : SectionAnswer .flush → Method Returned} {trace : FileTrace}
      {disk : Disk} (hin : u.parties i = some (c, .call .flush next)) (hsound : u.shared.poisoned = false)
      (hbegins : Begins FileStep (flush u.shared.inner) u.shared.disk trace disk) :
      Lives (.running u) (.killed trace) (.closed disk)

end

section
variable {ι : Type} {lib : Externals} {overflowChecks : Bool} {s s' : StoreState ι} {l : StoreLabel ι}

/-- an open that could not tell whether there is a file -/
def StoreLabel.blind : StoreLabel ι → Prop
  | .opens trace _ => Blind trace
  | .turn _ | .killed _ => False

def StoreLabel.update : StoreLabel ι → Option (SecretRef × Option Secret)
  | .turn l => updated l
  | .opens .. | .killed _ => none

/-- a map that is in memory, or that opening the file would give -/
def StoreState.Held (s : StoreState ι) (inner : SecretMap) : Prop :=
  (∃ u, s = .running u ∧ u.shared.inner = inner) ∨ openedFrom s.file = some inner

variable [DecidableEq ι]

/-- a step leaves the file as it was, or with a map that was held -/
theorem file_step (h : Lives lib overflowChecks s l s') (hlook : ¬l.blind) :
    s'.file = s.file ∨ ∃ inner, s.Held inner ∧ s'.file = some (.json (SecretMap.codec.encode inner)) := by
  cases h with
  | opened hrun =>
    rcases open_cases hrun hlook with ⟨⟨e, he⟩, -⟩ | ⟨inner, -, hopened, hfile⟩
    · cases he
    · exact .inr ⟨inner, .inr hopened, hfile⟩
  | notOpened hbegins =>
    refine (open_stopped hbegins hlook).imp_right ?_
    rintro ⟨inner, hopened, hfile⟩
    exact ⟨inner, .inr hopened, hfile⟩
  | @turn u v l hturn =>
    cases hturn with
    | invoke | returns => exact .inl rfl
    | event hin hdoes hstep =>
      refine (section_cases hstep).2.imp_right fun hfile => ?_
      exact ⟨u.shared.inner, .inl ⟨u, rfl, rfl⟩, hfile⟩
  | killed => exact .inl rfl
  | @killedFlushing u i c next trace disk hin hsound hbegins =>
    refine (flush_stopped hbegins).imp_right fun hfile => ?_
    exact ⟨u.shared.inner, .inl ⟨u, rfl, rfl⟩, hfile⟩

/-- a turn keeps the map in memory, or updates it -/
theorem turn_memory {u v : Threads ι} {l : ThreadLabel ι}
    (h : Turn (programs method) (fun _ => SectionStep overflowChecks) u l v) :
    updated l = none ∧ v.shared.inner = u.shared.inner ∨
      ∃ w, updated l = some w ∧ v.shared.inner = applyUpdate u.shared.inner w := by
  cases h with
  | invoke | returns => exact .inl ⟨rfl, rfl⟩
  | @event i c x y e later hin hdoes hstep =>
    have hinner := (section_cases hstep).1
    cases hw : updateOf e with
    | none =>
      rw [hw] at hinner
      exact .inl ⟨hw, hinner⟩
    | some w =>
      rw [hw] at hinner
      exact .inr ⟨w, hw, hinner⟩

/-- the map in memory after a step was held before, or has just been updated -/
theorem memory_step (h : Lives lib overflowChecks s l s') (hlook : ¬l.blind) {v : Threads ι} (hv : s' = .running v) :
    s.Held v.shared.inner ∨
      ∃ u w, s = .running u ∧ l.update = some w ∧ v.shared.inner = applyUpdate u.shared.inner w := by
  cases h with
  | opened hrun =>
    obtain rfl := StoreState.running.inj hv
    rcases open_cases hrun hlook with ⟨⟨e, he⟩, -⟩ | ⟨inner, he, hopened, -⟩
    · cases he
    · exact .inl (.inr (Except.ok.inj he ▸ hopened))
  | notOpened | killed | killedFlushing => cases hv
  | @turn u v' l hturn =>
    obtain rfl := StoreState.running.inj hv
    rcases turn_memory hturn with ⟨-, hsame⟩ | ⟨w, hw, he⟩
    · exact .inl (.inl ⟨u, rfl, hsame.symm⟩)
    · exact .inr ⟨u, w, rfl, hw, he⟩

/-- what holds of every map that is held is kept by a step that keeps it when it updates -/
theorem held_step {Q Q' : SecretMap → Prop} (h : Lives lib overflowChecks s l s') (hlook : ¬l.blind)
    (hsame : ∀ inner, Q inner → Q' inner) (hupdated : ∀ inner w, l.update = some w → Q inner → Q' (applyUpdate inner w))
    (hs : ∀ inner, s.Held inner → Q inner) {inner : SecretMap} (hheld : s'.Held inner) : Q' inner := by
  rcases hheld with ⟨v, hv, rfl⟩ | hfile
  · rcases memory_step h hlook hv with hheld | ⟨u, w, rfl, hw, he⟩
    · exact hsame _ (hs _ hheld)
    · rw [he]
      exact hupdated _ w hw (hs _ (.inl ⟨u, rfl, rfl⟩))
  · rcases file_step h hlook with hkept | ⟨inner', hheld, hencoded⟩
    · exact hsame _ (hs _ (.inr (by rwa [← hkept])))
    · rw [hencoded, opened_encoded] at hfile
      exact Option.some.inj hfile ▸ hsame _ (hs _ hheld)

/-- the file holds a whole map -/
def StoreState.Written (s : StoreState ι) : Prop := ∃ inner, s.file = some (.json (SecretMap.codec.encode inner))

theorem written_step (h : Lives lib overflowChecks s l s') (hlook : ¬l.blind) (hs : s.Written) : s'.Written := by
  rcases file_step h hlook with hsame | ⟨inner, -, hfile⟩
  · rwa [StoreState.Written, hsame]
  · exact ⟨inner, hfile⟩

/-! ## Updates and their calls -/

/-- under the locator `k` the map has what one of these steps has left there -/
def From (later : List (StoreLabel ι)) (k : String) (inner : SecretMap) : Prop :=
  ∃ w ∈ later.filterMap StoreLabel.update, w.1.locator = k ∧ inner[k]? = w.2

section
variable {later : List (StoreLabel ι)} {k : String} {inner : SecretMap}

omit [DecidableEq ι] in
theorem From.snoc (h : From later k inner) : From (later ++ [l]) k inner := by
  obtain ⟨w, hw, hk⟩ := h
  exact ⟨w, by simp [hw], hk⟩

omit [DecidableEq ι] in
theorem From.updated (h : From later k inner) {w : SecretRef × Option Secret} (hw : l.update = some w) :
    From (later ++ [l]) k (applyUpdate inner w) := by
  by_cases hk : w.1.locator = k
  · exact ⟨w, by simp [hw], hk, by rw [applyUpdate_get, if_pos hk]⟩
  · obtain ⟨w', hw', hk', he⟩ := h
    exact ⟨w', by simp [hw'], hk', by rw [applyUpdate_get, if_neg hk, he]⟩

theorem from_step (h : Lives lib overflowChecks s l s') (hlook : ¬l.blind)
    (hs : ∀ inner, s.Held inner → From later k inner) {inner : SecretMap} (hheld : s'.Held inner) :
    From (later ++ [l]) k inner :=
  held_step h hlook (fun _ => From.snoc) (fun _ _ hw hfrom => hfrom.updated hw) hs hheld

end

/-- a call of `i` made an update of `ref` in the first of the steps `later`, and has neither returned nor been killed -/
def Began (t : List (StoreLabel ι)) (i : ι) (ref : SecretRef) (later : List (StoreLabel ι)) : Prop :=
  ∃ before c e entry rest, t = before ++ later ∧ later = .turn (.event i c e) :: rest ∧ updateOf e = some (ref, entry) ∧
    ∀ l ∈ rest, (∀ c r, l ≠ .turn (.returns i c r)) ∧ ∀ trace, l ≠ .killed trace

omit [DecidableEq ι] in
theorem Began.snoc {t later : List (StoreLabel ι)} {i : ι} {ref : SecretRef} (h : Began t i ref later)
    {l : ThreadLabel ι} (hl : ∀ c r, l ≠ .returns i c r) : Began (t ++ [.turn l]) i ref (later ++ [.turn l]) := by
  obtain ⟨before, c, e, entry, rest, rfl, rfl, hentry, hrest⟩ := h
  refine ⟨before, c, e, entry, rest ++ [.turn l], by simp, by simp, hentry, fun l' hl' => ?_⟩
  rcases List.mem_append.1 hl' with hl' | hl'
  · exact hrest l' hl'
  · obtain rfl := List.mem_singleton.1 hl'
    exact ⟨fun c r he => hl c r (StoreLabel.turn.inj he), fun trace he => by cases he⟩

/-- what a call in a phase has done to the maps that are held -/
def Doing (t : List (StoreLabel ι)) (u : Threads ι) (i : ι) : Phase → Prop
  | .owing ref => ∃ later, Began t i ref later ∧ From later ref.locator u.shared.inner
  | .flushed ref => ∃ later, Began t i ref later ∧ StoreState.Written (.running u) ∧
      ∀ inner, StoreState.Held (.running u) inner → From later ref.locator inner
  | .reading | .updating _ | .broken _ => True

theorem Doing.other {t : List (StoreLabel ι)} {u v : Threads ι} {i : ι} {q : Phase} (h : Doing t u i q)
    {l : ThreadLabel ι} (hturn : Turn (programs method) (fun _ => SectionStep overflowChecks) u l v)
    (hl : ∀ c r, l ≠ .returns i c r) : Doing (t ++ [.turn l]) v i q := by
  have hstep : Lives .standard overflowChecks (.running u) (.turn l) (.running v) := .turn hturn
  cases q with
  | owing ref =>
    obtain ⟨later, hbegan, hfrom⟩ := h
    refine ⟨_, hbegan.snoc hl, ?_⟩
    rcases turn_memory hturn with ⟨-, hsame⟩ | ⟨w, hw, he⟩
    · rw [hsame]
      exact hfrom.snoc
    · rw [he]
      exact hfrom.updated hw
  | flushed ref =>
    obtain ⟨later, hbegan, hwritten, hfrom⟩ := h
    exact ⟨_, hbegan.snoc hl, written_step hstep id hwritten, fun inner hheld => from_step hstep id hfrom hheld⟩
  | reading | updating | broken => trivial

/-- every call under way is in a phase of its own, and has done what its phase says -/
def Going (t : List (StoreLabel ι)) (s : StoreState ι) : Prop :=
  ∀ u, s = .running u → ∀ i c x, u.parties i = some (c, x) →
    ∃ q, Follows Phase.does Phase.ends x q ∧ q.ref = updatedRef c ∧ Doing t u i q

theorem does_flushed {q : Phase} {ref : SecretRef} {e : Event SectionAnswer} (h : q.does e (.flushed ref)) :
    q = .owing ref ∧ ∃ trace, e = ⟨.flush, .ok ⟨trace, .ok ()⟩⟩ := by
  obtain ⟨op, answer⟩ := e
  cases Phase.does_moves h with
  | flushed hflush =>
    refine ⟨rfl, ?_⟩
    cases op with
    | flush =>
      rcases answer with message | ⟨trace, e | ⟨⟩⟩
      · cases h
      · cases h
      · exact ⟨trace, rfl⟩
    | get | put | remove | list => exact hflush.elim

/-- the event of a call moves its phase on -/
theorem Doing.event {t : List (StoreLabel ι)} {u v : Threads ι} {i : ι} {c : Call} {e : Event SectionAnswer}
    {q q' : Phase} (h : Doing t u i q) (hdoes : q.does e q')
    (hturn : Turn (programs method) (fun _ => SectionStep overflowChecks) u (.event i c e) v) :
    q'.ref = q.ref ∧ Doing (t ++ [.turn (.event i c e)]) v i q' := by
  cases Phase.does_moves hdoes with
  | looked => exact ⟨rfl, trivial⟩
  | unsaved => exact ⟨rfl, trivial⟩
  | stopped ofRef => exact ⟨ofRef.symm, trivial⟩
  | @updated ref entry e update =>
    refine ⟨rfl, [.turn (.event i c e)], ⟨t, c, e, entry, [], rfl, rfl, update, fun l hl => by cases hl⟩, ?_⟩
    rcases turn_memory hturn with ⟨hw, -⟩ | ⟨w, hw, he⟩
    · exact absurd (hw.symm.trans update) (by simp)
    · obtain rfl := Option.some.inj (hw.symm.trans update)
      have hmem : (ref, entry) ∈ [StoreLabel.turn (.event i c e)].filterMap StoreLabel.update :=
        List.mem_filterMap.2 ⟨_, List.mem_singleton_self _, hw⟩
      exact ⟨_, hmem, rfl, by rw [he, applyUpdate_get, if_pos rfl]⟩
  | @flushed ref =>
    obtain ⟨-, trace, rfl⟩ := does_flushed hdoes
    obtain ⟨later, hbegan, hfrom⟩ := h
    cases hturn with
    | @event _ _ x y _ after hin hdoes' hstep =>
      obtain ⟨hinner, hfile⟩ := section_flushed hstep
      refine ⟨rfl, _, hbegan.snoc (fun c r he => by cases he), ⟨_, hfile⟩, fun inner hheld => ?_⟩
      have hsame : inner = u.shared.inner := by
        rcases hheld with ⟨w, hw, rfl⟩ | hopened
        · obtain rfl := StoreState.running.inj hw
          exact hinner
        · exact (Option.some.inj ((opened_encoded _).symm.trans (hfile ▸ hopened))).symm
      rw [hsame]
      exact hfrom.snoc

theorem Going.step {t : List (StoreLabel ι)} (h : Going t s) (hstep : Lives lib overflowChecks s l s') :
    Going (t ++ [l]) s' := by
  intro v hv i c x hin
  cases hstep with
  | opened =>
    obtain rfl := StoreState.running.inj hv
    cases hin
  | notOpened | killed | killedFlushing => cases hv
  | @turn u v' l hturn =>
    obtain rfl := StoreState.running.inj hv
    have hother : ∀ j, (∀ c r, l ≠ .returns j c r) → u.parties j = some (c, x) →
        ∃ q, Follows Phase.does Phase.ends x q ∧ q.ref = updatedRef c ∧ Doing (t ++ [.turn l]) v' j q := by
      intro j hl hj
      obtain ⟨q, hfollows, href, hdoing⟩ := h u rfl j c x hj
      exact ⟨q, hfollows, href, hdoing.other hturn hl⟩
    cases hturn with
    | @invoke j c' hidle =>
      rcases eq_or_ne i j with rfl | hne
      · simp only [Function.update_self, Option.some.injEq, Prod.mk.injEq] at hin
        obtain ⟨rfl, rfl⟩ := hin
        refine ⟨_, method_follows c', ?_⟩
        cases c' with
        | get | list | put | delete => exact ⟨rfl, trivial⟩
      · exact hother i (fun c r he => by cases he) (by simpa [hne] using hin)
    | @event j c' x' y e later hj hdoes hstep =>
      rcases eq_or_ne i j with rfl | hne
      · simp only [Function.update_self, Option.some.injEq, Prod.mk.injEq] at hin
        obtain ⟨rfl, rfl⟩ := hin
        obtain ⟨next, rfl, rfl⟩ := hdoes
        obtain ⟨q, hfollows, href, hdoing⟩ := h u rfl i c' _ hj
        obtain ⟨q', hdoes, hrest⟩ := hfollows e.2
        obtain ⟨hq, hdoing'⟩ := hdoing.event hdoes (.event hj ⟨next, rfl, rfl⟩ hstep)
        exact ⟨q', hrest, hq.trans href, hdoing'⟩
      · exact hother i (fun c r he => by cases he) (by simpa [hne] using hin)
    | @returns j c' x' r hj hends =>
      rcases eq_or_ne i j with rfl | hne
      · simp at hin
      · exact hother i (fun c r he => hne (Label.returns.inj he).1.symm) (by simpa [hne] using hin)

/-- what a call made that returned `Ok`, or a later update, is under its locator in every map that is held -/
def Durable (t : List (StoreLabel ι)) (s : StoreState ι) : Prop :=
  ∀ before after i c value ref, t = before ++ .turn (.returns i c (.ok value)) :: after → updatedRef c = some ref →
    s.Written ∧ ∃ later, Began before i ref later ∧
      ∀ inner, s.Held inner → From (later ++ .turn (.returns i c (.ok value)) :: after) ref.locator inner

/-- a call that returns `Ok` is in every map that is held -/
theorem Going.returns {t : List (StoreLabel ι)} {u v : Threads ι} (h : Going t (.running u)) {i : ι} {c : Call}
    {value : Returned}
    (hturn : Turn (programs method) (fun _ => SectionStep overflowChecks) u (.returns i c (.ok value)) v)
    {ref : SecretRef} (href : updatedRef c = some ref) : StoreState.Written (.running v) ∧
      ∃ later, Began t i ref later ∧ ∀ inner, StoreState.Held (.running v) inner →
        From (later ++ [.turn (.returns i c (.ok value))]) ref.locator inner := by
  have hstep : Lives .standard overflowChecks (.running u) (.turn (.returns i c (.ok value))) (.running v) := .turn hturn
  cases hturn with
  | returns hin hends =>
    obtain rfl := hends
    obtain ⟨q, hfollows, hqref, hdoing⟩ := h u rfl i c _ hin
    rw [href] at hqref
    cases q with
    | reading => cases hqref
    | updating | broken =>
      obtain ⟨e, he⟩ := hfollows
      cases he
    | owing => exact hfollows.elim
    | flushed ref' =>
      obtain rfl := Option.some.inj hqref
      obtain ⟨later, hbegan, hwritten, hfrom⟩ := hdoing
      exact ⟨written_step hstep id hwritten, later, hbegan, fun inner hheld => from_step hstep id hfrom hheld⟩

theorem Durable.step {t : List (StoreLabel ι)} (h : Durable t s) (hgoing : Going t s)
    (hstep : Lives lib overflowChecks s l s') (hlook : ¬l.blind) : Durable (t ++ [l]) s' := by
  intro before after i c value ref ht href
  rcases List.eq_nil_or_concat after with rfl | ⟨rest, l', rfl⟩
  · obtain ⟨rfl, hl⟩ := List.append_inj' ht rfl
    obtain rfl := List.singleton_inj.1 hl
    cases hstep with
    | turn hturn => exact hgoing.returns hturn href
  · rw [List.concat_eq_append, ← List.cons_append, ← List.append_assoc] at ht
    obtain ⟨rfl, hl⟩ := List.append_inj' ht rfl
    obtain rfl := List.singleton_inj.1 hl
    obtain ⟨hwritten, later, hbegan, hfrom⟩ := h before rest i c value ref rfl href
    refine ⟨written_step hstep hlook hwritten, later, hbegan, fun inner hheld => ?_⟩
    rw [List.concat_eq_append, ← List.cons_append, ← List.append_assoc]
    exact from_step hstep hlook hfrom hheld

/-- under the locator `k` the map has what one of these steps has left there, or what the first file had -/
def Traced (first : Option Contents) (t : List (StoreLabel ι)) (k : String) (inner : SecretMap) : Prop :=
  From t k inner ∨ ∃ start, openedFrom first = some start ∧ inner[k]? = start[k]?

theorem traced_step {first : Option Contents} {t : List (StoreLabel ι)} {k : String}
    (h : Lives lib overflowChecks s l s') (hlook : ¬l.blind) (hs : ∀ inner, s.Held inner → Traced first t k inner)
    {inner : SecretMap} (hheld : s'.Held inner) : Traced first (t ++ [l]) k inner := by
  refine held_step h hlook (fun _ => Or.imp_left From.snoc) (fun inner w hw htraced => ?_) hs hheld
  rcases htraced with hfrom | ⟨start, hstart, hk⟩
  · exact .inl (hfrom.updated hw)
  · by_cases hloc : w.1.locator = k
    · exact .inl ⟨w, by simp [hw], hloc, by rw [applyUpdate_get, if_pos hloc]⟩
    · exact .inr ⟨start, hstart, by rw [applyUpdate_get, if_neg hloc, hk]⟩

/-- what holds of a store through all its lives -/
structure Lasting (first : Option Contents) (t : List (StoreLabel ι)) (s : StoreState ι) : Prop where
  going : Going t s
  whole : s.file = first ∨ s.Written
  durable : Durable t s
  traced : ∀ inner, s.Held inner → ∀ k, Traced first t k inner

omit [DecidableEq ι] in
theorem lasting_closed (disk : Disk) : Lasting disk.file [] (.closed disk : StoreState ι) := by
  refine ⟨fun u hu => ?_, .inl rfl, fun before after i c value ref ht => ?_, fun inner hheld k => .inr ?_⟩
  · cases hu
  · exact absurd ht.symm (by simp)
  · rcases hheld with ⟨u, hu, -⟩ | hopened
    · cases hu
    · exact ⟨inner, hopened, rfl⟩

theorem Lasting.step {first : Option Contents} {t : List (StoreLabel ι)} (h : Lasting first t s)
    (hstep : Lives lib overflowChecks s l s') (hlook : ¬l.blind) : Lasting first (t ++ [l]) s' where
  going := h.going.step hstep
  whole := by
    rcases file_step hstep hlook with hsame | ⟨inner, -, hnew⟩
    · exact h.whole.imp (hsame.trans ·) (written_step hstep hlook)
    · exact .inr ⟨inner, hnew⟩
  durable := h.durable.step h.going hstep hlook
  traced inner hheld k := traced_step hstep hlook (fun inner hheld => h.traced inner hheld k) hheld

/-- **Updates survive.** Through any lives of a store, whichever calls on the file fail and wherever its process is
killed, as long as no open failed to see whether there is a file: the file is the first one or holds a whole map; what a
call made that returned `Ok`, or a later update of its locator, is in memory and in every store that is opened afterwards;
and nothing is there that was neither in the first file nor put there by a call. -/
theorem updates_survive {disk : Disk} {t : List (StoreLabel ι)} (h : Runs (Lives lib overflowChecks) (.closed disk) t s)
    (hlook : ∀ l ∈ t, ¬l.blind) : (s.file = disk.file ∨ s.Written) ∧ Durable t s ∧
      ∀ inner, s.Held inner → ∀ k, Traced disk.file t k inner := by
  have hlasting : (∀ l ∈ t, ¬l.blind) → Lasting disk.file t s := by
    refine h.history (P := fun t s => (∀ l ∈ t, ¬l.blind) → Lasting disk.file t s) (fun _ => lasting_closed disk) ?_
    intro t s l s' _ ih hl hlook
    exact (ih fun l' hl' => hlook l' (List.mem_append_left _ hl')).step hl (hlook l (by simp))
  exact ⟨(hlasting hlook).whole, (hlasting hlook).durable, (hlasting hlook).traced⟩

end

/-! ## A killed flush -/

/-- opening a file that holds a map gives the map, and writes it again -/
theorem open_present (lib : Externals) {inner : SecretMap} {disk : Disk}
    (hfile : disk.file = some (.json (SecretMap.codec.encode inner))) :
    Run FileStep (open_ lib) disk
      ([⟨.metadata, .ok true⟩, ⟨.read, .ok (.json (SecretMap.codec.encode inner))⟩] ++ (flushTrace inner ++ []))
      (.ok inner) ⟨some (.json (SecretMap.codec.encode inner)), none⟩ := by
  have hload : Run FileStep (load lib) disk
      [⟨.metadata, .ok true⟩, ⟨.read, .ok (.json (SecretMap.codec.encode inner))⟩] (.ok inner) disk := by
    refine .call ⟨rfl, by rw [hfile]; rfl⟩ (.call ⟨rfl, hfile⟩ ?_)
    refine run_lift.2 ⟨rfl, ?_, rfl⟩
    simp only [fromSlice, SecretMap.codec.decode_encode]
  exact hload.bind ((flush_runs inner disk).bind .done)

def defaultStored : SecretMap := (∅ : SecretMap).insert "a/b" storedDefault

/-- a put that returns, another one that is killed in its flush, and the store opened again -/
def twoLives : List (StoreLabel Bool) :=
  [.opens (⟨.metadata, .ok false⟩ :: (flushTrace ∅ ++ [])) true,
    .turn (.invoke false putDefault), .turn (.event false putDefault ⟨.put ⟨inDefault, "v1", 1⟩, .ok storedDefault⟩),
    .turn (.event false putDefault ⟨.flush, .ok ⟨flushTrace defaultStored, .ok ()⟩⟩),
    .turn (.returns false putDefault (.ok (.secret storedDefault))),
    .turn (.invoke true putNamespaced),
    .turn (.event true putNamespaced ⟨.put ⟨inNamespace, "s3cr3t", 1⟩, .ok storedNamespaced⟩),
    .killed ((flushTrace bothStored).take 2),
    .opens ([⟨.metadata, .ok true⟩, ⟨.read, .ok (.json (SecretMap.codec.encode defaultStored))⟩] ++
      (flushTrace defaultStored ++ [])) true]

theorem twoLives_run : ∃ u : Threads Bool,
    Runs (Lives .standard true) (.closed ⟨none, none⟩) twoLives (.running u) ∧ u.shared.inner = defaultStored := by
  refine ⟨_, .cons (.opened (.call ⟨rfl, rfl⟩ ((flush_runs ∅ _).bind .done))) <| .cons (.turn (.invoke rfl)) <|
    .cons (.turn (.event rfl ⟨_, rfl, rfl⟩ ((section_sound rfl).2 ⟨rfl, rfl⟩))) <|
    .cons (.turn (.event rfl ⟨_, rfl, rfl⟩ ((section_sound rfl).2 ⟨_, _, rfl, rfl, flush_runs _ _⟩))) <|
    .cons (.turn (.returns rfl rfl)) <| .cons (.turn (.invoke rfl)) <|
    .cons (.turn (.event rfl ⟨_, rfl, rfl⟩ ((section_sound rfl).2 ⟨rfl, rfl⟩))) <|
    .cons (.killedFlushing (i := true) rfl rfl (.call ⟨rfl, rfl⟩ (.call rfl .stopped))) <|
    .cons (.opened (open_present .standard rfl)) .nil, rfl⟩

theorem twoLives_sighted : ∀ l ∈ twoLives, ¬l.blind := by
  have hsees : ∀ found rest, ¬Blind (⟨.metadata, .ok found⟩ :: rest) := by
    rintro found rest ⟨message, rest', he⟩
    cases he
  intro l hl
  simp only [twoLives, List.mem_cons, List.not_mem_nil, or_false] at hl
  rcases hl with rfl | rfl | rfl | rfl | rfl | rfl | rfl | rfl | rfl
  all_goals first | exact hsees _ _ | exact id

theorem updates_survive_example : ∃ u : Threads Bool,
    Runs (Lives .standard true) (.closed ⟨none, none⟩) twoLives (.running u) ∧ u.shared.inner = defaultStored ∧
      Durable twoLives (.running u) := by
  obtain ⟨u, hrun, hinner⟩ := twoLives_run
  exact ⟨u, hrun, hinner, (updates_survive hrun twoLives_sighted).2.1⟩

end PhenoCompose
