/-
Threads that share one file store: every section under the mutex is one turn, and nothing fails on the disk.

- `method_follows`: the phases of a call. One that has updated the map owes a flush, and returns `Ok` only after it.
- `inner_after`, `file_after`: the map is what the updates so far make of the first one, and the file what they made of it
  by the last flush.
- `store_durable`: the file always holds a map that was held; when no call is running it holds the present one; and a call
  that returns `Ok` is in it, as long as no other ref with the same locator is updated in between.
-/
import PhenoCompose.FileStoreResults
import PhenoCompose.Core.Interleave

namespace PhenoCompose

open Core.Collections Core.Interleave Core.Json Core.Process Core.Transition SecretStore FileSecretStore

/-! ## Threads -/

/-- a section during which no call of the disk fails -/
def SteadySection (overflowChecks : Bool) (s : Shared) (op : Section) (answer : SectionAnswer op) (s' : Shared) : Prop :=
  SectionStep overflowChecks s op answer s' ∧ ¬IoFailed ⟨op, answer⟩

abbrev Outcome := Except (Stop SecretStoreError) Returned

abbrev Threads (ι : Type) := Pool Shared ι Call (Method Returned)

abbrev ThreadLabel (ι : Type) := Label SectionAnswer ι Call Outcome

abbrev ThreadTurn {ι : Type} [DecidableEq ι] (overflowChecks : Bool) : Threads ι → ThreadLabel ι → Threads ι → Prop :=
  Turn (programs method) fun _ => SteadySection overflowChecks

/-! ## The phases of a call -/

/-- how far a call has come -/
inductive Phase where
  | reading
  | updating (ref : SecretRef)
  | owing (ref : SecretRef)
  | flushed (ref : SecretRef)
  | broken (ref : SecretRef)

def Phase.start : Call → Phase
  | .get _ | .list _ => .reading
  | .put secret => .updating secret.ref
  | .delete ref => .updating ref

def Phase.does : Phase → Event SectionAnswer → Phase → Prop
  | .reading, ⟨.get _, _⟩, q | .reading, ⟨.list _, _⟩, q => q = .reading
  | .updating ref, ⟨.put secret, .ok _⟩, q => secret.ref = ref ∧ q = .owing ref
  | .updating ref, ⟨.remove ref', .ok _⟩, q => ref' = ref ∧ q = .owing ref
  | .updating ref, ⟨.put _, .error _⟩, q | .updating ref, ⟨.remove _, .error _⟩, q => q = .broken ref
  | .owing ref, ⟨.flush, .ok ⟨_, .ok _⟩⟩, q => q = .flushed ref
  | .owing ref, ⟨.flush, _⟩, q => q = .broken ref
  | _, _, _ => False

def Phase.ends {α : Type} : Phase → Except (Stop SecretStoreError) α → Prop
  | .reading, _ | .flushed _, _ => True
  | .updating _, r | .broken _, r => ∃ e, r = .error e
  | .owing _, _ => False

def phases : Behaviour SectionAnswer Call Outcome Phase := ⟨Phase.start, Phase.does, Phase.ends⟩

theorem Phase.ends_error {α β : Type} {q : Phase} {e : Stop SecretStoreError}
    (h : q.ends (.error e : Except (Stop SecretStoreError) α)) : q.ends (.error e : Except (Stop SecretStoreError) β) := by
  cases q with
  | reading | flushed => trivial
  | updating | broken => exact ⟨e, rfl⟩
  | owing => exact h.elim

theorem Phase.ends_ok {α β : Type} {q : Phase} {a : α} (b : β)
    (h : q.ends (.ok a : Except (Stop SecretStoreError) α)) : q.ends (.ok b : Except (Stop SecretStoreError) β) := by
  cases q with
  | reading | flushed => trivial
  | updating | broken =>
    obtain ⟨e, he⟩ := h
    cases he
  | owing => exact h.elim

/-- what a phase allows of a value it allows of what is made of it -/
theorem follows_pure {α β : Type} {x : Method α} {q : Phase} (f : α → β) (h : Follows Phase.does Phase.ends x q) :
    Follows Phase.does Phase.ends (do let a ← x; pure (f a)) q :=
  h.bind (fun _ a hq => Phase.ends_ok (f a) hq) fun _ _ hq => Phase.ends_error hq

/-- the phase after a flush and its result -/
def Phase.afterFlush (ref : SecretRef) : Except (Stop SecretStoreError) Flushed → Phase
  | .ok ⟨_, .ok _⟩ => .flushed ref
  | _ => .broken ref

theorem flush_follows (ref : SecretRef) : Follows Phase.does Phase.ends flushOrFail (.owing ref) := by
  refine Follows.bind (E := fun q r => q = Phase.afterFlush ref r) (Follows.callOr ?_) ?_ ?_
  · intro a
    rcases a with message | ⟨trace, e | ⟨⟩⟩
    · exact ⟨_, rfl, rfl⟩
    · exact ⟨_, rfl, rfl⟩
    · exact ⟨_, rfl, rfl⟩
  · intro q flushed hq
    rcases flushed with ⟨trace, e | ⟨⟩⟩
    · rw [show q = .broken ref from hq]
      exact Follows.fail ⟨_, rfl⟩
    · rw [show q = .flushed ref from hq]
      exact Follows.pure trivial
  · intro q e hq
    rw [show q = .broken ref from hq]
    exact ⟨e, rfl⟩

theorem get_follows (ref : SecretRef) : Follows Phase.does Phase.ends (get ref) .reading := by
  refine Follows.lift_bind (fun _ _ => ?_) fun e _ => trivial
  refine Follows.bind (E := fun q _ => q = .reading) (Follows.callOr fun a => ⟨.reading, rfl, rfl⟩) ?_ ?_
  · intro q entry hq
    rw [show q = .reading from hq]
    cases entry with
    | some secret => exact Follows.pure trivial
    | none => exact Follows.fail trivial
  · intro q e hq
    rw [show q = .reading from hq]
    trivial

theorem put_follows (secret : Secret) : Follows Phase.does Phase.ends (put secret) (.updating secret.ref) := by
  refine Follows.lift_bind (fun _ _ => ?_) fun e _ => ⟨e, rfl⟩
  refine Follows.bind (E := fun q r => match r with
    | .ok _ => q = .owing secret.ref
    | .error _ => q = .broken secret.ref) (Follows.callOr ?_) ?_ ?_
  · intro a
    cases a with
    | ok stored => exact ⟨_, ⟨rfl, rfl⟩, rfl⟩
    | error message => exact ⟨_, rfl, rfl⟩
  · intro q stored hq
    rw [show q = .owing secret.ref from hq]
    exact follows_pure (fun _ => stored) (flush_follows secret.ref)
  · intro q e hq
    rw [show q = .broken secret.ref from hq]
    exact ⟨e, rfl⟩

theorem delete_follows (ref : SecretRef) : Follows Phase.does Phase.ends (delete ref) (.updating ref) := by
  refine Follows.lift_bind (fun _ _ => ?_) fun e _ => ⟨e, rfl⟩
  refine Follows.bind (E := fun q r => match r with
    | .ok _ => q = .owing ref
    | .error _ => q = .broken ref) (Follows.callOr ?_) ?_ ?_
  · intro a
    cases a with
    | ok => exact ⟨_, ⟨rfl, rfl⟩, rfl⟩
    | error message => exact ⟨_, rfl, rfl⟩
  · intro q _ hq
    rw [show q = .owing ref from hq]
    exact flush_follows ref
  · intro q e hq
    rw [show q = .broken ref from hq]
    exact ⟨e, rfl⟩

theorem list_follows (namespace_ : String) : Follows Phase.does Phase.ends (list namespace_) .reading :=
  Follows.callOr fun _ => ⟨.reading, rfl, trivial⟩

/-- a call keeps to its phases: it updates once, then it flushes, and only then it returns `Ok` -/
theorem method_follows (c : Call) : Follows Phase.does Phase.ends (method c) (Phase.start c) := by
  cases c with
  | get ref => exact follows_pure _ (get_follows ref)
  | put secret => exact follows_pure _ (put_follows secret)
  | delete ref => exact follows_pure _ (delete_follows ref)
  | list namespace_ => exact follows_pure _ (list_follows namespace_)

/-! ## What the map and the file are -/

section
variable {ι : Type}

/-- the entry that a section put under the locator of a ref, or took away there -/
def updateOf : Event SectionAnswer → Option (SecretRef × Option Secret)
  | ⟨.put secret, .ok stored⟩ => some (secret.ref, some stored)
  | ⟨.remove ref, .ok _⟩ => some (ref, none)
  | _ => none

def updated (l : ThreadLabel ι) : Option (SecretRef × Option Secret) :=
  match l with
  | .event _ _ e => updateOf e
  | _ => none

def applyUpdate (inner : SecretMap) (u : SecretRef × Option Secret) : SecretMap :=
  match u.2 with
  | some stored => inner.insert u.1.locator stored
  | none => inner.erase u.1.locator

/-- the map that the updates among these turns make of another -/
def after (inner : SecretMap) (t : List (ThreadLabel ι)) : SecretMap := (t.filterMap updated).foldl applyUpdate inner

theorem after_append (inner : SecretMap) (t₁ t₂ : List (ThreadLabel ι)) :
    after inner (t₁ ++ t₂) = after (after inner t₁) t₂ := by
  rw [after, List.filterMap_append, List.foldl_append]
  rfl

theorem applyUpdate_get (inner : SecretMap) (u : SecretRef × Option Secret) (k : String) :
    (applyUpdate inner u)[k]? = if u.1.locator = k then u.2 else inner[k]? := by
  obtain ⟨ref, entry⟩ := u
  cases entry with
  | some stored => exact get_insert _ _ _ _
  | none => exact get_erase _ _ _

/-- under a locator that has been updated there is what the last update there left -/
theorem after_last (inner : SecretMap) {k : String} (us : List (SecretRef × Option Secret))
    (hup : ∃ u ∈ us, u.1.locator = k) : ∃ u ∈ us, u.1.locator = k ∧ (us.foldl applyUpdate inner)[k]? = u.2 := by
  induction us using List.reverseRecOn with
  | nil =>
    obtain ⟨u, hu, -⟩ := hup
    cases hu
  | append_singleton us u ih =>
    rw [List.foldl_append, List.foldl_cons, List.foldl_nil, applyUpdate_get]
    by_cases hk : u.1.locator = k
    · exact ⟨u, by simp, hk, if_pos hk⟩
    · obtain ⟨w, hw, hwk⟩ := hup
      have hmem : w ∈ us := by
        rcases List.mem_append.1 hw with hw | hw
        · exact hw
        · exact absurd (List.mem_singleton.1 hw ▸ hwk) hk
      obtain ⟨u', hu', hk', he⟩ := ih ⟨w, hmem, hwk⟩
      exact ⟨u', List.mem_append_left _ hu', hk', by rw [if_neg hk, he]⟩

/-- a flush that wrote the file -/
def Flushes : Event SectionAnswer → Prop
  | ⟨.flush, .ok _⟩ => True
  | _ => False

section
variable {overflowChecks : Bool} {s s' : Shared} {op : Section} {answer : SectionAnswer op}

theorem steady_inner (h : SteadySection overflowChecks s op answer s') :
    s'.inner = ((updateOf ⟨op, answer⟩).toList).foldl applyUpdate s.inner := by
  obtain ⟨h, -⟩ := h
  by_cases hs : s.poisoned = true
  · obtain ⟨rfl, message, rfl⟩ := section_poisoned hs h
    simp [updateOf]
  rw [Bool.not_eq_true] at hs
  cases op with
  | get ref =>
    obtain ⟨rfl, rfl⟩ := (section_sound hs).1 h
    rfl
  | list namespace_ =>
    obtain ⟨rfl, rfl⟩ := (section_sound hs).1 h
    rfl
  | remove ref =>
    obtain ⟨rfl, rfl⟩ := (section_sound hs).1 h
    rfl
  | put secret =>
    rcases putSection_step hs h with ⟨result, inner, hput, rfl, rfl⟩ | ⟨message, -, rfl, rfl⟩
    · obtain ⟨-, rfl, rfl⟩ := putSection_ok.1 hput
      rfl
    · rfl
  | flush =>
    obtain ⟨flushed, disk, rfl, rfl, -⟩ := (section_sound hs).1 h
    rfl

/-- a section that gives no value leaves the mutex poisoned -/
theorem steady_error {message : String} (h : SteadySection overflowChecks s op (.error message) s') :
    s'.poisoned = true := by
  obtain ⟨h, -⟩ := h
  by_cases hs : s.poisoned = true
  · rw [(section_poisoned hs h).1]
    exact hs
  rw [Bool.not_eq_true] at hs
  cases op with
  | get | list | remove => cases ((section_sound hs).1 h).2
  | put secret =>
    rcases putSection_step hs h with ⟨result, inner, -, he, -⟩ | ⟨message, -, -, rfl⟩
    · cases he
    · rfl
  | flush =>
    obtain ⟨flushed, disk, -, he, -⟩ := (section_sound hs).1 h
    cases he

theorem steady_sound (h : SteadySection overflowChecks s op answer s') (hs' : s'.poisoned = false) :
    s.poisoned = false := by
  by_contra hs
  rw [Bool.not_eq_false] at hs
  rw [(section_poisoned hs h.1).1, hs] at hs'
  cases hs'

/-- a flush writes the map, and no other section touches the disk -/
theorem steady_disk (h : SteadySection overflowChecks s op answer s') :
    (Flushes ⟨op, answer⟩ ∧ s'.disk.file = some (.json (SecretMap.codec.encode s.inner))) ∨
      (¬Flushes ⟨op, answer⟩ ∧ s'.disk = s.disk) := by
  obtain ⟨h, hclean⟩ := h
  by_cases hs : s.poisoned = true
  · obtain ⟨rfl, message, rfl⟩ := section_poisoned hs h
    exact .inr ⟨by simp [Flushes], rfl⟩
  rw [Bool.not_eq_true] at hs
  cases op with
  | get | list | remove =>
    obtain ⟨rfl, rfl⟩ := (section_sound hs).1 h
    exact .inr ⟨id, rfl⟩
  | put secret =>
    rcases putSection_step hs h with ⟨result, inner, -, rfl, rfl⟩ | ⟨message, -, rfl, rfl⟩
    · exact .inr ⟨id, rfl⟩
    · exact .inr ⟨id, rfl⟩
  | flush =>
    obtain ⟨flushed, disk, rfl, rfl, hrun⟩ := (section_sound hs).1 h
    rcases flush_attempts _ _ _ _ _ hrun with ⟨-, -, hfile, -⟩ | ⟨-, -, hfailed⟩
    · exact .inl ⟨trivial, hfile⟩
    · exact absurd hfailed hclean

/-- after a flush the file is the map: a flush updates nothing -/
theorem steady_flushed (h : SteadySection overflowChecks s op answer s') (hflush : Flushes ⟨op, answer⟩) :
    s'.disk.file = some (.json (SecretMap.codec.encode s'.inner)) := by
  have hinner := steady_inner h
  rcases steady_disk h with ⟨-, hfile⟩ | ⟨hnot, -⟩
  · cases op with
    | flush =>
      rw [hfile, hinner]
      rfl
    | get | put | remove | list => exact hflush.elim
  · exact absurd hflush hnot

end

variable [DecidableEq ι] {P : Type} {b : Behaviour SectionAnswer Call Outcome P} {overflowChecks : Bool} {s : Shared}
  {u v : Pool Shared ι Call P} {t : List (ThreadLabel ι)} {l : ThreadLabel ι}

/-- a turn that wrote the file -/
def FlushTurn : ThreadLabel ι → Prop
  | .event _ _ e => Flushes e
  | _ => False

omit [DecidableEq ι] in
/-- a flush updates nothing -/
theorem afterFlush (inner : SecretMap) (h : FlushTurn l) : after inner [l] = inner := by
  cases l with
  | invoke | returns => rfl
  | event i c e =>
    obtain ⟨op, answer⟩ := e
    cases op with
    | flush => rfl
    | get | put | remove | list => exact h.elim

theorem turn_inner (h : Turn b (fun _ => SteadySection overflowChecks) u l v) :
    v.shared.inner = after u.shared.inner [l] := by
  cases h with
  | invoke | returns => rfl
  | @event i c x y e s hin hdoes hstep =>
    rw [after, List.filterMap_cons, List.filterMap_nil]
    have he := steady_inner hstep
    cases hu : updateOf e with
    | none =>
      rw [hu] at he
      simpa [updated, hu] using he
    | some w =>
      rw [hu] at he
      simpa [updated, hu] using he

/-- the map is what the updates so far have made of the first one -/
theorem inner_after (h : Runs (Turn b fun _ => SteadySection overflowChecks) (.quiet s) t u) :
    u.shared.inner = after s.inner t := by
  refine h.history (P := fun t (u : Pool Shared ι Call P) => u.shared.inner = after s.inner t) rfl ?_
  intro t u l v _ hu hl
  rw [turn_inner hl, hu, after_append]

theorem turn_file (h : Turn b (fun _ => SteadySection overflowChecks) u l v) :
    (FlushTurn l ∧ v.shared.disk.file = some (.json (SecretMap.codec.encode u.shared.inner))) ∨
      (¬FlushTurn l ∧ v.shared.disk.file = u.shared.disk.file) := by
  cases h with
  | invoke | returns => exact .inr ⟨id, rfl⟩
  | event hin hdoes hstep =>
    rcases steady_disk hstep with ⟨hflush, hfile⟩ | ⟨hflush, hdisk⟩
    · exact .inl ⟨hflush, hfile⟩
    · exact .inr ⟨hflush, by rw [hdisk]⟩

/-- the file holds what the updates up to the last flush have made of the first map -/
theorem file_after (hfile : s.disk.file = some (.json (SecretMap.codec.encode s.inner)))
    (h : Runs (Turn b fun _ => SteadySection overflowChecks) (.quiet s) t u) :
    ∃ flushed rest, t = flushed ++ rest ∧ (∀ l ∈ rest, ¬FlushTurn l) ∧
      u.shared.disk.file = some (.json (SecretMap.codec.encode (after s.inner flushed))) := by
  refine h.history (P := fun t (u : Pool Shared ι Call P) => ∃ flushed rest, t = flushed ++ rest ∧
    (∀ l ∈ rest, ¬FlushTurn l) ∧
      u.shared.disk.file = some (.json (SecretMap.codec.encode (after s.inner flushed)))) ?_ ?_
  · exact ⟨[], [], rfl, nofun, hfile⟩
  · intro t u l v ht hu hl
    obtain ⟨flushed, rest, rfl, hrest, hu⟩ := hu
    rcases turn_file hl with ⟨hflush, hv⟩ | ⟨hflush, hv⟩
    · refine ⟨(flushed ++ rest) ++ [l], [], by simp, nofun, ?_⟩
      rw [hv, inner_after ht, after_append _ (flushed ++ rest), afterFlush _ hflush]
    · refine ⟨flushed, rest ++ [l], by rw [List.append_assoc], ?_, hv.trans hu⟩
      intro l' hl'
      rcases List.mem_append.1 hl' with hl' | hl'
      · exact hrest l' hl'
      · rw [List.mem_singleton.1 hl']
        exact hflush

end

/-! ## Calls in flight -/

section
variable {ι : Type} [DecidableEq ι] {overflowChecks : Bool} {s : Shared} {u v : Pool Shared ι Call Phase}
  {t : List (ThreadLabel ι)} {l : ThreadLabel ι}

/-- the map is in the file, or a call still owes a flush -/
def Settles (v : Pool Shared ι Call Phase) : Prop :=
  v.shared.poisoned = false → v.shared.disk.file = some (.json (SecretMap.codec.encode v.shared.inner)) ∨
    ∃ i c ref, v.parties i = some (c, .owing ref)

/-- a party that owed nothing moves, and leaves the map and the file as they were -/
theorem Settles.keep (h : Settles u) {i : ι} {x : Option (Call × Phase)} {s' : Shared}
    (hnot : ∀ c ref, u.parties i ≠ some (c, .owing ref)) (hinner : s'.inner = u.shared.inner)
    (hfile : s'.disk.file = u.shared.disk.file) (hsound : s'.poisoned = false → u.shared.poisoned = false) :
    Settles ⟨s', Function.update u.parties i x⟩ := by
  intro hs'
  rw [hinner, hfile]
  refine (h (hsound hs')).imp_right ?_
  intro howing
  obtain ⟨j, c, ref, hj⟩ := howing
  have hne : j ≠ i := fun e => hnot c ref (e ▸ hj)
  exact ⟨j, c, ref, (Function.update_of_ne hne _ _).trans hj⟩

def Phase.ref : Phase → Option SecretRef
  | .reading => none
  | .updating ref | .owing ref | .flushed ref | .broken ref => some ref

/-- all that a call in flight does in one event -/
inductive Phase.Moves : Phase → Event SectionAnswer → Phase → Prop where
  | looked {e : Event SectionAnswer} (read : updateOf e = none) (unflushed : ¬Flushes e) : Moves .reading e .reading
  | updated {ref : SecretRef} {entry : Option Secret} {e : Event SectionAnswer}
      (update : updateOf e = some (ref, entry)) : Moves (.updating ref) e (.owing ref)
  | flushed {ref : SecretRef} {e : Event SectionAnswer} (flush : Flushes e) : Moves (.owing ref) e (.flushed ref)
  | unsaved {ref : SecretRef} {e : Event SectionAnswer} (flush : Flushes e) : Moves (.owing ref) e (.broken ref)
  | stopped {q : Phase} {ref : SecretRef} {op : Section} {message : String} (ofRef : q.ref = some ref) :
      Moves q ⟨op, .error message⟩ (.broken ref)

theorem Phase.does_moves {q q' : Phase} {e : Event SectionAnswer} (h : q.does e q') : q.Moves e q' := by
  obtain ⟨op, answer⟩ := e
  cases q with
  | reading =>
    cases op with
    | get | list =>
      rw [show q' = .reading from h]
      exact .looked rfl id
    | put | remove | flush => exact h.elim
  | updating ref =>
    cases op with
    | put secret =>
      cases answer with
      | ok stored =>
        obtain ⟨rfl, rfl⟩ := h
        exact .updated rfl
      | error message =>
        rw [show q' = .broken ref from h]
        exact .stopped rfl
    | remove ref' =>
      cases answer with
      | ok =>
        obtain ⟨rfl, rfl⟩ := h
        exact .updated rfl
      | error message =>
        rw [show q' = .broken ref from h]
        exact .stopped rfl
    | get | list | flush => exact h.elim
  | owing ref =>
    cases op with
    | flush =>
      rcases answer with message | ⟨trace, e | ⟨⟩⟩
      · rw [show q' = .broken ref from h]
        exact .stopped rfl
      · rw [show q' = .broken ref from h]
        exact .unsaved trivial
      · rw [show q' = .flushed ref from h]
        exact .flushed trivial
    | get | put | remove | list => exact h.elim
  | flushed ref => exact h.elim
  | broken ref => exact h.elim

theorem Settles.turn (h : Settles u) (hl : Turn phases (fun _ => SteadySection overflowChecks) u l v) :
    Settles v := by
  cases hl with
  | invoke hidle =>
    refine h.keep ?_ rfl rfl id
    intro c ref hin
    rw [hidle] at hin
    cases hin
  | returns hin hends =>
    refine h.keep ?_ rfl rfl id
    intro c ref howing
    rw [hin] at howing
    cases howing
    exact hends
  | @event i c x y e s' hin hdoes hstep =>
    have hinner := steady_inner hstep
    cases Phase.does_moves hdoes with
    | looked read unflushed =>
      have hnot : ∀ c' ref, u.parties i ≠ some (c', .owing ref) := by
        intro c' ref howing
        rw [hin] at howing
        cases howing
      rcases steady_disk hstep with ⟨hflush, -⟩ | ⟨-, hdisk⟩
      · exact absurd hflush unflushed
      · rw [read] at hinner
        exact h.keep hnot hinner (by rw [hdisk]) (steady_sound hstep)
    | @updated ref entry _ update =>
      -- from here on the call owes a flush
      intro _
      exact .inr ⟨i, c, ref, Function.update_self _ _ _⟩
    | flushed flush => exact fun _ => .inl (steady_flushed hstep flush)
    | unsaved flush => exact fun _ => .inl (steady_flushed hstep flush)
    | stopped ofRef =>
      intro hsound
      rw [steady_error hstep] at hsound
      cases hsound

/-- the ref that a call updates -/
def updatedRef : Call → Option SecretRef
  | .put secret => some secret.ref
  | .delete ref => some ref
  | .get _ | .list _ => none

/-- a call of `i` has updated `ref`, and has not returned in the turns `rest` since -/
def Made (t : List (ThreadLabel ι)) (i : ι) (ref : SecretRef) (rest : List (ThreadLabel ι)) : Prop :=
  ∃ t₁ c e entry, t = t₁ ++ .event i c e :: rest ∧ updateOf e = some (ref, entry) ∧ ∀ c r, .returns i c r ∉ rest

/-- what a call in flight has done by now -/
def InFlight (t : List (ThreadLabel ι)) (i : ι) : Phase → Prop
  | .owing ref => ∃ rest, Made t i ref rest
  | .flushed ref => ∃ rest, Made t i ref rest ∧ ∃ l ∈ rest, FlushTurn l
  | _ => True

omit [DecidableEq ι] in
theorem Made.snoc {i : ι} {ref : SecretRef} {rest : List (ThreadLabel ι)} (h : Made t i ref rest)
    (hl : ∀ c r, l ≠ .returns i c r) : Made (t ++ [l]) i ref (rest ++ [l]) := by
  obtain ⟨t₁, c, e, entry, rfl, hu, hrest⟩ := h
  refine ⟨t₁, c, e, entry, by simp, hu, ?_⟩
  intro c' r hr
  rcases List.mem_append.1 hr with hr | hr
  · exact hrest c' r hr
  · exact hl c' r (List.mem_singleton.1 hr).symm

omit [DecidableEq ι] in
theorem InFlight.snoc {i : ι} {q : Phase} (h : InFlight t i q) (hl : ∀ c r, l ≠ .returns i c r) :
    InFlight (t ++ [l]) i q := by
  cases q with
  | owing ref =>
    obtain ⟨rest, hmade⟩ := h
    exact ⟨_, hmade.snoc hl⟩
  | flushed ref =>
    obtain ⟨rest, hmade, l', hl', hflush⟩ := h
    exact ⟨_, hmade.snoc hl, l', List.mem_append_left _ hl', hflush⟩
  | reading | updating | broken => trivial

/-- the phase of every call in flight is one of its own, and it has done what its phase says -/
def Phased (t : List (ThreadLabel ι)) (v : Pool Shared ι Call Phase) : Prop :=
  ∀ i c q, v.parties i = some (c, q) → q.ref = updatedRef c ∧ InFlight t i q

/-- the party that moves is in a phase of its call, and the others have done what they had -/
theorem Phased.move (h : Phased t u) {i : ι} {x : Option (Call × Phase)} {s' : Shared}
    (hl : ∀ j, j ≠ i → ∀ c r, l ≠ .returns j c r)
    (hx : ∀ c q, x = some (c, q) → q.ref = updatedRef c ∧ InFlight (t ++ [l]) i q) :
    Phased (t ++ [l]) ⟨s', Function.update u.parties i x⟩ := by
  intro j c q hj
  have hj : Function.update u.parties i x j = some (c, q) := hj
  rcases eq_or_ne j i with rfl | hne
  · rw [Function.update_self] at hj
    exact hx c q hj
  · rw [Function.update_of_ne hne] at hj
    obtain ⟨href, hin⟩ := h j c q hj
    exact ⟨href, hin.snoc (hl j hne)⟩

theorem Phased.turn (h : Phased t u) (hl : Turn phases (fun _ => SteadySection overflowChecks) u l v) :
    Phased (t ++ [l]) v := by
  cases hl with
  | @invoke i c hidle =>
    refine h.move (fun _ _ _ _ => nofun) ?_
    intro c' q he
    cases he
    cases c with
    | get | list | put | delete => exact ⟨rfl, trivial⟩
  | @returns i c x r hin hends =>
    refine h.move ?_ nofun
    intro j hne c' r' he
    cases he
    exact hne rfl
  | @event i c x y e s' hin hdoes hstep =>
    refine h.move (fun _ _ _ _ => nofun) ?_
    intro c' q he
    cases he
    obtain ⟨href, hbefore⟩ := h i c x hin
    rw [← href]
    cases Phase.does_moves hdoes with
    | looked => exact ⟨rfl, trivial⟩
    | updated update => exact ⟨rfl, [], t, c, _, _, rfl, update, nofun⟩
    | flushed flush =>
      obtain ⟨rest, hmade⟩ := hbefore
      exact ⟨rfl, _, hmade.snoc nofun, _, List.mem_append_right _ (List.mem_singleton_self _), flush⟩
    | unsaved => exact ⟨rfl, trivial⟩
    | stopped ofRef => exact ⟨ofRef.symm, trivial⟩

theorem phased (h : Runs (Turn phases fun _ => SteadySection overflowChecks) (.quiet s) t v) : Phased t v := by
  refine h.history (P := Phased) nofun ?_
  intro t u l v _ hu hl
  exact hu.turn hl

/-! ## What threads may rely on -/

/-- the file holds what these turns have left under the locator of `ref`, by updates of `ref` itself -/
def Reflects (file : Option Contents) (turns : List (ThreadLabel ι)) (ref : SecretRef) : Prop :=
  ∃ inner, file = some (.json (SecretMap.codec.encode inner)) ∧
    ∃ l ∈ turns, ∃ entry, updated l = some (ref, entry) ∧ inner[ref.locator]? = entry

/-- a call that returns `Ok` from here is in the file, or a later update of its ref is -/
def Acknowledges (overflowChecks : Bool) (t : List (ThreadLabel ι)) (u : Threads ι) : Prop :=
  ∀ i c value w ref, ThreadTurn overflowChecks u (.returns i c (.ok value)) w → updatedRef c = some ref →
    ∃ t₁ c' e entry rest, t = t₁ ++ .event i c' e :: rest ∧ updateOf e = some (ref, entry) ∧
      (∀ c r, .returns i c r ∉ rest) ∧ Reflects u.shared.disk.file (.event i c' e :: rest) ref

/-- between an update and the return of its call, no other ref with the same locator is updated -/
def Apart (t : List (ThreadLabel ι)) : Prop :=
  ∀ t₁ i c e ref entry rest t₂, t = t₁ ++ .event i c e :: rest ++ t₂ → updateOf e = some (ref, entry) →
    (∀ c r, .returns i c r ∉ rest) → ∀ l ∈ rest, ∀ ref' entry', updated l = some (ref', entry') →
      ref'.locator = ref.locator → ref' = ref

theorem Opens.written {lib : Externals} {disk : Disk} (h : Opens lib disk s) :
    s.disk.file = some (.json (SecretMap.codec.encode s.inner)) := by
  obtain ⟨⟨t, hrun, hclean⟩, -⟩ := h
  exact (open_steady hrun hclean).2.2

section
variable {u : Threads ι}

/-- the file holds a map that the store held at some point of the run -/
theorem holds_held (hfile : s.disk.file = some (.json (SecretMap.codec.encode s.inner)))
    (h : Runs (ThreadTurn overflowChecks) (.quiet s) t u) :
    ∃ t₁ t₂ held, t = t₁ ++ t₂ ∧ Runs (ThreadTurn overflowChecks) (.quiet s) t₁ held ∧
      Runs (ThreadTurn overflowChecks) held t₂ u ∧
      u.shared.disk.file = some (.json (SecretMap.codec.encode held.shared.inner)) := by
  obtain ⟨flushed, rest, rfl, -, hu⟩ := file_after hfile h
  obtain ⟨held, hheld, hrest⟩ := runs_append.1 h
  exact ⟨flushed, rest, held, rfl, hheld, hrest, by rw [hu, inner_after hheld]⟩

omit [DecidableEq ι] in
/-- where a flush came after an update, the turns up to the last flush take the update in -/
theorem flushed_prefix {t₁ rest flushed tail : List (ThreadLabel ι)} {m : ThreadLabel ι}
    (ht : t₁ ++ m :: rest = flushed ++ tail) (htail : ∀ l ∈ tail, ¬FlushTurn l) (hflush : ∃ l ∈ rest, FlushTurn l) :
    ∃ rest', flushed = t₁ ++ m :: rest' ∧ rest = rest' ++ tail := by
  obtain ⟨f, hf, hflush⟩ := hflush
  rcases List.append_eq_append_iff.1 ht with ⟨x, rfl, hx⟩ | ⟨x, rfl, hx⟩
  · cases x with
    | nil =>
      rw [List.nil_append] at hx
      exact absurd hflush (htail f (hx ▸ List.mem_cons_of_mem _ hf))
    | cons m' x =>
      rw [List.cons_append, List.cons.injEq] at hx
      obtain ⟨rfl, rfl⟩ := hx
      exact ⟨x, rfl, rfl⟩
  · exact absurd hflush (htail f (hx ▸ List.mem_append_right _ (List.mem_cons_of_mem _ hf)))

theorem acknowledges (hfile : s.disk.file = some (.json (SecretMap.codec.encode s.inner)))
    (h : Runs (ThreadTurn overflowChecks) (.quiet s) t u) (hapart : Apart t) : Acknowledges overflowChecks t u := by
  intro i c value w ref hreturns href
  obtain ⟨v, hv, habstracts⟩ := runs_follow (b := phases) method_follows h
  cases hreturns with
  | @returns _ _ x _ hin hends =>
    obtain rfl := hends
    obtain ⟨q, hq, hfollows⟩ := habstracts.follows i c _ hin
    obtain ⟨hqref, hflight⟩ := phased hv i c q hq
    rw [href] at hqref
    cases q with
    | reading => cases hqref
    | updating | broken =>
      obtain ⟨e, he⟩ := hfollows
      cases he
    | owing => exact hfollows.elim
    | flushed ref' =>
      obtain rfl := Option.some.inj hqref
      obtain ⟨rest, ⟨t₁, c', e, entry, ht, hupdate, hrest⟩, hflush⟩ := hflight
      refine ⟨t₁, c', e, entry, rest, ht, hupdate, hrest, ?_⟩
      obtain ⟨flushed, tail, ht', htail, hu⟩ := file_after hfile h
      obtain ⟨rest', rfl, rfl⟩ := flushed_prefix (ht.symm.trans ht') htail hflush
      refine ⟨_, hu, ?_⟩
      have hown : (ref', entry) ∈ (Label.event i c' e :: rest').filterMap updated :=
        List.mem_filterMap.2 ⟨_, List.mem_cons_self, hupdate⟩
      obtain ⟨⟨ref, entry'⟩, hmem, hkey, hentry⟩ := after_last (after s.inner t₁) _ ⟨_, hown, rfl⟩
      obtain ⟨l, hl, hul⟩ := List.mem_filterMap.1 hmem
      have hsame : ref = ref' := by
        rcases List.mem_cons.1 hl with rfl | hl
        · rw [updated, hupdate] at hul
          cases hul
          rfl
        · exact hapart t₁ i c' e ref' entry (rest' ++ tail) [] (by rw [ht, List.append_nil]) hupdate hrest l
            (List.mem_append_left _ hl) ref entry' hul hkey
      obtain rfl := hsame
      refine ⟨l, ?_, entry', hul, by rw [after_append]; exact hentry⟩
      rw [← List.cons_append]
      exact List.mem_append_left _ hl

end

/-- **What threads may rely on.** The file always holds a map that was held. A call that returns `Ok` is in it, or a later
update of its ref is, in runs that keep refs with one locator apart. When no call is running and none has panicked, the
file holds the present map, and opening it gives a store that answers alike. -/
theorem store_durable (lib : Externals) (overflowChecks : Bool) (disk : Disk) (s : Shared) (hopen : Opens lib disk s)
    (t : List (ThreadLabel ι)) (u : Threads ι) (h : Runs (ThreadTurn overflowChecks) (.quiet s) t u) :
    (∃ t₁ t₂ held, t = t₁ ++ t₂ ∧ Runs (ThreadTurn overflowChecks) (.quiet s) t₁ held ∧
        Runs (ThreadTurn overflowChecks) held t₂ u ∧
        u.shared.disk.file = some (.json (SecretMap.codec.encode held.shared.inner))) ∧
      (Apart t → Acknowledges overflowChecks t u) ∧
      ((∀ i, u.parties i = none) → u.shared.poisoned = false →
        u.shared.disk.file = some (.json (SecretMap.codec.encode u.shared.inner)) ∧
          ∀ s', Opens lib u.shared.disk s' → Unchanged overflowChecks u.shared s') := by
  refine ⟨holds_held hopen.written h, acknowledges hopen.written h, ?_⟩
  intro hquiet hsound
  obtain ⟨v, hv, habstracts⟩ := runs_follow (b := phases) method_follows h
  have hsettles : Settles v := by
    refine hv.invariant (fun _ _ _ hu hl => hu.turn hl) ?_
    intro _
    exact .inl hopen.written
  rw [← habstracts.shared] at hsound ⊢
  have hfile : v.shared.disk.file = some (.json (SecretMap.codec.encode v.shared.inner)) := by
    rcases hsettles hsound with hfile | ⟨i, c, ref, howing⟩
    · exact hfile
    · rw [habstracts.idle i (hquiet i)] at howing
      cases howing
  refine ⟨hfile, ?_⟩
  intro s' hagain
  obtain ⟨⟨t', hrun, hclean⟩, hs'⟩ := hagain
  have hinner : s'.inner = v.shared.inner := (open_steady hrun hclean).2.1 _ hfile
  refine unchanged_of_inner hsound hs' hinner ?_
  rw [(open_steady hrun hclean).2.2, hinner, hfile]

end

/-! ### Two threads and one locator -/

def putDefault : Call := .put ⟨inDefault, "v1", 1⟩

def putNamespaced : Call := .put ⟨inNamespace, "s3cr3t", 1⟩

def storedDefault : Secret := ⟨inDefault, "v1", 1⟩

def storedNamespaced : Secret := ⟨inNamespace, "s3cr3t", 2⟩

/-- the map once both have updated it -/
def bothStored : SecretMap := ((∅ : SecretMap).insert "a/b" storedDefault).insert "a/b" storedNamespaced

/-- one thread updates and flushes; the other has updated a ref with the same locator in between -/
def crossing : List (ThreadLabel Bool) :=
  [.invoke false putDefault, .invoke true putNamespaced,
    .event false putDefault ⟨.put ⟨inDefault, "v1", 1⟩, .ok storedDefault⟩,
    .event true putNamespaced ⟨.put ⟨inNamespace, "s3cr3t", 1⟩, .ok storedNamespaced⟩,
    .event false putDefault ⟨.flush, .ok ⟨flushTrace bothStored, .ok ()⟩⟩]

def holding (inner : SecretMap) : Shared := { justOpened with inner := inner }

theorem steady_flush {s : Shared} (hs : s.poisoned = false) :
    SteadySection true s .flush (.ok ⟨flushTrace s.inner, .ok ()⟩)
      { s with disk := ⟨some (.json (SecretMap.codec.encode s.inner)), none⟩ } := by
  refine ⟨(section_sound hs).2 ⟨_, _, rfl, rfl, flush_runs _ _⟩, ?_⟩
  intro hfailed
  obtain ⟨e, he, hf⟩ := hfailed
  exact flushTrace_clean _ e he hf

theorem crossing_runs : ∃ u : Threads Bool, Runs (ThreadTurn true) (.quiet justOpened) crossing u ∧
    u.shared.disk.file = some (.json (SecretMap.codec.encode bothStored)) ∧
    ∃ w, ThreadTurn true u (.returns false putDefault (.ok (.secret storedDefault))) w := by
  have hdefault : SteadySection true justOpened (.put ⟨inDefault, "v1", 1⟩) (.ok storedDefault)
      (holding ((∅ : SecretMap).insert "a/b" storedDefault)) := ⟨(section_sound rfl).2 ⟨rfl, rfl⟩, id⟩
  have hnamespaced : SteadySection true (holding ((∅ : SecretMap).insert "a/b" storedDefault))
      (.put ⟨inNamespace, "s3cr3t", 1⟩) (.ok storedNamespaced) (holding bothStored) :=
    ⟨(section_sound rfl).2 ⟨rfl, rfl⟩, id⟩
  refine ⟨_, .cons (.invoke rfl) <| .cons (.invoke rfl) <| .cons (.event rfl ⟨_, rfl, rfl⟩ hdefault) <|
    .cons (.event rfl ⟨_, rfl, rfl⟩ hnamespaced) <| .cons (.event rfl ⟨_, rfl, rfl⟩ (steady_flush rfl)) .nil, rfl, _,
    .returns rfl rfl⟩

/-- a put returns `Ok`, and the file holds the secret of another namespace in its place -/
theorem acknowledged_put_missing : Opens .standard ⟨none, none⟩ justOpened ∧
    ∃ u : Threads Bool, Runs (ThreadTurn true) (.quiet justOpened) crossing u ∧ ¬Acknowledges true crossing u := by
  obtain ⟨u, hrun, hfile, w, hreturns⟩ := crossing_runs
  refine ⟨justOpened_opens, u, hrun, ?_⟩
  intro h
  obtain ⟨t₁, c, e, entry, rest, ht, -, -, inner, hinner, l, hl, entry', hu, hentry⟩ :=
    h false putDefault _ w inDefault hreturns rfl
  have hsame : inner = bothStored := by
    have he := Option.some.inj (hinner.symm.trans hfile)
    have hd := congrArg SecretMap.codec.decode (Contents.json.inj he)
    rw [SecretMap.codec.decode_encode, SecretMap.codec.decode_encode] at hd
    exact Option.some.inj hd
  have hmem : l ∈ crossing := ht ▸ List.mem_append_right _ hl
  have hown : entry' = some storedDefault := by
    simp only [crossing, List.mem_cons, List.not_mem_nil, or_false] at hmem
    rcases hmem with rfl | rfl | rfl | rfl | rfl
    · cases hu
    · cases hu
    · exact (congrArg Prod.snd (Option.some.inj hu)).symm
    · have href : inNamespace = inDefault := congrArg Prod.fst (Option.some.inj hu)
      exact absurd href (by decide)
    · cases hu
  have hthere : bothStored["a/b"]? = some storedNamespaced := rfl
  rw [hsame, hown] at hentry
  exact absurd (Option.some.inj (hthere.symm.trans hentry)) (by decide)

/-! ### Two threads and two locators -/

def putBeside : Call := .put ⟨beside, "t0ken", 1⟩

def storedBeside : Secret := ⟨beside, "t0ken", 1⟩

/-- the map that holds what both have put -/
def bothKept : SecretMap := ((∅ : SecretMap).insert "a/b" storedDefault).insert "a/c" storedBeside

/-- both update the map before either flushes it, and the one that came last is the first to flush -/
def sideBySide : List (ThreadLabel Bool) :=
  [.invoke false putDefault, .invoke true putBeside,
    .event false putDefault ⟨.put ⟨inDefault, "v1", 1⟩, .ok storedDefault⟩,
    .event true putBeside ⟨.put ⟨beside, "t0ken", 1⟩, .ok storedBeside⟩,
    .event true putBeside ⟨.flush, .ok ⟨flushTrace bothKept, .ok ()⟩⟩,
    .event false putDefault ⟨.flush, .ok ⟨flushTrace bothKept, .ok ()⟩⟩]

def bothReturn : List (ThreadLabel Bool) :=
  [.returns false putDefault (.ok (.secret storedDefault)), .returns true putBeside (.ok (.secret storedBeside))]

theorem sideBySide_runs : ∃ u w : Threads Bool, Runs (ThreadTurn true) (.quiet justOpened) sideBySide u ∧
    Runs (ThreadTurn true) u bothReturn w ∧ (∀ i, w.parties i = none) ∧ w.shared.poisoned = false := by
  have hdefault : SteadySection true justOpened (.put ⟨inDefault, "v1", 1⟩) (.ok storedDefault)
      (holding ((∅ : SecretMap).insert "a/b" storedDefault)) := ⟨(section_sound rfl).2 ⟨rfl, rfl⟩, id⟩
  have hbeside : SteadySection true (holding ((∅ : SecretMap).insert "a/b" storedDefault))
      (.put ⟨beside, "t0ken", 1⟩) (.ok storedBeside) (holding bothKept) := ⟨(section_sound rfl).2 ⟨rfl, rfl⟩, id⟩
  refine ⟨_, _, .cons (.invoke rfl) <| .cons (.invoke rfl) <| .cons (.event rfl ⟨_, rfl, rfl⟩ hdefault) <|
    .cons (.event rfl ⟨_, rfl, rfl⟩ hbeside) <| .cons (.event rfl ⟨_, rfl, rfl⟩ (steady_flush rfl)) <|
    .cons (.event rfl ⟨_, rfl, rfl⟩ (steady_flush rfl)) .nil, .cons (.returns rfl rfl) <| .cons (.returns rfl rfl) .nil,
    ?_, rfl⟩
  intro i
  cases i with
  | false => rfl
  | true => rfl

theorem sideBySide_apart : Apart sideBySide := by
  have honly : ∀ l ∈ sideBySide, ∀ w, updated l = some w → w.1 = inDefault ∨ w.1 = beside := by
    intro l hl w hw
    simp only [sideBySide, List.mem_cons, List.not_mem_nil, or_false] at hl
    rcases hl with rfl | rfl | rfl | rfl | rfl | rfl
    · cases hw
    · cases hw
    · exact .inl (congrArg Prod.fst (Option.some.inj hw)).symm
    · exact .inr (congrArg Prod.fst (Option.some.inj hw)).symm
    · cases hw
    · cases hw
  intro t₁ i c e ref entry rest t₂ ht hu _ l hl ref' entry' hul hkey
  have hown := honly (.event i c e) (by simp [ht]) _ hu
  have hother := honly l (by simp [ht, hl]) _ hul
  rcases hown with rfl | rfl
  · rcases hother with rfl | rfl
    · rfl
    · exact absurd hkey (by decide)
  · rcases hother with rfl | rfl
    · exact absurd hkey (by decide)
    · rfl

/-- both puts return `Ok` with their secrets in the file, which holds the map once no call is running -/
theorem store_durable_example : ∃ u w : Threads Bool, Runs (ThreadTurn true) (.quiet justOpened) sideBySide u ∧
    Runs (ThreadTurn true) u bothReturn w ∧ Acknowledges true sideBySide u ∧
    w.shared.disk.file = some (.json (SecretMap.codec.encode w.shared.inner)) := by
  obtain ⟨u, w, hrun, hreturn, hquiet, hsound⟩ := sideBySide_runs
  refine ⟨u, w, hrun, hreturn, ?_, ?_⟩
  · exact (store_durable .standard true ⟨none, none⟩ justOpened justOpened_opens sideBySide u hrun).2.1
      sideBySide_apart
  · have hboth := runs_append.2 ⟨u, hrun, hreturn⟩
    exact ((store_durable .standard true ⟨none, none⟩ justOpened justOpened_opens _ w hboth).2.2 hquiet hsound).1

end PhenoCompose
