/-
`NoopRuntime`: the runtime that only keeps track, used by threads at the same time.

Its counter and its list are shared; drawing a number, and every section under the mutex, is one turn. The sections do not
panic, so that the mutex is never poisoned.

- `Contract`: what a runtime is for, as operations that happen at once.
- `noop_linearizable`: until the counter comes round, threads see nothing else.
-/
import PhenoCompose.Core.Linearize
import PhenoCompose.Podman

namespace PhenoCompose

open Core.Interleave Core.Linearize Core.Process Core.Transition

/-- `usize` of 64 bits -/
structure NoopRuntime where
  nextId : UInt64
  alive : List String
deriving DecidableEq

namespace NoopRuntime

def new : NoopRuntime := ⟨0, []⟩

/-! ## Sections -/

inductive Section where
  | fetchAdd
  | push (id : String)
  | remove (id : String)
  | any (id : String)

@[reducible] def Answer : Section → Type
  | .fetchAdd => UInt64
  | .push _ => Unit
  | .remove _ => Bool
  | .any _ => Bool

/-- the last element takes the place of the removed one -/
def swapRemove (alive : List String) (i : ℕ) : List String :=
  match alive.getLast? with
  | none => alive
  | some last => (alive.set i last).dropLast

def perform (s : NoopRuntime) : (op : Section) → Answer op × NoopRuntime
  | .fetchAdd => (s.nextId, { s with nextId := s.nextId + 1 })
  | .push id => ((), { s with alive := s.alive ++ [id] })
  | .remove id =>
    match s.alive.idxOf? id with
    | some i => (true, { s with alive := swapRemove s.alive i })
    | none => (false, s)
  | .any id => (s.alive.any (· == id), s)

def Performs (s : NoopRuntime) (op : Section) (answer : Answer op) (s' : NoopRuntime) : Prop :=
  s.perform op = (answer, s')

/-! ## The methods -/

inductive Call where
  | spawn (image : String)
  | stop (id : String)
  | status (id : String)

inductive Value where
  | container (id : String)
  | stopped
  | status (status : ContainerStatus)
deriving DecidableEq

abbrev Method := Prog Answer RuntimeError Value

/-- one section, in a turn of its own -/
def enter (op : Section) : Prog Answer RuntimeError (Answer op) := call op

/-- `format!("noop-{}", n)` -/
def containerId (n : UInt64) : String := "noop-" ++ toString n.toNat

def spawn (image : String) : Method :=
  if image = "" then fail (.validation "image reference is empty")
  else do
    let n ← enter .fetchAdd
    let id := containerId n
    enter (.push id)
    pure (.container id)

def stopped (id : String) (found : Bool) : Except (Stop RuntimeError) Value :=
  if found then .ok .stopped else .error (.err (.notFound ("no container with id " ++ id)))

def stop (id : String) : Method := do
  let found ← enter (.remove id)
  liftM (stopped id found)

def status (id : String) : Method := do
  let found ← enter (.any id)
  pure (.status (if found then .running else .notFound))

def method : Call → Method
  | .spawn image => spawn image
  | .stop id => stop id
  | .status id => status id

/-! ## What a runtime is for -/

abbrev Outcome := Except (Stop RuntimeError) Value

/-- the ids that were given, and those of containers that run -/
structure Containers where
  used : Set String
  alive : Set String

/-- a new container has an id that none had before; a stopped one is not known any more -/
inductive Contract : Containers → Call → Outcome → Containers → Prop where
  | spawned {s : Containers} {image id : String} (named : image ≠ "") (fresh : id ∉ s.used) :
      Contract s (.spawn image) (.ok (.container id)) ⟨insert id s.used, insert id s.alive⟩
  | refused {s : Containers} : Contract s (.spawn "") (.error (.err (.validation "image reference is empty"))) s
  | stopped {s : Containers} {id : String} (running : id ∈ s.alive) :
      Contract s (.stop id) (.ok .stopped) ⟨s.used, s.alive \ {id}⟩
  | unknown {s : Containers} {id : String} (gone : id ∉ s.alive) :
      Contract s (.stop id) (.error (.err (.notFound ("no container with id " ++ id)))) s
  | running {s : Containers} {id : String} (running : id ∈ s.alive) :
      Contract s (.status id) (.ok (.status .running)) s
  | absent {s : Containers} {id : String} (gone : id ∉ s.alive) :
      Contract s (.status id) (.ok (.status .notFound)) s

/-! ## Sections one by one -/

theorem containerId_inj {m n : UInt64} (h : containerId m = containerId n) : m = n := by
  have hdigits : toString m.toNat = toString n.toNat := by simpa [containerId] using h
  exact UInt64.toNat_inj.1 (Nat.repr_injective hdigits)

theorem swapRemove_perm {alive : List String} {i : ℕ} (hi : i < alive.length) :
    (swapRemove alive i).Perm (alive.eraseIdx i) := by
  induction alive using List.reverseRecOn with
  | nil => simp at hi
  | append_singleton alive last =>
    simp only [swapRemove, List.getLast?_concat]
    rw [List.length_append, List.length_singleton] at hi
    rcases Nat.lt_succ_iff_lt_or_eq.1 hi with hlt | rfl
    · rw [List.set_append_left _ _ hlt, List.dropLast_concat, List.eraseIdx_append_of_lt_length hlt]
      exact (List.set_perm_cons_eraseIdx hlt last).trans (List.perm_append_singleton last _).symm
    · simp [List.eraseIdx_append_of_length_le]

/-- removing an id from a list of different ones -/
theorem remove_cases {s : NoopRuntime} (hnodup : s.alive.Nodup) {id : String} {found : Bool} {s' : NoopRuntime}
    (h : s.Performs (.remove id) found s') : s'.nextId = s.nextId ∧ s'.alive.Nodup ∧
      (∀ x, x ∈ s'.alive ↔ x ≠ id ∧ x ∈ s.alive) ∧ (found = true ↔ id ∈ s.alive) := by
  simp only [Performs, perform] at h
  cases hindex : s.alive.idxOf? id with
  | none =>
    rw [hindex] at h
    obtain ⟨rfl, rfl⟩ := Prod.ext_iff.1 h
    have hgone : id ∉ s.alive := List.idxOf?_eq_none_iff.1 hindex
    refine ⟨rfl, hnodup, fun x => ⟨fun hx => ⟨?_, hx⟩, fun hx => hx.2⟩, by simp [hgone]⟩
    rintro rfl
    exact hgone hx
  | some i =>
    rw [hindex] at h
    obtain ⟨rfl, rfl⟩ := Prod.ext_iff.1 h
    obtain ⟨hlt, hi, -⟩ := List.idxOf?_eq_some_iff.1 hindex
    have hperm := swapRemove_perm hlt
    have herase : s.alive.eraseIdx i = s.alive.erase id := by
      rw [← hi, hnodup.erase_getElem]
    rw [herase] at hperm
    refine ⟨rfl, (hnodup.erase id).perm hperm.symm, fun x => ?_, ?_⟩
    · exact hperm.mem_iff.trans hnodup.mem_erase_iff
    · simpa using hi ▸ List.getElem_mem hlt

/-! ## The phases of a call -/

inductive Phase where
  | waiting (c : Call)
  | drawn (n : UInt64)
  | ended (r : Outcome)

namespace Phase

def does : Phase → Event Answer → Phase → Prop
  | .waiting (.spawn image), ⟨.fetchAdd, n⟩, q => image ≠ "" ∧ q = .drawn n
  | .drawn n, ⟨.push id, _⟩, q => id = containerId n ∧ q = .ended (.ok (.container id))
  | .waiting (.stop id), ⟨.remove id', found⟩, q => id' = id ∧ q = .ended (NoopRuntime.stopped id found)
  | .waiting (.status id), ⟨.any id', found⟩, q =>
    id' = id ∧ q = .ended (.ok (.status (if found then .running else .notFound)))
  | _, _, _ => False

def ends : Phase → Outcome → Prop
  | .waiting c, r => c = .spawn "" ∧ r = .error (.err (.validation "image reference is empty"))
  | .drawn _, _ => False
  | .ended r', r => r = r'

def decided : Phase → Option Outcome
  | .ended r => some r
  | _ => none

end Phase

def phases : Behaviour Answer Call Outcome Phase := ⟨.waiting, Phase.does, Phase.ends⟩

theorem method_follows (c : Call) : Follows Phase.does Phase.ends (method c) (.waiting c) := by
  cases c with
  | spawn image =>
    show Follows _ _ (spawn image) _
    unfold spawn
    split_ifs with hempty
    · subst hempty
      exact Follows.fail ⟨rfl, rfl⟩
    · exact fun n => ⟨.drawn n, ⟨hempty, rfl⟩, fun _ => ⟨_, ⟨rfl, rfl⟩, rfl⟩⟩
  | stop id => exact fun found => ⟨_, ⟨rfl, rfl⟩, rfl⟩
  | status id => exact fun found => ⟨_, ⟨rfl, rfl⟩, rfl⟩

/-! ## Threads -/

section
variable {ι : Type}

abbrev Threads (ι P : Type) := Pool NoopRuntime ι Call P

abbrev Turns (ι : Type) := List (Label Answer ι Call Outcome)

def Draws : Label Answer ι Call Outcome → Bool
  | .event _ _ ⟨.fetchAdd, _⟩ => true
  | _ => false

/-- how many numbers were drawn -/
def drawn (t : Turns ι) : ℕ := t.countP Draws

/-- the counter has not come round -/
def Fits (t : Turns ι) : Prop := drawn t ≤ 2 ^ 64

theorem drawn_append (t : Turns ι) (l : Label Answer ι Call Outcome) :
    drawn (t ++ [l]) = drawn t + if Draws l then 1 else 0 := by
  rw [drawn, List.countP_append, List.countP_singleton, ← drawn]

theorem fits_before (t : Turns ι) (l : Label Answer ι Call Outcome) (h : Fits (t ++ [l])) : Fits t := by
  unfold Fits at h ⊢
  rw [drawn_append] at h
  omega

/-- the list holds what runs, the ids given are of numbers drawn, and so are those that a spawn is about to give -/
structure Tracks (t : Turns ι) (u : Threads ι Phase) (a : Containers) : Prop where
  counter : u.shared.nextId = UInt64.ofNat (drawn t)
  nodup : u.shared.alive.Nodup
  alive : ∀ x, x ∈ u.shared.alive ↔ x ∈ a.alive
  alive_used : a.alive ⊆ a.used
  used : ∀ x ∈ a.used, ∃ m < drawn t, x = containerId (.ofNat m)
  drawn : ∀ i c n, u.parties i = some (c, .drawn n) →
    (∃ m < NoopRuntime.drawn t, n = .ofNat m) ∧ containerId n ∉ a.used ∧ ∃ image, c = .spawn image ∧ image ≠ ""
  apart : ∀ i j c c' n, u.parties i = some (c, .drawn n) → u.parties j = some (c', .drawn n) → i = j
  waiting : ∀ i c c', u.parties i = some (c, .waiting c') → c' = c

theorem tracks_new : Tracks ([] : Turns ι) (.quiet new) ⟨∅, ∅⟩ where
  counter := rfl
  nodup := List.nodup_nil
  alive x := by simp [new, Pool.quiet]
  alive_used := Set.empty_subset _
  used x hx := hx.elim
  drawn i c n h := by cases h
  apart i j c c' n h := by cases h
  waiting i c c' h := by cases h

variable [DecidableEq ι]

/-- what a party is in after another one, or itself, has moved -/
theorem update_some {β : Type} {f : ι → Option β} {i j : ι} {x : Option β} {y : β}
    (h : Function.update f i x j = some y) : j = i ∧ x = some y ∨ j ≠ i ∧ f j = some y := by
  rcases eq_or_ne j i with rfl | hj
  · exact .inl ⟨rfl, by simpa using h⟩
  · exact .inr ⟨hj, by simpa [hj] using h⟩

/-- a party moves, and none has drawn a number by it -/
theorem Tracks.move {t t' : Turns ι} {u : Threads ι Phase} {a a' : Containers} (h : Tracks t u a) {s : NoopRuntime}
    {i : ι} {x : Option (Call × Phase)}
    (hx : ∀ c q, x = some (c, q) → (∀ n, q ≠ .drawn n) ∧ ∀ c', q = .waiting c' → c' = c)
    (hdrawn : NoopRuntime.drawn t' = NoopRuntime.drawn t) (hcounter : s.nextId = u.shared.nextId)
    (hnodup : s.alive.Nodup) (halive : ∀ x, x ∈ s.alive ↔ x ∈ a'.alive) (hused : a'.alive ⊆ a'.used)
    (hids : ∀ id ∈ a'.used, id ∈ a.used ∨ ∃ c n, u.parties i = some (c, .drawn n) ∧ id = containerId n) :
    Tracks t' ⟨s, Function.update u.parties i x⟩ a' := by
  have hother : ∀ {j c n}, Function.update u.parties i x j = some (c, .drawn n) →
      j ≠ i ∧ u.parties j = some (c, .drawn n) := by
    intro j c n hj
    rcases update_some hj with ⟨-, hself⟩ | hother
    · exact absurd rfl ((hx c _ hself).1 n)
    · exact hother
  refine ⟨by rw [hcounter, h.counter, hdrawn], hnodup, halive, hused, ?_, ?_, ?_, ?_⟩
  · intro id hid
    rw [hdrawn]
    rcases hids id hid with hold | ⟨c, n, hin, rfl⟩
    · exact h.used id hold
    · obtain ⟨⟨m, hm, rfl⟩, -⟩ := h.drawn i c n hin
      exact ⟨m, hm, rfl⟩
  · intro j c n hj
    obtain ⟨hne, hj⟩ := hother hj
    obtain ⟨hnumber, hfresh, hspawn⟩ := h.drawn j c n hj
    rw [hdrawn]
    refine ⟨hnumber, fun hid => ?_, hspawn⟩
    rcases hids _ hid with hold | ⟨c', n', hin, he⟩
    · exact hfresh hold
    · obtain rfl := containerId_inj he
      exact hne (h.apart j i c c' n hj hin)
  · intro j k c c' n hj hk
    exact h.apart j k c c' n (hother hj).2 (hother hk).2
  · intro j c c' hj
    rcases update_some hj with ⟨-, hself⟩ | ⟨-, hother⟩
    · exact (hx c _ hself).2 c' rfl
    · exact h.waiting j c c' hother

/-- a party draws a number that is new -/
theorem Tracks.draw {t t' : Turns ι} {u : Threads ι Phase} {a : Containers} (h : Tracks t u a) {i : ι} {image : String}
    (hin : u.parties i = some (.spawn image, .waiting (.spawn image))) (himage : image ≠ "")
    (hdrawn : NoopRuntime.drawn t' = NoopRuntime.drawn t + 1) (hfits : Fits t') :
    Tracks t' ⟨{ u.shared with nextId := u.shared.nextId + 1 },
      Function.update u.parties i (some (.spawn image, .drawn u.shared.nextId))⟩ a := by
  have hnew : ∀ m < NoopRuntime.drawn t, UInt64.ofNat m ≠ u.shared.nextId := by
    intro m hm he
    rw [h.counter, ← UInt64.toNat_inj, UInt64.toNat_ofNat', UInt64.toNat_ofNat'] at he
    unfold Fits at hfits
    omega
  have hfresh : containerId u.shared.nextId ∉ a.used := by
    intro hid
    obtain ⟨m, hm, he⟩ := h.used _ hid
    exact hnew m hm (containerId_inj he).symm
  have hcases : ∀ {j c n}, Function.update u.parties i (some (.spawn image, .drawn u.shared.nextId)) j =
      some (c, .drawn n) →
        j = i ∧ c = .spawn image ∧ n = u.shared.nextId ∨ j ≠ i ∧ u.parties j = some (c, .drawn n) := by
    intro j c n hj
    rcases update_some hj with ⟨rfl, hself⟩ | hother
    · cases hself
      exact .inl ⟨rfl, rfl, rfl⟩
    · exact .inr hother
  refine ⟨?_, h.nodup, h.alive, h.alive_used, ?_, ?_, ?_, ?_⟩
  · rw [hdrawn, UInt64.ofNat_add, h.counter]
    rfl
  · intro id hid
    obtain ⟨m, hm, he⟩ := h.used id hid
    exact ⟨m, by omega, he⟩
  · intro j c n hj
    rcases hcases hj with ⟨-, rfl, rfl⟩ | ⟨-, hj⟩
    · exact ⟨⟨NoopRuntime.drawn t, by omega, h.counter⟩, hfresh, image, rfl, himage⟩
    · obtain ⟨⟨m, hm, hn⟩, hrest⟩ := h.drawn j c n hj
      exact ⟨⟨m, by omega, hn⟩, hrest⟩
  · intro j k c c' n hj hk
    rcases hcases hj with ⟨hji, -, hn⟩ | ⟨-, hj'⟩ <;> rcases hcases hk with ⟨hki, -, hn'⟩ | ⟨-, hk'⟩
    · exact hji.trans hki.symm
    · obtain ⟨⟨m, hm, he⟩, -⟩ := h.drawn k c' n hk'
      exact absurd (he.symm.trans hn) (hnew m hm)
    · obtain ⟨⟨m, hm, he⟩, -⟩ := h.drawn j c n hj'
      exact absurd (he.symm.trans hn') (hnew m hm)
    · exact h.apart j k c c' n hj' hk'
  · intro j c c' hj
    rcases update_some hj with ⟨-, hself⟩ | ⟨-, hother⟩
    · cases hself
    · exact h.waiting j c c' hother

/-- every call takes effect when it decides its result -/
theorem commits : Commits phases (fun _ : ι => Performs) Contract Fits Phase.decided Tracks where
  start _ := rfl
  invoke {t u a i} c _ h hidle := by
    refine h.move ?_ (by rw [drawn_append]; rfl) rfl h.nodup h.alive h.alive_used fun id hid => .inl hid
    rintro c' q ⟨⟩
    exact ⟨nofun, fun c'' he => (Phase.waiting.inj he).symm⟩
  event {t u a i c q q' e s} hfits h hin hdoes hstep := by
    obtain ⟨op, answer⟩ := e
    dsimp only at hstep
    have hended : ∀ {r : Outcome}, q' = .ended r → ∀ c' q'', some (c, q') = some (c', q'') →
        (∀ n, q'' ≠ .drawn n) ∧ ∀ c'', q'' = .waiting c'' → c'' = c' := by
      rintro r rfl c' q'' ⟨⟩
      exact ⟨nofun, nofun⟩
    cases q with
    | ended r => exact hdoes.elim
    | drawn n =>
      cases op with
      | fetchAdd | remove | any => exact hdoes.elim
      | push id =>
        -- the container is there from now on
        obtain ⟨rfl, rfl⟩ := hdoes
        obtain ⟨-, rfl⟩ := Prod.ext_iff.1 hstep
        obtain ⟨hnumber, hfresh, image, rfl, himage⟩ := h.drawn i c n hin
        refine .inr ⟨rfl, _, ⟨insert (containerId n) a.used, insert (containerId n) a.alive⟩, rfl,
          .spawned himage hfresh, ?_⟩
        have hnew : containerId n ∉ u.shared.alive := fun hid => hfresh (h.alive_used ((h.alive _).1 hid))
        refine h.move (hended rfl) (by rw [drawn_append]; rfl) rfl ?_ ?_ (Set.insert_subset_insert h.alive_used) ?_
        · exact List.nodup_append.2 ⟨h.nodup, List.nodup_singleton _, by
            rintro x hx y hy rfl
            exact hnew (List.mem_singleton.1 hy ▸ hx)⟩
        · intro x
          simp only [perform, List.mem_append, List.mem_singleton, h.alive x, Set.mem_insert_iff, or_comm]
        · rintro id (rfl | hid)
          · exact .inr ⟨_, n, hin, rfl⟩
          · exact .inl hid
    | waiting c' =>
      obtain rfl := h.waiting i c c' hin
      cases c' with
      | spawn image =>
        cases op with
        | push | remove | any => exact hdoes.elim
        | fetchAdd =>
          obtain ⟨himage, rfl⟩ := hdoes
          obtain ⟨rfl, rfl⟩ := Prod.ext_iff.1 hstep
          exact .inl ⟨rfl, h.draw hin himage (by rw [drawn_append]; rfl) hfits⟩
      | stop id =>
        cases op with
        | fetchAdd | push | any => exact hdoes.elim
        | remove id' =>
          obtain ⟨rfl, rfl⟩ := hdoes
          obtain ⟨hcounter, hnodup, hleft, hfound⟩ := remove_cases h.nodup hstep
          rw [h.alive] at hfound
          refine .inr ⟨rfl, _, ⟨a.used, a.alive \ {id'}⟩, rfl, ?_, ?_⟩
          · cases answer with
            | true => exact .stopped (hfound.1 rfl)
            | false =>
              have hgone : id' ∉ a.alive := fun hid => by simpa using hfound.2 hid
              rw [Set.sdiff_singleton_eq_self hgone]
              exact .unknown hgone
          · refine h.move (hended rfl) (by rw [drawn_append]; rfl) hcounter hnodup ?_
              (Set.sdiff_subset.trans h.alive_used) fun id hid => .inl hid
            intro x
            rw [hleft, h.alive, Set.mem_sdiff, Set.mem_singleton_iff, and_comm]
      | status id =>
        cases op with
        | fetchAdd | push | remove => exact hdoes.elim
        | any id' =>
          obtain ⟨rfl, rfl⟩ := hdoes
          obtain ⟨rfl, rfl⟩ := Prod.ext_iff.1 hstep
          refine .inr ⟨rfl, _, a, rfl, ?_, ?_⟩
          · have hany : (u.shared.alive.any (· == id')) = true ↔ id' ∈ a.alive := by
              rw [List.any_beq', List.contains_iff_mem, h.alive]
            by_cases hid : id' ∈ a.alive
            · rw [perform, hany.2 hid]
              exact .running hid
            · rw [perform, Bool.eq_false_iff.2 (mt hany.1 hid)]
              exact .absent hid
          · exact h.move (hended rfl) (by rw [drawn_append]; rfl) rfl h.nodup h.alive h.alive_used fun id hid => .inl hid
  returns {t u a i c q r} _ h hin hends := by
    refine ⟨?_, h.move nofun (by rw [drawn_append]; rfl) rfl h.nodup h.alive h.alive_used fun id hid => .inl hid⟩
    cases q with
    | waiting c' =>
      obtain rfl := h.waiting i c c' hin
      obtain ⟨rfl, rfl⟩ := hends
      exact .inr ⟨rfl, .refused⟩
    | drawn n => exact hends.elim
    | ended r' =>
      obtain rfl := hends
      exact .inl rfl

/-- **Linearizability.** However threads interleave their calls, as long as the counter has not come round, what they see
is what they would see of a runtime whose operations happen at once: every container has an id of its own that no
other ever had, it runs until one stop that finds it, a stop of any other id is told that there is none, and a status
tells which of the two it is. -/
theorem noop_linearizable {t : Turns ι} {u : Threads ι Method}
    (h : Runs (Turn (programs method) fun _ => Performs) (.quiet new) t u) (hfits : drawn t ≤ 2 ^ 64) :
    ∃ t' w, Runs (Happens Contract) (.quiet ⟨∅, ∅⟩) t' w ∧ interactions t' = interactions t ∧
      ∀ id, id ∈ u.shared.alive ↔ id ∈ w.shared.alive := by
  obtain ⟨v, hv, habstracts⟩ := runs_follow (b := phases) method_follows h
  obtain ⟨t', w, hw, hhistory, hshows⟩ := linearized commits fits_before hv hfits tracks_new
  exact ⟨t', w, hw, hhistory, fun id => habstracts.shared ▸ hshows.state.alive id⟩

end

/-- one spawn overtakes another -/
def overtaking : Turns Bool :=
  [.invoke false (.spawn "web"), .event false (.spawn "web") ⟨.fetchAdd, (0 : UInt64)⟩, .invoke true (.spawn "db"),
    .event true (.spawn "db") ⟨.fetchAdd, (1 : UInt64)⟩, .event true (.spawn "db") ⟨.push "noop-1", ()⟩,
    .returns true (.spawn "db") (.ok (.container "noop-1")), .event false (.spawn "web") ⟨.push "noop-0", ()⟩,
    .returns false (.spawn "web") (.ok (.container "noop-0"))]

theorem overtaking_runs : ∃ u : Threads Bool Method,
    Runs (Turn (programs method) fun _ => Performs) (.quiet new) overtaking u ∧ u.shared.alive = ["noop-1", "noop-0"] :=
  ⟨_, .cons (.invoke rfl) <| .cons (.event rfl ⟨_, rfl, rfl⟩ rfl) <| .cons (.invoke rfl) <|
    .cons (.event rfl ⟨_, rfl, rfl⟩ rfl) <| .cons (.event rfl ⟨_, rfl, rfl⟩ rfl) <| .cons (.returns rfl rfl) <|
    .cons (.event rfl ⟨_, rfl, rfl⟩ rfl) <| .cons (.returns rfl rfl) .nil, rfl⟩

theorem noop_linearizable_example : ∃ t' w, Runs (Happens (ι := Bool) Contract) (.quiet ⟨∅, ∅⟩) t' w ∧
    interactions t' = interactions overtaking ∧ "noop-0" ∈ w.shared.alive ∧ "noop-1" ∈ w.shared.alive := by
  obtain ⟨u, hu, halive⟩ := overtaking_runs
  obtain ⟨t', w, hw, hhistory, hsame⟩ := noop_linearizable hu (by decide)
  exact ⟨t', w, hw, hhistory, (hsame _).1 (by simp [halive]), (hsame _).1 (by simp [halive])⟩

end NoopRuntime

end PhenoCompose
