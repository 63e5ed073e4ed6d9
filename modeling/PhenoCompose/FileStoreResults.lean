/-
What callers of the secret stores may rely on.

- `mutation_atomic_iff`: an update that fails leaves the store and its file as they were exactly where it fails before
  the flush, or is a delete of nothing.
- `run_method`: what a call does to the map of the file store is what it does to the in-memory store.
- `stores_equivalent`: from nothing, the two stores have the same sequences of calls and replies.
-/
import PhenoCompose.FileStore

namespace PhenoCompose

open Core.Collections Core.Json Core.Process Core.Text Core.Transition SecretStore FileSecretStore

/-! ## Reading -/

section
variable {overflowChecks : Bool} {s s' : Shared} {t : SectionTrace}

theorem section_poisoned (hs : s.poisoned = true) {op : Section} {answer : SectionAnswer op}
    (h : SectionStep overflowChecks s op answer s') : s' = s ∧ ∃ message, answer = .error message := by
  rw [SectionStep, if_pos hs] at h
  exact ⟨h.1, _, h.2⟩

/-- nothing happens to a store once it is poisoned -/
theorem run_poisoned (hs : s.poisoned = true) {α : Type} {x : Method α} {r : Except (Stop SecretStoreError) α}
    (h : Run (SectionStep overflowChecks) x s t r s') : s' = s ∧ ∀ e ∈ t, ¬IoFailed e := by
  induction h with
  | done => exact ⟨rfl, by simp⟩
  | call hstep hrest ih =>
    obtain ⟨rfl, message, rfl⟩ := section_poisoned hs hstep
    obtain ⟨rfl, hclean⟩ := ih hs
    refine ⟨rfl, List.forall_mem_cons.2 ⟨?_, hclean⟩⟩
    intro hfailed
    simp [IoFailed] at hfailed

theorem get_runs (hs : s.poisoned = false) (ref : SecretRef) :
    ∃ t, Run (SectionStep overflowChecks) (get ref) s t (InMemorySecretStore.get s.inner ref) s := by
  obtain ⟨t, r, u, hrun, -⟩ := steady_run overflowChecks (get ref) s
  obtain ⟨rfl, rfl, -⟩ := run_get hs hrun
  exact ⟨t, hrun⟩

theorem list_runs (hs : s.poisoned = false) (namespace_ : String) :
    ∃ t, Run (SectionStep overflowChecks) (list namespace_) s t (.ok (refsIn namespace_ (values s.inner))) s := by
  obtain ⟨t, r, u, hrun, -⟩ := steady_run overflowChecks (list namespace_) s
  obtain ⟨rfl, rfl, -⟩ := run_list hs hrun
  exact ⟨t, hrun⟩

/-! ## Updates that fail -/

/-- `get` and `list` answer as before, and the file is the same -/
structure Unchanged (overflowChecks : Bool) (s s' : Shared) : Prop where
  get : ∀ ref r, (∃ t u, Run (SectionStep overflowChecks) (get ref) s' t r u) ↔
    ∃ t u, Run (SectionStep overflowChecks) (get ref) s t r u
  list : ∀ namespace_ r, (∃ t u, Run (SectionStep overflowChecks) (list namespace_) s' t r u) ↔
    ∃ t u, Run (SectionStep overflowChecks) (list namespace_) s t r u
  file : s'.disk.file = s.disk.file

theorem Unchanged.refl (overflowChecks : Bool) (s : Shared) : Unchanged overflowChecks s s :=
  ⟨fun _ _ => Iff.rfl, fun _ _ => Iff.rfl, rfl⟩

theorem get_answers (hs : s.poisoned = false) {ref : SecretRef} {r : Except (Stop SecretStoreError) Secret} :
    (∃ t u, Run (SectionStep overflowChecks) (get ref) s t r u) ↔ r = InMemorySecretStore.get s.inner ref := by
  refine ⟨?_, ?_⟩
  · intro h
    obtain ⟨t, u, h⟩ := h
    exact (run_get hs h).1
  · intro h
    obtain ⟨t, hrun⟩ := get_runs hs ref
    exact ⟨t, s, h ▸ hrun⟩

theorem list_answers (hs : s.poisoned = false) {namespace_ : String}
    {r : Except (Stop SecretStoreError) (List SecretRef)} :
    (∃ t u, Run (SectionStep overflowChecks) (list namespace_) s t r u) ↔
      r = .ok (refsIn namespace_ (values s.inner)) := by
  refine ⟨?_, ?_⟩
  · intro h
    obtain ⟨t, u, h⟩ := h
    exact (run_list hs h).1
  · intro h
    obtain ⟨t, hrun⟩ := list_runs hs namespace_
    exact ⟨t, s, h ▸ hrun⟩

theorem unchanged_of_inner (hs : s.poisoned = false) (hs' : s'.poisoned = false) (hinner : s'.inner = s.inner)
    (hfile : s'.disk.file = s.disk.file) : Unchanged overflowChecks s s' := by
  refine ⟨?_, ?_, hfile⟩
  · intro ref r
    rw [get_answers hs, get_answers hs', hinner]
  · intro namespace_ r
    rw [list_answers hs, list_answers hs', hinner]

theorem Unchanged.get_eq (h : Unchanged overflowChecks s s') (hs : s.poisoned = false) (hs' : s'.poisoned = false)
    (ref : SecretRef) : InMemorySecretStore.get s'.inner ref = InMemorySecretStore.get s.inner ref :=
  (get_answers hs).1 ((h.get ref _).1 ((get_answers hs').2 rfl))

end

/-- counting up gives another number, also at the last one -/
theorem succ_ne (n : UInt64) : n + 1 ≠ n := by
  intro h
  have hnat : (n.toNat + 1) % 2 ^ 64 = n.toNat := by
    have := congrArg UInt64.toNat h
    rwa [UInt64.toNat_add] at this
  have := n.toNat_lt
  omega

/-- what a put stores is not what was there -/
theorem stored_visible {inner : SecretMap} {secret : Secret} (hname : secret.ref.name ≠ "") :
    InMemorySecretStore.get (inner.insert secret.ref.locator (stored inner secret)) secret.ref ≠
      InMemorySecretStore.get inner secret.ref := by
  rw [get_named hname, get_named hname, lookup, lookup, get_insert, if_pos rfl]
  cases hentry : inner[secret.ref.locator]? with
  | none => simp
  | some existing =>
    intro h
    have he : stored inner secret = existing := Except.ok.inj h
    have hversion : (stored inner secret).version = existing.version := by rw [he]
    rw [stored, hentry] at hversion
    exact succ_ne _ hversion

/-- a delete of nothing leaves the map as it was -/
theorem delete_absent {inner : SecretMap} {ref : SecretRef} (h : inner[ref.locator]? = none) :
    deleteSection inner ref = inner := by
  apply Std.ExtTreeMap.ext_getElem?
  intro k
  rw [deleteSection, get_erase]
  split_ifs with hk
  · rw [← hk, h]
  · rfl

/-- a delete is seen unless there was nothing -/
theorem delete_visible {inner : SecretMap} {ref : SecretRef} (hname : ref.name ≠ "") :
    InMemorySecretStore.get (deleteSection inner ref) ref = InMemorySecretStore.get inner ref ↔
      inner[ref.locator]? = none := by
  refine ⟨?_, ?_⟩
  · intro h
    rw [get_named hname, get_named hname, lookup, lookup, deleteSection, get_erase, if_pos rfl] at h
    cases hentry : inner[ref.locator]? with
    | none => rfl
    | some existing =>
      rw [hentry] at h
      cases h
  · intro h
    rw [delete_absent h]

/-- **An update that fails leaves the store as it was** exactly where it fails before it reaches the disk, or is a delete of
nothing. -/
theorem mutation_atomic_iff (overflowChecks : Bool) (s s' : Shared) (c : Call) (t : SectionTrace)
    (r : Except (Stop SecretStoreError) Returned) (h : Run (SectionStep overflowChecks) (method c) s t r s') :
    ((∃ error, r = .error (.err error)) → Unchanged overflowChecks s s') ↔
      (∀ e ∈ t, ¬IoFailed e) ∨ ∃ ref, c = .delete ref ∧ s.inner[ref.locator]? = none := by
  by_cases hs : s.poisoned = true
  · obtain ⟨rfl, hclean⟩ := run_poisoned hs h
    exact ⟨fun _ => .inl hclean, fun _ _ => .refl _ _⟩
  rw [Bool.not_eq_true] at hs
  cases c with
  | get ref =>
    obtain ⟨r₀, hrun, rfl⟩ := run_bind_pure.1 h
    obtain ⟨-, rfl, hclean⟩ := run_get hs hrun
    exact ⟨fun _ => .inl hclean, fun _ _ => .refl _ _⟩
  | list namespace_ =>
    obtain ⟨r₀, hrun, rfl⟩ := run_bind_pure.1 h
    obtain ⟨-, rfl, hclean⟩ := run_list hs hrun
    exact ⟨fun _ => .inl hclean, fun _ _ => .refl _ _⟩
  | put secret =>
    obtain ⟨r₀, hrun, rfl⟩ := run_bind_pure.1 h
    rcases run_put hs hrun with ⟨result, inner, hput, hinner, hs', hflush⟩ | ⟨e, hput, rfl, hend, hclean⟩
    · rcases hflush with ⟨rfl, -, hclean⟩ | ⟨⟨error, rfl⟩, hfile, hfailed⟩
      · exact ⟨fun _ => .inl hclean, fun _ he => by cases he.choose_spec⟩
      · obtain ⟨⟨⟩, hname, hsection⟩ := bind_eq_ok.1 hput
        obtain ⟨-, rfl, rfl⟩ := putSection_ok.1 hsection
        refine ⟨?_, ?_⟩
        · intro hatomic
          have hget := (hatomic ⟨error, rfl⟩).get_eq hs hs' secret.ref
          rw [hinner] at hget
          exact absurd hget (stored_visible (validateRef_ok.1 hname))
        · intro hcondition
          rcases hcondition with hclean | ⟨ref, hc, -⟩
          · obtain ⟨e, he, hio⟩ := hfailed
            exact absurd hio (hclean e he)
          · cases hc
    · refine ⟨fun _ => .inl hclean, ?_⟩
      intro _ hr
      rcases hend with rfl | ⟨⟨message, rfl⟩, -⟩
      · exact .refl _ _
      · obtain ⟨error, he⟩ := hr
        cases he
  | delete ref =>
    obtain ⟨r₀, hrun, rfl⟩ := run_bind_pure.1 h
    rcases run_delete hs hrun with ⟨inner, hdelete, hinner, hs', hflush⟩ | ⟨e, -, rfl, rfl, hclean⟩
    · rcases hflush with ⟨rfl, -, hclean⟩ | ⟨⟨error, rfl⟩, hfile, hfailed⟩
      · exact ⟨fun _ => .inl hclean, fun _ he => by cases he.choose_spec⟩
      · obtain ⟨⟨⟩, hname, hsection⟩ := bind_eq_ok.1 hdelete
        obtain rfl := Except.ok.inj hsection
        refine ⟨?_, ?_⟩
        · intro hatomic
          have hget := (hatomic ⟨error, rfl⟩).get_eq hs hs' ref
          rw [hinner] at hget
          exact .inr ⟨ref, rfl, (delete_visible (validateRef_ok.1 hname)).1 hget⟩
        · intro hcondition hr
          rcases hcondition with hclean | ⟨ref', hc, hnone⟩
          · obtain ⟨e, he, hio⟩ := hfailed
            exact absurd hio (hclean e he)
          · cases hc
            exact unchanged_of_inner hs hs' (hinner.trans (delete_absent hnone)) hfile
    · exact ⟨fun _ => .inl hclean, fun _ _ => .refl _ _⟩

/-! ### A rename that fails -/

/-- a store just opened on a missing file -/
def justOpened : Shared := ⟨∅, ⟨some (.json (SecretMap.codec.encode ∅)), none⟩, false⟩

def firstSecret : Secret := ⟨⟨"", "api-key"⟩, "v1", 1⟩

def oneSecret : SecretMap := (∅ : SecretMap).insert "api-key" firstSecret

/-- everything is written to the temporary, and then the rename fails -/
def renameFails (inner : SecretMap) : FileTrace :=
  let contents := .json (SecretMap.codec.encode inner)
  [⟨.toVecPretty inner, .ok contents⟩, ⟨.create, .ok ()⟩, ⟨.writeAll contents, .ok ()⟩, ⟨.syncAll, .ok ()⟩,
    ⟨.rename, .error "disk full"⟩]

def afterFailedPut : Shared :=
  { justOpened with inner := oneSecret, disk.temporary := some (.json (SecretMap.codec.encode oneSecret)) }

def failedPut : SectionTrace :=
  [⟨.put firstSecret, .ok firstSecret⟩, ⟨.flush, .ok ⟨renameFails oneSecret, .error (.rename "disk full")⟩⟩]

theorem failedPut_runs : Run (SectionStep true) (method (.put firstSecret)) justOpened failedPut
    (.error (.err (.transport "disk full"))) afterFailedPut := by
  have hflush : Run FileStep (flush oneSecret) justOpened.disk (renameFails oneSecret)
      (.error (.err (.rename "disk full"))) afterFailedPut.disk :=
    .call ⟨rfl, rfl⟩ <| .call rfl <| .call rfl <| .call rfl <| .call rfl .done
  have hput : SectionStep true justOpened (.put firstSecret) (.ok firstSecret)
      { justOpened with inner := oneSecret } := (section_sound rfl).2 ⟨rfl, rfl⟩
  exact .call hput <| .call ((section_sound rfl).2 ⟨_, _, rfl, rfl, hflush⟩) .done

/-- a store that holds one secret -/
def holdingOne : Shared := ⟨oneSecret, ⟨some (.json (SecretMap.codec.encode oneSecret)), none⟩, false⟩

def absentRef : SecretRef := ⟨"", "db-password"⟩

/-- the store after a delete of nothing, whose rename has failed -/
def afterFailedDelete : Shared :=
  { holdingOne with disk.temporary := some (.json (SecretMap.codec.encode oneSecret)) }

def failedDelete : SectionTrace :=
  [⟨.remove absentRef, .ok ()⟩, ⟨.flush, .ok ⟨renameFails oneSecret, .error (.rename "disk full")⟩⟩]

theorem failedDelete_runs : Run (SectionStep true) (method (.delete absentRef)) holdingOne failedDelete
    (.error (.err (.transport "disk full"))) afterFailedDelete := by
  have hflush : Run FileStep (flush oneSecret) holdingOne.disk (renameFails oneSecret)
      (.error (.err (.rename "disk full"))) afterFailedDelete.disk :=
    .call ⟨rfl, rfl⟩ <| .call rfl <| .call rfl <| .call rfl <| .call rfl .done
  have hnothing : oneSecret = deleteSection oneSecret absentRef := (delete_absent (by decide)).symm
  have hremove : SectionStep true holdingOne (.remove absentRef) (.ok ()) holdingOne :=
    (section_sound rfl).2 ⟨congrArg (fun inner => { holdingOne with inner := inner }) hnothing, rfl⟩
  exact .call hremove <| .call ((section_sound rfl).2 ⟨_, _, rfl, rfl, hflush⟩) .done

/-- a delete of nothing that fails at the rename has left the store as it was -/
theorem mutation_atomic_example : ∃ t s', Run (SectionStep true) (method (.delete absentRef)) holdingOne t
      (.error (.err (.transport "disk full"))) s' ∧ (∃ e ∈ t, IoFailed e) ∧ s'.disk.temporary ≠ none ∧
    Unchanged true holdingOne s' := by
  refine ⟨_, _, failedDelete_runs, ⟨_, List.mem_cons_of_mem _ List.mem_cons_self, ?_⟩, Option.some_ne_none _, ?_⟩
  · exact ⟨⟨.rename, .error "disk full"⟩, by simp [renameFails], "disk full", rfl⟩
  · exact (mutation_atomic_iff true _ _ _ _ _ failedDelete_runs).2 (.inr ⟨absentRef, rfl, by decide⟩) ⟨_, rfl⟩

/-- a put that fails at the rename is read back by the next `get` -/
theorem failed_put_is_visible :
    (∃ t, Run FileStep (open_ .standard) ⟨none, none⟩ t (.ok justOpened.inner) justOpened.disk) ∧
      Run (SectionStep true) (method (.put firstSecret)) justOpened failedPut
        (.error (.err (.transport "disk full"))) afterFailedPut ∧
      InMemorySecretStore.get justOpened.inner firstSecret.ref = .error (.err (.notFound "no secret at api-key")) ∧
      (∃ t, Run (SectionStep true) (get firstSecret.ref) afterFailedPut t (.ok firstSecret) afterFailedPut) ∧
      ¬Unchanged true justOpened afterFailedPut := by
  have hmissing : (⟨none, none⟩ : Disk).file = none := rfl
  obtain ⟨t, hopen, -⟩ := open_missing .standard hmissing
  refine ⟨⟨t, hopen⟩, failedPut_runs, rfl, get_runs rfl firstSecret.ref, ?_⟩
  intro h
  have hget := h.get_eq rfl rfl firstSecret.ref
  cases hget

/-! ## The two stores -/

namespace FileSecretStore

/-- a call that returns; a panic is the end of the run -/
def Step (overflowChecks : Bool) (s : Shared) (l : Call × Reply) (s' : Shared) : Prop :=
  ∃ t, Run (SectionStep overflowChecks) (method l.1) s t (l.2.mapError .err) s'

/-- a call that returns, while nothing fails on the disk -/
def SteadyStep (overflowChecks : Bool) (s : Shared) (l : Call × Reply) (s' : Shared) : Prop :=
  ∃ t, Run (SectionStep overflowChecks) (method l.1) s t (l.2.mapError .err) s' ∧ ∀ e ∈ t, ¬IoFailed e

end FileSecretStore

theorem memory_step_iff {order : IterationOrder} {overflowChecks : Bool} {inner inner' : SecretMap} {c : Call}
    {reply : Reply} : InMemorySecretStore.Step order overflowChecks inner (c, reply) inner' ↔
      (∃ returned, InMemorySecretStore.call order overflowChecks inner c = .ok (returned, inner') ∧
          reply = .ok returned) ∨
        ∃ error, InMemorySecretStore.call order overflowChecks inner c = .error (.err error) ∧ reply = .error error ∧
          inner' = inner := by
  refine ⟨?_, ?_⟩
  · intro h
    cases h with
    | ok h => exact .inl ⟨_, h, rfl⟩
    | err h => exact .inr ⟨_, h, rfl, rfl⟩
  · intro h
    rcases h with ⟨returned, h, rfl⟩ | ⟨error, h, rfl, rfl⟩
    · exact .ok h
    · exact .err h

/-- listed refs with one locator are the same ref -/
theorem Keyed.listed_unique {inner : SecretMap} (h : Keyed inner) {namespace_ : String} {a b : SecretRef}
    (ha : a ∈ refsIn namespace_ (values inner)) (hb : b ∈ refsIn namespace_ (values inner))
    (hab : a.locator = b.locator) : a = b := by
  obtain ⟨-, x, hx, rfl⟩ := mem_refsIn.1 ha
  obtain ⟨-, y, hy, rfl⟩ := mem_refsIn.1 hb
  obtain ⟨k, hk⟩ := mem_values.1 hx
  obtain ⟨k', hk'⟩ := mem_values.1 hy
  rw [h k x hk, h k' y hk'] at hab
  rw [hab, hk'] at hk
  rw [Option.some.inj hk]

/-- sorting by locator changes nothing where the values are already in the order of their keys -/
theorem Keyed.list_eq {inner : SecretMap} (h : Keyed inner) (order : IterationOrder) (namespace_ : String) :
    InMemorySecretStore.list order inner namespace_ = refsIn namespace_ (values inner) := by
  have hperm := list_perm order inner namespace_
  have hsorted : (InMemorySecretStore.list order inner namespace_).Pairwise fun a b => a.locator ≤ b.locator := by
    have htotal : ∀ a b : SecretRef, a.locator ≤ b.locator ∨ b.locator ≤ a.locator := fun a b => le_total _ _
    have htrans : ∀ a b c : SecretRef, a.locator ≤ b.locator → b.locator ≤ c.locator → a.locator ≤ c.locator :=
      fun a b c => le_trans
    rw [InMemorySecretStore.list]
    simpa using @List.pairwise_mergeSort SecretRef (fun a b => decide (a.locator ≤ b.locator))
      (by simpa using htrans) (by simpa using htotal) (refsIn namespace_ (order.arrange (values inner)))
  refine hperm.eq_of_pairwise ?_ hsorted ((h.refsIn_sorted namespace_).imp le_of_lt)
  intro a b ha hb hab hba
  exact h.listed_unique (hperm.mem_iff.1 ha) hb (le_antisymm hab hba)

theorem Keyed.insert {inner : SecretMap} (h : Keyed inner) (secret : Secret) :
    Keyed (inner.insert secret.ref.locator secret) := by
  intro k entry hk
  rw [get_insert] at hk
  split_ifs at hk with hkey
  · rw [← Option.some.inj hk]
    exact hkey
  · exact h k entry hk

theorem Keyed.erase {inner : SecretMap} (h : Keyed inner) (k : String) : Keyed (inner.erase k) := by
  intro k' entry hk
  rw [get_erase] at hk
  split_ifs at hk
  exact h k' entry hk

theorem Keyed.step {order : IterationOrder} {overflowChecks : Bool} {inner inner' : SecretMap} {l : Call × Reply}
    (h : Keyed inner) (hs : InMemorySecretStore.Step order overflowChecks inner l inner') : Keyed inner' := by
  obtain ⟨c, reply⟩ := l
  rcases InMemorySecretStore.step_cases hs with ⟨ref, -, rfl⟩ | ⟨secret, -, ⟨-, -, rfl⟩ | ⟨-, rfl⟩⟩ |
    ⟨ref, -, ⟨-, -, rfl⟩ | ⟨-, rfl⟩⟩ | ⟨namespace_, -, rfl⟩
  · exact h
  · exact h.insert (stored inner secret)
  · exact h
  · exact h.erase ref.locator
  · exact h
  · exact h

section
variable {order : IterationOrder} {overflowChecks : Bool} {s s' : Shared} {inner' : SecretMap} {c : Call}
  {reply : Reply}

/-- **The file store does to its map what the in-memory store does**, and answers alike. -/
theorem run_method (order : IterationOrder) (hs : s.poisoned = false) (hk : Keyed s.inner) {t : SectionTrace}
    {r : Except (Stop SecretStoreError) Returned} (h : Run (SectionStep overflowChecks) (method c) s t r s')
    (hclean : ∀ e ∈ t, ¬IoFailed e) :
    (∃ returned, InMemorySecretStore.call order overflowChecks s.inner c = .ok (returned, s'.inner) ∧
        r = .ok returned ∧ s'.poisoned = false ∧
        (s' = s ∨ s'.disk.file = some (.json (SecretMap.codec.encode s'.inner)))) ∨
      ∃ e, InMemorySecretStore.call order overflowChecks s.inner c = .error e ∧ r = .error e ∧
        (s' = s ∨ ∃ message, e = .panic message) := by
  cases c with
  | get ref =>
    obtain ⟨r₀, hrun, rfl⟩ := run_bind_pure.1 h
    obtain ⟨rfl, rfl, -⟩ := run_get hs hrun
    rw [InMemorySecretStore.call]
    cases InMemorySecretStore.get s'.inner ref with
    | ok secret => exact .inl ⟨_, rfl, rfl, hs, .inl rfl⟩
    | error e => exact .inr ⟨e, rfl, rfl, .inl rfl⟩
  | list namespace_ =>
    obtain ⟨r₀, hrun, rfl⟩ := run_bind_pure.1 h
    obtain ⟨rfl, rfl, -⟩ := run_list hs hrun
    rw [InMemorySecretStore.call, hk.list_eq]
    exact .inl ⟨_, rfl, rfl, hs, .inl rfl⟩
  | put secret =>
    obtain ⟨r₀, hrun, rfl⟩ := run_bind_pure.1 h
    rw [InMemorySecretStore.call]
    rcases run_put hs hrun with ⟨result, inner, hput, rfl, hs', hflush⟩ | ⟨e, hput, rfl, hend, -⟩
    · rw [hput]
      rcases hflush with ⟨rfl, hfile, -⟩ | ⟨-, -, e, he, hfailed⟩
      · exact .inl ⟨_, rfl, rfl, hs', .inr hfile⟩
      · exact absurd hfailed (hclean e he)
    · rw [hput]
      exact .inr ⟨e, rfl, rfl, hend.imp_right And.left⟩
  | delete ref =>
    obtain ⟨r₀, hrun, rfl⟩ := run_bind_pure.1 h
    rw [InMemorySecretStore.call]
    rcases run_delete hs hrun with ⟨inner, hdelete, rfl, hs', hflush⟩ | ⟨e, hdelete, rfl, rfl, -⟩
    · rw [hdelete]
      rcases hflush with ⟨rfl, hfile, -⟩ | ⟨-, -, e, he, hfailed⟩
      · exact .inl ⟨_, rfl, rfl, hs', .inr hfile⟩
      · exact absurd hfailed (hclean e he)
    · rw [hdelete]
      exact .inr ⟨e, rfl, rfl, .inl rfl⟩

theorem steady_memory (order : IterationOrder) (hs : s.poisoned = false) (hk : Keyed s.inner)
    (h : SteadyStep overflowChecks s (c, reply) s') :
    InMemorySecretStore.Step order overflowChecks s.inner (c, reply) s'.inner ∧ s'.poisoned = false ∧
      (s' = s ∨ s'.disk.file = some (.json (SecretMap.codec.encode s'.inner))) := by
  obtain ⟨t, hrun, hclean⟩ := h
  rcases run_method order hs hk hrun hclean with ⟨returned, hcall, hr, hend⟩ | ⟨e, hcall, hr, hend⟩
  · cases reply with
    | ok returned' =>
      obtain rfl := Except.ok.inj hr
      exact ⟨.ok hcall, hend⟩
    | error => cases hr
  · cases reply with
    | ok => cases hr
    | error error =>
      obtain rfl := Except.error.inj hr
      rcases hend with rfl | ⟨message, he⟩
      · exact ⟨.err hcall, hs, .inl rfl⟩
      · cases he

theorem memory_steady (hs : s.poisoned = false) (hk : Keyed s.inner)
    (h : InMemorySecretStore.Step order overflowChecks s.inner (c, reply) inner') :
    ∃ s', SteadyStep overflowChecks s (c, reply) s' ∧ s'.inner = inner' := by
  obtain ⟨t, r, s', hrun, hclean⟩ := steady_run overflowChecks (method c) s
  refine ⟨s', ?_⟩
  rcases run_method order hs hk hrun hclean with ⟨returned, hcall, rfl, -⟩ | ⟨e, hcall, rfl, hend⟩
  · rcases memory_step_iff.1 h with ⟨returned', hcall', rfl⟩ | ⟨error, hcall', -, -⟩
    · rw [hcall] at hcall'
      cases hcall'
      exact ⟨⟨t, hrun, hclean⟩, rfl⟩
    · rw [hcall] at hcall'
      cases hcall'
  · rcases memory_step_iff.1 h with ⟨returned', hcall', -⟩ | ⟨error, hcall', rfl, rfl⟩
    · rw [hcall] at hcall'
      cases hcall'
    · rw [hcall] at hcall'
      cases hcall'
      rcases hend with rfl | ⟨message, he⟩
      · exact ⟨⟨t, hrun, hclean⟩, rfl⟩
      · cases he

theorem memory_step_deterministic {inner u u' : SecretMap} {l l' : Call × Reply}
    (h : InMemorySecretStore.Step order overflowChecks inner l u)
    (h' : InMemorySecretStore.Step order overflowChecks inner l' u') (hcall : l.1 = l'.1) : l = l' ∧ u = u' := by
  obtain ⟨c, reply⟩ := l
  obtain ⟨c', reply'⟩ := l'
  obtain rfl : c = c' := hcall
  rcases memory_step_iff.1 h with ⟨returned, hc, rfl⟩ | ⟨error, hc, rfl, rfl⟩
  · rcases memory_step_iff.1 h' with ⟨returned', hc', rfl⟩ | ⟨error', hc', rfl, rfl⟩
    · rw [hc] at hc'
      cases hc'
      exact ⟨rfl, rfl⟩
    · rw [hc] at hc'
      cases hc'
  · rcases memory_step_iff.1 h' with ⟨returned', hc', rfl⟩ | ⟨error', hc', rfl, rfl⟩
    · rw [hc] at hc'
      cases hc'
    · rw [hc] at hc'
      cases hc'
      exact ⟨rfl, rfl⟩

/-- the store that opening the file on a disk gives, when no call of the disk fails -/
def Opens (lib : Externals) (disk : Disk) (s : Shared) : Prop :=
  (∃ t, Run FileStep (open_ lib) disk t (.ok s.inner) s.disk ∧ ∀ e ∈ t, ¬Failed e) ∧ s.poisoned = false

/-- the file store holds the map of the in-memory store, and so does its file -/
structure Mirrors (inner : SecretMap) (s : Shared) : Prop where
  same : s.inner = inner
  sound : s.poisoned = false
  keyed : Keyed inner
  file : s.disk.file = some (.json (SecretMap.codec.encode inner))

theorem Opens.mirrors {lib : Externals} {disk : Disk} (h : Opens lib disk s) (hmissing : disk.file = none) :
    Mirrors ∅ s := by
  obtain ⟨⟨t, hrun, hclean⟩, hs⟩ := h
  obtain ⟨hempty, -, hfile⟩ := open_steady hrun hclean
  have hinner := hempty hmissing
  rw [hinner] at hfile
  exact ⟨hinner, hs, fun k secret hk => by simp at hk, hfile⟩

/-- opening the file again gives the same map -/
theorem Opens.again {lib : Externals} (h : Opens lib s.disk s') (hm : Mirrors inner' s) : Mirrors inner' s' := by
  obtain ⟨⟨t, hrun, hclean⟩, hs⟩ := h
  obtain ⟨-, hheld, hfile⟩ := open_steady hrun hclean
  have hinner := hheld inner' hm.file
  rw [hinner] at hfile
  exact ⟨hinner, hs, hm.keyed, hfile⟩

/-- such a store can be opened again -/
theorem Mirrors.opens (lib : Externals) (hm : Mirrors inner' s) : ∃ s', Opens lib s.disk s' ∧ Mirrors inner' s' := by
  obtain ⟨t, hrun, hclean⟩ := open_written lib hm.file
  exact ⟨⟨inner', _, false⟩, ⟨⟨t, hrun, hclean⟩, rfl⟩, rfl, rfl, hm.keyed, rfl⟩

theorem Mirrors.memory_follows (order : IterationOrder) (h : Mirrors inner' s) {l : Call × Reply}
    (hl : SteadyStep overflowChecks s l s') :
    ∃ u, InMemorySecretStore.Step order overflowChecks inner' l u ∧ Mirrors u s' := by
  obtain ⟨rfl, hs, hk, hfile⟩ := h
  obtain ⟨c, reply⟩ := l
  obtain ⟨hstep, hs', hend⟩ := steady_memory order hs hk hl
  refine ⟨s'.inner, hstep, rfl, hs', hk.step hstep, ?_⟩
  rcases hend with rfl | hfile'
  · exact hfile
  · exact hfile'

theorem Mirrors.file_follows (h : Mirrors inner' s) {l : Call × Reply} {u : SecretMap}
    (hl : InMemorySecretStore.Step order overflowChecks inner' l u) :
    ∃ s', SteadyStep overflowChecks s l s' ∧ Mirrors u s' := by
  obtain ⟨rfl, hs, hk, hfile⟩ := h
  obtain ⟨c, reply⟩ := l
  obtain ⟨s', hstep, rfl⟩ := memory_steady hs hk hl
  obtain ⟨u, hstep', hm⟩ := Mirrors.memory_follows order ⟨rfl, hs, hk, hfile⟩ hstep
  obtain rfl := hm.same
  exact ⟨s', hstep, hm⟩

end

/-- **The two stores cannot be told apart.** From the empty map and from a missing file they have the same sequences of
calls and replies, and the calls decide the replies. -/
theorem stores_equivalent (lib : Externals) (order : IterationOrder) (overflowChecks : Bool) (disk : Disk)
    (hmissing : disk.file = none) (s : Shared) (hopen : Opens lib disk s) :
    (∀ t, (∃ inner, Runs (InMemorySecretStore.Step order overflowChecks) ∅ t inner) ↔
        ∃ s', Runs (SteadyStep overflowChecks) s t s') ∧
      ∀ t t' inner s', Runs (InMemorySecretStore.Step order overflowChecks) ∅ t inner →
        Runs (SteadyStep overflowChecks) s t' s' → t.map Prod.fst = t'.map Prod.fst → t = t' := by
  have hmirrors := hopen.mirrors hmissing
  have hback : ∀ t s', Runs (SteadyStep overflowChecks) s t s' →
      ∃ inner, Runs (InMemorySecretStore.Step order overflowChecks) ∅ t inner := by
    intro t s' h
    have hstep : ∀ s inner l s', Mirrors inner s → SteadyStep overflowChecks s l s' →
        ∃ u, InMemorySecretStore.Step order overflowChecks inner l u ∧ Mirrors u s' :=
      fun _ _ _ _ hm hl => hm.memory_follows order hl
    obtain ⟨inner, hrun, -⟩ := h.simulated hstep hmirrors
    exact ⟨inner, hrun⟩
  refine ⟨fun t => ⟨?_, ?_⟩, ?_⟩
  · intro h
    obtain ⟨inner, h⟩ := h
    have hstep : ∀ inner s l u, Mirrors inner s → InMemorySecretStore.Step order overflowChecks inner l u →
        ∃ s', SteadyStep overflowChecks s l s' ∧ Mirrors u s' := fun _ _ _ _ hm hl => hm.file_follows hl
    obtain ⟨s', hrun, -⟩ := h.simulated hstep hmirrors
    exact ⟨s', hrun⟩
  · intro h
    obtain ⟨s', h⟩ := h
    exact hback t s' h
  · intro t t' inner s' h h' hcalls
    obtain ⟨inner', hmemory⟩ := hback t' s' h'
    exact (h.deterministic (fun _ _ _ _ _ => memory_step_deterministic) hmemory hcalls).1

theorem justOpened_opens : Opens .standard ⟨none, none⟩ justOpened := ⟨open_missing .standard rfl, rfl⟩

/-- the file store runs through two puts, a delete and a list as the in-memory store does, and answers nothing else -/
theorem stores_equivalent_example : (∃ s', Runs (SteadyStep true) justOpened putPutDeleteList s') ∧
    ∀ t s', Runs (SteadyStep true) justOpened t s' → putPutDeleteList.map Prod.fst = t.map Prod.fst →
      putPutDeleteList = t := by
  obtain ⟨hsame, hreplies⟩ := stores_equivalent .standard keyOrder true ⟨none, none⟩ rfl justOpened justOpened_opens
  refine ⟨(hsame putPutDeleteList).1 ⟨oneLeft, putPutDeleteList_runs⟩, ?_⟩
  intro t s' h hcalls
  exact hreplies _ t oneLeft s' putPutDeleteList_runs h hcalls

end PhenoCompose
