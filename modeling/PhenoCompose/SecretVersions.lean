/-
The version that is kept with a stored secret.

- `Counts`: the version under a locator is the number of puts there since the last delete, as a `u64`.
- `versions_increase`: successive puts of a ref get increasing versions in a run where no put of it follows a delete at its
  locator, and no version is the last one; in memory, and over openings of the file.
- `no_lost_update_iff`: of clients that put back what they read, none overwrites an update exactly when none is stale: the
  version a put carries is never looked at.
-/
import PhenoCompose.FileStoreResults

namespace PhenoCompose

open Core.Collections Core.Process Core.Rendered Core.Transition SecretStore FileSecretStore

/-! ## Versions count puts -/

/-- the version under each locator is the number of puts since the last delete there -/
def Counts (inner : SecretMap) (updates : List (Update SecretRef String)) : Prop :=
  ∀ k : String, inner[k]?.map (·.version) =
    if putsSinceDelete SecretRef.locator updates k = 0 then none
    else some (UInt64.ofNat (putsSinceDelete SecretRef.locator updates k))

theorem counts_empty : Counts ∅ [] := fun k => by simp [putsSinceDelete]

section
variable {inner inner' : SecretMap} {updates : List (Update SecretRef String)}

theorem Counts.versionAfter (h : Counts inner updates) (k : String) :
    versionAfter inner[k]? = UInt64.ofNat (putsSinceDelete SecretRef.locator updates k + 1) := by
  have hk := h k
  cases hentry : inner[k]? with
  | none =>
    rw [hentry] at hk
    split_ifs at hk with hzero
    · rw [hzero]
      rfl
    · cases hk
  | some existing =>
    rw [hentry] at hk
    split_ifs at hk with hzero
    · cases hk
    · rw [SecretStore.versionAfter, UInt64.ofNat_add, ← Option.some.inj hk]
      rfl

theorem Counts.put (h : Counts inner updates) (secret : Secret) :
    Counts (inner.insert secret.ref.locator (stored inner secret)) (.put secret.ref secret.value :: updates) := by
  intro k
  rw [get_insert, putsSinceDelete]
  by_cases hk : secret.ref.locator = k
  · rw [if_pos hk, if_pos hk, if_neg (Nat.succ_ne_zero _), ← hk]
    exact congrArg some (h.versionAfter secret.ref.locator)
  · rw [if_neg hk, if_neg hk]
    exact h k

theorem Counts.delete (h : Counts inner updates) (ref : SecretRef) :
    Counts (inner.erase ref.locator) (.delete ref :: updates) := by
  intro k
  rw [get_erase, putsSinceDelete]
  by_cases hk : ref.locator = k
  · rw [if_pos hk, if_pos hk]
    rfl
  · rw [if_neg hk, if_neg hk]
    exact h k

end

/-- the secrets that the puts of a ref stored, one after the other -/
def putsOf (ref : SecretRef) (t : List (Call × Reply)) : List Secret :=
  t.filterMap fun
    | (.put secret, .ok (.secret stored)) => if secret.ref = ref then some stored else none
    | _ => none

/-- the versions of each ref go up, so that no two of its puts get the same one -/
def Increasing (t : List (Call × Reply)) : Prop :=
  ∀ ref, (putsOf ref t).Pairwise (·.version < ·.version) ∧
    ∀ a ∈ putsOf ref t, ∀ b ∈ putsOf ref t, a.version = b.version → a = b

/-- after these updates, a put of `ref` goes on counting where the last put of it did -/
def Continues (updates : List (Update SecretRef String)) (ref : SecretRef) : Prop :=
  ¬Interrupted SecretRef.locator ref updates ∧ putsSinceDelete SecretRef.locator updates ref.locator < 2 ^ 64 - 1

/-- every put of the run goes on counting -/
def Continued (t : List (Call × Reply)) : Prop :=
  ∀ t₁ secret reply t₂, t = t₁ ++ (.put secret, reply) :: t₂ → Continues (history t₁) secret.ref

theorem Continued.init {t : List (Call × Reply)} {l : Call × Reply} (h : Continued (t ++ [l])) : Continued t := by
  intro t₁ secret reply t₂ ht
  exact h t₁ secret reply (t₂ ++ [l]) (by rw [ht, List.append_assoc, List.cons_append])

theorem continued_nil : Continued [] := by
  intro t₁ secret reply t₂ ht
  exact absurd ht.symm (List.append_ne_nil_of_right_ne_nil _ (List.cons_ne_nil _ _))

theorem Continued.snoc {t : List (Call × Reply)} {l : Call × Reply} (h : Continued t)
    (hl : ∀ secret, l.1 = .put secret → Continues (history t) secret.ref) : Continued (t ++ [l]) := by
  intro t₁ secret reply t₂ ht
  rcases List.eq_nil_or_concat t₂ with rfl | ⟨t₃, l', rfl⟩
  · obtain ⟨rfl, he⟩ := List.append_inj' ht rfl
    exact hl secret (congrArg Prod.fst (List.cons.inj he).1)
  · rw [List.concat_eq_append, ← List.cons_append, ← List.append_assoc] at ht
    exact h t₁ secret reply t₃ (List.append_inj' ht rfl).1

theorem putsOf_snoc (ref : SecretRef) (t : List (Call × Reply)) (l : Call × Reply) :
    putsOf ref (t ++ [l]) = putsOf ref t ++ putsOf ref [l] := List.filterMap_append

theorem putsOf_put (ref : SecretRef) (secret stored : Secret) :
    putsOf ref [(.put secret, .ok (.secret stored))] = if secret.ref = ref then [stored] else [] := by
  by_cases href : secret.ref = ref
  · simp [putsOf, href]
  · simp [putsOf, href]

theorem mem_history_of_put {ref : SecretRef} {t : List (Call × Reply)} {stored : Secret} (h : stored ∈ putsOf ref t) :
    ∃ value, .put ref value ∈ history t := by
  obtain ⟨⟨c, reply⟩, hm, hl⟩ := List.mem_filterMap.1 h
  split at hl
  next secret stored' he =>
    cases he
    split_ifs at hl with href
    refine ⟨secret.value, List.mem_reverse.2 (List.mem_filterMap.2 ⟨_, hm, ?_⟩)⟩
    rw [effect, href]
  next => cases hl

/-- versions go up, and those of a ref that has not been interrupted are at most the count at its locator -/
structure Versioned (t : List (Call × Reply)) (inner : SecretMap) : Prop where
  counts : Counts inner (history t)
  increasing : ∀ ref, (putsOf ref t).Pairwise (·.version < ·.version)
  bounded : ∀ ref, ¬Interrupted SecretRef.locator ref (history t) → ∀ a ∈ putsOf ref t,
    a.version.toNat ≤ putsSinceDelete SecretRef.locator (history t) ref.locator

theorem versioned_nil : Versioned [] ∅ := ⟨counts_empty, fun _ => List.Pairwise.nil, fun _ _ a ha => by cases ha⟩

section
variable {order : IterationOrder} {overflowChecks : Bool} {inner inner' : SecretMap} {t : List (Call × Reply)}

theorem Versioned.keep (h : Versioned t inner) {l : Call × Reply} (heffect : effect l = none)
    (hputs : ∀ ref, putsOf ref [l] = []) : Versioned (t ++ [l]) inner := by
  obtain ⟨hc, hi, hb⟩ := h
  have hhistory : history (t ++ [l]) = history t := by rw [history_snoc, heffect]; rfl
  have hsame : ∀ ref, putsOf ref (t ++ [l]) = putsOf ref t := by
    intro ref
    rw [putsOf_snoc, hputs, List.append_nil]
  refine ⟨by rwa [hhistory], fun ref => by rw [hsame]; exact hi ref, ?_⟩
  intro ref
  rw [hhistory, hsame]
  exact hb ref

/-- the version a put gives is the next number, where counting goes on -/
theorem stored_version (h : Counts inner (history t)) {secret : Secret}
    (hcontinues : Continues (history t) secret.ref) : (stored inner secret).version.toNat =
      putsSinceDelete SecretRef.locator (history t) secret.ref.locator + 1 := by
  have hsmall := hcontinues.2
  rw [stored, h.versionAfter, UInt64.toNat_ofNat_of_lt']
  show _ < 2 ^ 64
  omega

theorem Versioned.put (h : Versioned t inner) {secret : Secret} (hcontinues : Continues (history t) secret.ref) :
    Versioned (t ++ [(.put secret, .ok (.secret (stored inner secret)))])
      (inner.insert secret.ref.locator (stored inner secret)) := by
  obtain ⟨hc, hi, hb⟩ := h
  have hversion := stored_version hc hcontinues
  have hhistory : history (t ++ [(.put secret, .ok (.secret (stored inner secret)))]) =
      .put secret.ref secret.value :: history t := history_snoc _ _
  refine ⟨?_, ?_, ?_⟩
  · rw [hhistory]
    exact hc.put secret
  · intro ref
    rw [putsOf_snoc, putsOf_put]
    split_ifs with href
    · subst href
      refine List.pairwise_append.2 ⟨hi _, List.pairwise_singleton _ _, ?_⟩
      intro a ha b hb'
      have hle := hb _ hcontinues.1 a ha
      rw [List.mem_singleton.1 hb', UInt64.lt_iff_toNat_lt]
      omega
    · rw [List.append_nil]
      exact hi ref
  · intro ref hclear a ha
    rw [hhistory] at hclear ⊢
    rw [putsOf_snoc, putsOf_put, List.mem_append] at ha
    have hle : a ∈ putsOf ref t → a.version.toNat ≤ putsSinceDelete SecretRef.locator (history t) ref.locator :=
      hb ref hclear a
    rw [putsSinceDelete]
    rcases ha with ha | ha
    · have := hle ha
      split_ifs
      · omega
      · exact this
    · split_ifs at ha with href
      · obtain rfl := href
        rw [List.mem_singleton.1 ha, hversion, if_pos rfl]
      · cases ha

theorem Versioned.delete (h : Versioned t inner) (ref : SecretRef) :
    Versioned (t ++ [(.delete ref, .ok .unit)]) (inner.erase ref.locator) := by
  obtain ⟨hc, hi, hb⟩ := h
  have hhistory : history (t ++ [(.delete ref, .ok .unit)]) = .delete ref :: history t := history_snoc _ _
  have hsame : ∀ ref', putsOf ref' (t ++ [(.delete ref, .ok .unit)]) = putsOf ref' t := by
    intro ref'
    rw [putsOf_snoc]
    exact List.append_nil _
  refine ⟨?_, ?_, ?_⟩
  · rw [hhistory]
    exact hc.delete ref
  · intro ref'
    rw [hsame]
    exact hi ref'
  · intro ref' hclear a ha
    rw [hhistory] at hclear ⊢
    rw [hsame] at ha
    rw [Interrupted, not_or] at hclear
    rw [putsSinceDelete]
    split_ifs with hkey
    · exact absurd ⟨hkey, mem_history_of_put ha⟩ hclear.2
    · exact hb ref' hclear.1 a ha

theorem memory_versioned (h : Runs (InMemorySecretStore.Step order overflowChecks) ∅ t inner)
    (hputs : Continued t) : Versioned t inner := by
  refine h.history (P := fun t inner => Continued t → Versioned t inner) (fun _ => versioned_nil) ?_ hputs
  intro t u l v _ hu hl hputs
  have ht := hu hputs.init
  obtain ⟨c, reply⟩ := l
  rcases InMemorySecretStore.step_cases hl with ⟨ref, rfl, rfl⟩ | ⟨secret, rfl, ⟨rfl, -, rfl⟩ | ⟨⟨e, rfl⟩, rfl⟩⟩ |
    ⟨ref, rfl, ⟨rfl, -, rfl⟩ | ⟨⟨e, rfl⟩, rfl⟩⟩ | ⟨namespace_, rfl, rfl⟩
  · exact ht.keep rfl fun _ => rfl
  · exact ht.put (hputs t secret _ [] rfl)
  · exact ht.keep rfl fun _ => rfl
  · exact ht.delete ref
  · exact ht.keep rfl fun _ => rfl
  · exact ht.keep rfl fun _ => rfl

end

theorem Versioned.all_increase {t : List (Call × Reply)} {inner : SecretMap} (h : Versioned t inner) :
    Increasing t := by
  intro ref
  refine ⟨h.increasing ref, ?_⟩
  have hnodup : ((putsOf ref t).map (·.version)).Nodup := by
    rw [List.Nodup, List.pairwise_map]
    exact (h.increasing ref).imp fun hlt => UInt64.ne_of_lt hlt
  intro a ha b hb hab
  exact List.inj_on_of_nodup_map hnodup ha hb hab

/-! ## Opening the file again -/

/-- a call in which nothing fails on the disk, or the store is dropped and the file opened again -/
def LifeStep (lib : Externals) (overflowChecks : Bool) (s : Shared) : Option (Call × Reply) → Shared → Prop
  | some l, s' => SteadyStep overflowChecks s l s'
  | none, s' => Opens lib s.disk s'

section
variable {lib : Externals} {order : IterationOrder} {overflowChecks : Bool} {s s' : Shared} {inner inner' : SecretMap}

/-- the calls of such a run are a run of the in-memory store -/
theorem life_memory (order : IterationOrder) {t : List (Option (Call × Reply))}
    (h : Runs (LifeStep lib overflowChecks) s t s') (hm : Mirrors inner s) :
    ∃ inner', Runs (InMemorySecretStore.Step order overflowChecks) inner (t.filterMap id) inner' ∧
      Mirrors inner' s' := by
  induction h generalizing inner with
  | nil => exact ⟨inner, .nil, hm⟩
  | @cons s u v l t hl _ ih =>
    cases l with
    | none =>
      obtain ⟨inner', hrest, hm'⟩ := ih (Opens.again hl hm)
      exact ⟨inner', hrest, hm'⟩
    | some l =>
      obtain ⟨inner₁, hstep, hm₁⟩ := hm.memory_follows order hl
      obtain ⟨inner', hrest, hm'⟩ := ih hm₁
      exact ⟨inner', .cons hstep hrest, hm'⟩

/-- and the in-memory store's calls are made by the file store, wherever its file is opened again between them -/
theorem memory_life {t : List (Option (Call × Reply))}
    (h : Runs (InMemorySecretStore.Step order overflowChecks) inner (t.filterMap id) inner') (hm : Mirrors inner s) :
    ∃ s', Runs (LifeStep lib overflowChecks) s t s' := by
  induction t generalizing inner s with
  | nil => exact ⟨s, .nil⟩
  | cons l t ih =>
    cases l with
    | none =>
      obtain ⟨u, hopen, hu⟩ := hm.opens lib
      obtain ⟨s', hrest⟩ := ih h hu
      exact ⟨s', .cons hopen hrest⟩
    | some l =>
      obtain ⟨inner₁, hl, hmemory⟩ := runs_cons.1 h
      obtain ⟨u, hstep, hu⟩ := hm.file_follows hl
      obtain ⟨s', hrest⟩ := ih hmemory hu
      exact ⟨s', .cons hstep hrest⟩

end

/-- **Versions increase** where no put of a ref follows a delete at its locator after an earlier put of it, and no version
is the last: in every run of the in-memory store, and of the file store over any number of openings of its file. -/
theorem versions_increase (lib : Externals) (order : IterationOrder) (overflowChecks : Bool) :
    (∀ t inner, Runs (InMemorySecretStore.Step order overflowChecks) ∅ t inner → Continued t → Increasing t) ∧
      ∀ disk s t s', disk.file = none → Opens lib disk s → Runs (LifeStep lib overflowChecks) s t s' →
        Continued (t.filterMap id) → Increasing (t.filterMap id) := by
  refine ⟨?_, ?_⟩
  · intro t inner h hputs
    exact (memory_versioned h hputs).all_increase
  · intro disk s t s' hmissing hopen h hputs
    obtain ⟨inner, hrun, -⟩ := life_memory order h (hopen.mirrors hmissing)
    exact (memory_versioned hrun hputs).all_increase

/-! ### A ref that is put again -/

def secondSecret : Secret := ⟨firstSecret.ref, "v2", 1⟩

def thirdSecret : Secret := ⟨firstSecret.ref, "v3", 1⟩

/-- a put, the file opened again, and two more puts of the same ref -/
def putsOverOpenings : List (Option (Call × Reply)) :=
  [some (.put firstSecret, .ok (.secret firstSecret)), none,
    some (.put secondSecret, .ok (.secret { secondSecret with version := 2 })),
    some (.put thirdSecret, .ok (.secret { thirdSecret with version := 3 }))]

theorem putsOverOpenings_run : ∃ s', Runs (LifeStep .standard true) justOpened putsOverOpenings s' := by
  let second := oneSecret.insert "api-key" { secondSecret with version := 2 }
  let third := second.insert "api-key" { thirdSecret with version := 3 }
  have hmemory : Runs (InMemorySecretStore.Step keyOrder true) ∅ (putsOverOpenings.filterMap id) third :=
    .cons (u := oneSecret) (.ok rfl) <| .cons (u := second) (.ok rfl) <| .cons (.ok rfl) .nil
  exact memory_life hmemory (justOpened_opens.mirrors rfl)

theorem putsOverOpenings_continue : Continued (putsOverOpenings.filterMap id) := by
  refine ((continued_nil.snoc ?_).snoc ?_).snoc ?_
  · intro secret hcall
    cases hcall
    exact ⟨id, by decide⟩
  · intro secret hcall
    cases hcall
    exact ⟨id, by decide⟩
  · intro secret hcall
    cases hcall
    exact ⟨id, by decide⟩

/-- three puts of a ref, the second one after its file was opened again, get the versions 1, 2 and 3 -/
theorem versions_increase_example : (∃ s', Runs (LifeStep .standard true) justOpened putsOverOpenings s') ∧
    (putsOf firstSecret.ref (putsOverOpenings.filterMap id)).map (·.version) = [1, 2, 3] ∧
    Increasing (putsOverOpenings.filterMap id) := by
  obtain ⟨s', hrun⟩ := putsOverOpenings_run
  refine ⟨⟨s', hrun⟩, by decide, ?_⟩
  exact (versions_increase .standard keyOrder true).2 ⟨none, none⟩ justOpened putsOverOpenings s' rfl
    justOpened_opens hrun putsOverOpenings_continue

/-! ### A ref that is deleted and put again -/

def putDeletePut : List (Call × Reply) :=
  [(.put firstSecret, .ok (.secret firstSecret)), (.delete firstSecret.ref, .ok .unit),
    (.put secondSecret, .ok (.secret secondSecret))]

/-- after a delete the versions start again at 1: two values under one version -/
theorem delete_restarts_versions :
    Runs (InMemorySecretStore.Step keyOrder true) ∅ putDeletePut
        ((oneSecret.erase "api-key").insert "api-key" secondSecret) ∧
      putsOf firstSecret.ref putDeletePut = [firstSecret, secondSecret] ∧
      firstSecret.version = secondSecret.version ∧ firstSecret.value ≠ secondSecret.value ∧
      ¬Increasing putDeletePut := by
  refine ⟨?_, by decide, by decide, by decide, ?_⟩
  · exact .cons (u := oneSecret) (.ok rfl) <| .cons (.ok rfl) <| .cons (.ok rfl) .nil
  · intro h
    exact absurd (h firstSecret.ref).1 (by decide)

/-! ## Clients that put back what they read -/

section
variable {overflowChecks : Bool} {s s' : Shared}

/-- a secret that was read is stored there, and its ref has a name -/
theorem get_step_found {ref : SecretRef} {got : Secret} (h : Step overflowChecks s (.get ref, .ok (.secret got)) s') :
    ref.name ≠ "" ∧ s.inner[ref.locator]? = some got := by
  obtain ⟨t, h⟩ := h
  obtain ⟨r₀, hrun, hr⟩ := run_bind_pure.1 h
  rcases run_lift_bind.1 hrun with ⟨⟨⟩, hname, hrun⟩ | ⟨e, -, -, rfl, -⟩
  · refine ⟨validateRef_ok.1 hname, ?_⟩
    rcases run_callOr_bind.1 hrun with ⟨entry, u, t', hstep, hrest, -⟩ | ⟨message, -, -, rfl⟩
    · by_cases hs : s.poisoned = true
      · obtain ⟨-, message, he⟩ := section_poisoned hs hstep
        cases he
      · rw [Bool.not_eq_true] at hs
        obtain ⟨-, he⟩ := (section_sound hs).1 hstep
        obtain rfl := Except.ok.inj he
        cases hentry : s.inner[ref.locator]? with
        | some secret =>
          rw [hentry] at hrest
          obtain ⟨-, rfl, -⟩ := run_pure.1 hrest
          cases hr
          rfl
        | none =>
          rw [hentry] at hrest
          obtain ⟨-, rfl, -⟩ := run_fail.1 hrest
          cases hr
    · cases hr
  · cases hr

theorem get_step_keeps {ref : SecretRef} {reply : Reply} (h : Step overflowChecks s (.get ref, reply) s') : s' = s := by
  obtain ⟨t, h⟩ := h
  by_cases hs : s.poisoned = true
  · exact (run_poisoned hs h).1
  · rw [Bool.not_eq_true] at hs
    obtain ⟨r₀, hrun, -⟩ := run_bind_pure.1 h
    exact (run_get hs hrun).2.1

/-- a put of a named ref that returns has stored its secret, also when the flush failed -/
theorem put_step_stored {secret : Secret} {reply : Reply} (hname : secret.ref.name ≠ "")
    (h : Step overflowChecks s (.put secret, reply) s') :
    s'.inner = s.inner.insert secret.ref.locator (stored s.inner secret) := by
  obtain ⟨t, h⟩ := h
  obtain ⟨r₀, hrun, hr⟩ := run_bind_pure.1 h
  by_cases hs : s.poisoned = true
  · rcases run_lift_bind.1 hrun with ⟨⟨⟩, -, hrun⟩ | ⟨e, he, -, -, -⟩
    · rcases run_callOr_bind.1 hrun with ⟨value, u, t', hstep, -, -⟩ | ⟨message, -, -, rfl⟩
      · obtain ⟨-, message, he⟩ := section_poisoned hs hstep
        cases he
      · cases reply with
        | ok => cases hr
        | error => cases hr
    · exact absurd (validateRef_err he).1 hname
  · rw [Bool.not_eq_true] at hs
    rcases run_put hs hrun with ⟨result, inner, hput, rfl, -, -⟩ | ⟨e, hput, rfl, -, -⟩
    · obtain ⟨⟨⟩, -, hsection⟩ := bind_eq_ok.1 hput
      exact (putSection_ok.1 hsection).2.2
    · rw [InMemorySecretStore.put, (validateRef_ok (u := ())).2 hname, ok_bind] at hput
      obtain rfl := putSection_panics hput
      cases reply with
      | ok => cases hr
      | error => cases hr

end

/-- a call of a client, with the map it found and the map it left -/
structure Access (ι : Type) where
  client : ι
  call : Call
  reply : Reply
  before : SecretMap
  after : SecretMap

section
variable {ι : Type}

def ClientStep (overflowChecks : Bool) (s : Shared) (l : Access ι) (s' : Shared) : Prop :=
  Step overflowChecks s (l.call, l.reply) s' ∧ l.before = s.inner ∧ l.after = s'.inner

/-- clients that get, and put back what they got under the version they read, which is not 0 -/
structure PutsBack (t : List (Access ι)) : Prop where
  calls : ∀ l ∈ t, (∃ ref, l.call = .get ref) ∨ ∃ secret, l.call = .put secret
  read : ∀ t₁ l t₂ secret, t = t₁ ++ l :: t₂ → l.call = .put secret → secret.version ≠ 0 ∧
    ∃ g ∈ t₁, g.client = l.client ∧ g.call = .get secret.ref ∧
      ∃ got, g.reply = .ok (.secret got) ∧ got.version = secret.version

/-- two puts of one ref that were based on one version, and succeeded -/
def Clash (a b : Access ι) : Prop :=
  ∃ x y, a.call = .put x ∧ b.call = .put y ∧ x.ref = y.ref ∧ x.version = y.version ∧
    (∃ r, a.reply = .ok r) ∧ ∃ r, b.reply = .ok r

/-- of two puts based on one version at most one succeeds, and a put that carries another version than the stored one is
rejected and changes nothing -/
structure NoLostUpdate (t : List (Access ι)) : Prop where
  once : t.Pairwise fun a b => ¬Clash a b
  rejected : ∀ l ∈ t, ∀ secret existing, l.call = .put secret → l.before[secret.ref.locator]? = some existing →
    existing.version ≠ secret.version → (∃ message, l.reply = .error (.validation message)) ∧ l.after = l.before

/-- every put carries the version that is stored when it is called -/
def Current (t : List (Access ι)) : Prop :=
  ∀ l ∈ t, ∀ secret existing, l.call = .put secret → l.before[secret.ref.locator]? = some existing →
    existing.version = secret.version

theorem PutsBack.init {t : List (Access ι)} {l : Access ι} (h : PutsBack (t ++ [l])) : PutsBack t := by
  refine ⟨fun l' hl' => h.calls l' (List.mem_append_left _ hl'), ?_⟩
  intro t₁ l' t₂ secret ht hcall
  exact h.read t₁ l' (t₂ ++ [l]) secret (by rw [ht, List.append_assoc, List.cons_append]) hcall

theorem putsBack_nil : PutsBack ([] : List (Access ι)) := by
  refine ⟨nofun, ?_⟩
  intro t₁ l t₂ secret ht
  exact absurd ht.symm (List.append_ne_nil_of_right_ne_nil _ (List.cons_ne_nil _ _))

/-- one more access: it gets, or it puts back what was read -/
theorem PutsBack.snoc {t : List (Access ι)} {l : Access ι} (h : PutsBack t)
    (hl : (∃ ref, l.call = .get ref) ∨ ∃ secret, l.call = .put secret ∧ secret.version ≠ 0 ∧
      ∃ g ∈ t, g.client = l.client ∧ g.call = .get secret.ref ∧
        ∃ got, g.reply = .ok (.secret got) ∧ got.version = secret.version) : PutsBack (t ++ [l]) := by
  refine ⟨?_, ?_⟩
  · intro l' hl'
    rcases List.mem_append.1 hl' with hl' | hl'
    · exact h.calls l' hl'
    · rw [List.mem_singleton.1 hl']
      exact hl.imp_right fun ⟨secret, hcall, _⟩ => ⟨secret, hcall⟩
  · intro t₁ l' t₂ secret ht hcall
    rcases t₂.eq_nil_or_concat with rfl | ⟨t₃, l'', rfl⟩
    · obtain ⟨rfl, hsame⟩ := List.append_inj' ht rfl
      obtain rfl := List.singleton_inj.1 hsame
      rcases hl with ⟨ref, hget⟩ | ⟨secret', hput, hread, hg⟩
      · rw [hget] at hcall
        cases hcall
      · rw [hput] at hcall
        obtain rfl := Call.put.inj hcall
        exact ⟨hread, hg⟩
    · rw [List.concat_eq_append, ← List.cons_append, ← List.append_assoc] at ht
      exact h.read t₁ l' t₃ secret (List.append_inj' ht rfl).1 hcall

/-- counting up passes every number but the last, which it takes to 0 -/
theorem lt_succ_or_zero (n : UInt64) : n + 1 = 0 ∨ n < n + 1 := by
  have := n.toNat_lt
  by_cases hlast : n.toNat = 2 ^ 64 - 1
  · left
    apply UInt64.toNat_inj.1
    rw [UInt64.toNat_add, hlast]
    rfl
  · right
    rw [UInt64.lt_iff_toNat_lt, UInt64.toNat_add]
    show n.toNat < (n.toNat + 1) % 2 ^ 64
    omega

/-- the secrets that were read are still stored, and the versions that puts carried have been passed, unless the count has
come to 0 -/
structure Passed (t : List (Access ι)) (s : Shared) : Prop where
  present : ∀ g ∈ t, ∀ ref got, g.call = .get ref → g.reply = .ok (.secret got) →
    ∃ existing, s.inner[ref.locator]? = some existing
  passed : ∀ a ∈ t, ∀ x, a.call = .put x →
    ∃ existing, s.inner[x.ref.locator]? = some existing ∧ (existing.version = 0 ∨ x.version < existing.version)

theorem Passed.get {t : List (Access ι)} {s s' : Shared} {overflowChecks : Bool} {l : Access ι} (h : Passed t s)
    (hl : ClientStep overflowChecks s l s') {ref : SecretRef} (hcall : l.call = .get ref) : Passed (t ++ [l]) s' := by
  obtain ⟨hstep, -, -⟩ := hl
  rw [hcall] at hstep
  obtain rfl := get_step_keeps hstep
  refine ⟨?_, ?_⟩
  · intro g hg ref' got hcall' hreply
    rcases List.mem_append.1 hg with hg | hg
    · exact h.present g hg ref' got hcall' hreply
    · obtain rfl := List.mem_singleton.1 hg
      rw [hcall] at hcall'
      obtain rfl := Call.get.inj hcall'
      rw [hreply] at hstep
      exact ⟨got, (get_step_found hstep).2⟩
  · intro a ha x hx
    rcases List.mem_append.1 ha with ha | ha
    · exact h.passed a ha x hx
    · obtain rfl := List.mem_singleton.1 ha
      rw [hcall] at hx
      cases hx

/-- a put of what is current moves its version on -/
theorem Passed.put {t : List (Access ι)} {s s' : Shared} {l : Access ι} {y existing : Secret}
    (h : Passed t s) (hinner : s'.inner = s.inner.insert y.ref.locator (stored s.inner y)) (hcall : l.call = .put y)
    (hentry : s.inner[y.ref.locator]? = some existing) (hcurrent : existing.version = y.version)
    (hread : y.version ≠ 0) : Passed (t ++ [l]) s' := by
  have hversion : (stored s.inner y).version = existing.version + 1 := by rw [stored, hentry]; rfl
  -- the new version has passed whatever the old one had, and the version the put carried
  have hpassed : ∀ n : UInt64, n = existing.version ∨ n < existing.version →
      (stored s.inner y).version = 0 ∨ n < (stored s.inner y).version := by
    intro n hn
    rw [hversion]
    refine (lt_succ_or_zero existing.version).imp_right ?_
    intro hlt
    rcases hn with rfl | hn
    · exact hlt
    · exact UInt64.lt_trans hn hlt
  refine ⟨?_, ?_⟩
  · intro g hg ref got hg' hreply
    rw [hinner, get_insert]
    split_ifs with hkey
    · exact ⟨_, rfl⟩
    · rcases List.mem_append.1 hg with hg | hg
      · exact h.present g hg ref got hg' hreply
      · rw [List.mem_singleton.1 hg, hcall] at hg'
        cases hg'
  · intro a ha x hx
    rw [hinner, get_insert]
    rcases List.mem_append.1 ha with ha | ha
    · obtain ⟨entry, he, hn⟩ := h.passed a ha x hx
      split_ifs with hkey
      · rw [← hkey, hentry] at he
        obtain rfl := Option.some.inj he
        refine ⟨_, rfl, hpassed x.version ?_⟩
        rcases hn with hzero | hlt
        · exact absurd (hcurrent ▸ hzero) hread
        · exact .inr hlt
      · exact ⟨entry, he, hn⟩
    · rw [List.mem_singleton.1 ha, hcall] at hx
      obtain rfl := Call.put.inj hx
      rw [if_pos rfl]
      exact ⟨_, rfl, hpassed y.version (.inl hcurrent.symm)⟩

section
variable {overflowChecks : Bool} {s s' : Shared} {t : List (Access ι)}

/-- where clients put back what they read, a put is of a named ref -/
theorem PutsBack.named (hback : PutsBack t) (h : Runs (ClientStep overflowChecks) s t s') {l : Access ι} (hl : l ∈ t)
    {secret : Secret} (hcall : l.call = .put secret) : secret.ref.name ≠ "" := by
  obtain ⟨t₁, t₂, ht⟩ := List.append_of_mem hl
  obtain ⟨-, g, hg, -, hget, got, hreply, -⟩ := hback.read t₁ l t₂ secret ht hcall
  obtain ⟨u, v, hstep, -, -⟩ := h.step_of_mem (ht ▸ List.mem_append_left _ hg)
  rw [hget, hreply] at hstep
  exact (get_step_found hstep).1

/-- with every put current, at most one put based on a version is made, and all of them have been passed -/
theorem current_passed (h : Runs (ClientStep overflowChecks) s t s') (hback : PutsBack t) (hcurrent : Current t) :
    (t.Pairwise fun a b => ¬Clash a b) ∧ Passed t s' := by
  refine h.history (P := fun t u => PutsBack t → Current t → (t.Pairwise fun a b => ¬Clash a b) ∧ Passed t u) ?_ ?_
    hback hcurrent
  · intro _ _
    exact ⟨.nil, nofun, nofun⟩
  · intro t u l v ht hu hl hback hcurrent
    obtain ⟨hpairs, hpassed⟩ := hu hback.init fun l' hl' => hcurrent l' (List.mem_append_left _ hl')
    have hmem : l ∈ t ++ [l] := List.mem_append_right _ (List.mem_singleton_self l)
    rw [List.pairwise_append]
    rcases hback.calls l hmem with ⟨ref, hcall⟩ | ⟨y, hcall⟩
    · refine ⟨⟨hpairs, List.pairwise_singleton _ _, ?_⟩, hpassed.get hl hcall⟩
      intro a _ b hb hclash
      obtain ⟨x, z, -, hz, -⟩ := hclash
      rw [List.mem_singleton.1 hb, hcall] at hz
      cases hz
    · obtain ⟨hread, g, hg, -, hget, got, hreply, -⟩ := hback.read t l [] y rfl hcall
      obtain ⟨existing, hentry⟩ := hpassed.present g hg y.ref got hget hreply
      have hname := hback.named (runs_snoc.2 ⟨u, ht, hl⟩) hmem hcall
      obtain ⟨hstep, hbefore, -⟩ := hl
      rw [hcall] at hstep
      have hsame := hcurrent l hmem y existing hcall (by rw [hbefore]; exact hentry)
      refine ⟨⟨hpairs, List.pairwise_singleton _ _, ?_⟩,
        hpassed.put (put_step_stored hname hstep) hcall hentry hsame hread⟩
      intro a ha b hb hclash
      obtain ⟨x, z, hx, hz, href, hversion, -⟩ := hclash
      rw [List.mem_singleton.1 hb, hcall] at hz
      obtain rfl := Call.put.inj hz
      obtain ⟨entry, he, hn⟩ := hpassed.passed a ha x hx
      rw [href, hentry] at he
      obtain rfl := Option.some.inj he
      rcases hn with hzero | hlt
      · exact hread (hsame ▸ hzero)
      · rw [hversion, hsame] at hlt
        exact absurd hlt (UInt64.lt_irrefl _)

end

/-- **No update is lost** exactly when every put carries the version that is stored as it is called: the version is never
looked at. -/
theorem no_lost_update_iff (overflowChecks : Bool) (s s' : Shared) (t : List (Access ι))
    (h : Runs (ClientStep overflowChecks) s t s') (hback : PutsBack t) : NoLostUpdate t ↔ Current t := by
  refine ⟨?_, ?_⟩
  · intro hno l hl secret existing hcall hentry
    by_contra hne
    obtain ⟨-, hafter⟩ := hno.rejected l hl secret existing hcall hentry hne
    obtain ⟨u, v, hstep, hbefore, hafter'⟩ := h.step_of_mem hl
    rw [hcall] at hstep
    have hstored := put_step_stored (hback.named h hl hcall) hstep
    have he : v.inner[secret.ref.locator]? = some (stored u.inner secret) := by
      rw [hstored, get_insert, if_pos rfl]
    rw [← hafter', hafter, hentry, ← hbefore, stored, hentry] at he
    exact succ_ne existing.version (congrArg Secret.version (Option.some.inj he)).symm
  · intro hcurrent
    refine ⟨(current_passed h hback hcurrent).1, ?_⟩
    intro l hl secret existing hcall hentry hne
    exact absurd (hcurrent l hl secret existing hcall hentry) hne

end

/-! ### Two clients -/

/-- the same accesses, made to a map in memory -/
def MemoryAccess {ι : Type} (inner : SecretMap) (l : Access ι) (inner' : SecretMap) : Prop :=
  InMemorySecretStore.Step keyOrder true inner (l.call, l.reply) inner' ∧ l.before = inner ∧ l.after = inner'

theorem Mirrors.clients_follow {ι : Type} {s : Shared} {inner inner' : SecretMap} {t : List (Access ι)}
    (hm : Mirrors inner s) (h : Runs MemoryAccess inner t inner') : ∃ s', Runs (ClientStep true) s t s' := by
  have hstep : ∀ inner s (l : Access ι) u, Mirrors inner s → MemoryAccess inner l u →
      ∃ s', ClientStep true s l s' ∧ Mirrors u s' := by
    intro inner s l u hm hl
    obtain ⟨hl, hbefore, hafter⟩ := hl
    obtain ⟨s', ⟨t, hrun, -⟩, hm'⟩ := hm.file_follows hl
    exact ⟨s', ⟨⟨t, hrun⟩, hbefore.trans hm.same.symm, hafter.trans hm'.same.symm⟩, hm'⟩
  obtain ⟨s', hrun, -⟩ := h.simulated hstep hm
  exact ⟨s', hrun⟩

def openedWithOne : Shared := ⟨oneSecret, ⟨some (.json (SecretMap.codec.encode oneSecret)), none⟩, false⟩

theorem openedWithOne_mirrors : Mirrors oneSecret openedWithOne := by
  refine ⟨rfl, rfl, ?_, rfl⟩
  have hempty : Keyed ∅ := fun k secret hk => by simp at hk
  exact hempty.insert firstSecret

def withVersion (version : UInt64) : Secret := { firstSecret with version := version }

def readsOne (client : Bool) : Access Bool :=
  ⟨client, .get firstSecret.ref, .ok (.secret firstSecret), oneSecret, oneSecret⟩

def firstWrite : Access Bool :=
  ⟨false, .put firstSecret, .ok (.secret (withVersion 2)), oneSecret, oneSecret.insert "api-key" (withVersion 2)⟩

def secondWrite : Access Bool :=
  ⟨true, .put firstSecret, .ok (.secret (withVersion 3)), oneSecret.insert "api-key" (withVersion 2),
    (oneSecret.insert "api-key" (withVersion 2)).insert "api-key" (withVersion 3)⟩

def oneWriter : List (Access Bool) := [readsOne false, firstWrite]

def twoWriters : List (Access Bool) := [readsOne false, readsOne true, firstWrite, secondWrite]

theorem oneWriter_puts_back : PutsBack oneWriter := by
  have hread : PutsBack [readsOne false] := putsBack_nil.snoc (.inl ⟨_, rfl⟩)
  refine hread.snoc (.inr ⟨firstSecret, rfl, by decide, readsOne false, List.mem_singleton_self _, rfl, rfl, ?_⟩)
  exact ⟨firstSecret, rfl, rfl⟩

theorem twoWriters_put_back : PutsBack twoWriters := by
  have hfirst : PutsBack [readsOne false] := putsBack_nil.snoc (.inl ⟨_, rfl⟩)
  have hboth : PutsBack [readsOne false, readsOne true] := hfirst.snoc (.inl ⟨_, rfl⟩)
  have hwrite : PutsBack [readsOne false, readsOne true, firstWrite] :=
    hboth.snoc (.inr ⟨firstSecret, rfl, by decide, readsOne false, by simp, rfl, rfl, firstSecret, rfl, rfl⟩)
  exact hwrite.snoc (.inr ⟨firstSecret, rfl, by decide, readsOne true, by simp, rfl, rfl, firstSecret, rfl, rfl⟩)

theorem no_lost_update_example : NoLostUpdate oneWriter := by
  obtain ⟨s', hrun⟩ := openedWithOne_mirrors.clients_follow (t := oneWriter)
    (.cons ⟨.ok rfl, rfl, rfl⟩ <| .cons ⟨.ok rfl, rfl, rfl⟩ .nil)
  refine (no_lost_update_iff true openedWithOne s' oneWriter hrun oneWriter_puts_back).2 ?_
  intro l hl secret existing hcall hentry
  rcases List.mem_pair.1 hl with rfl | rfl
  · cases hcall
  · cases hcall
    cases hentry
    rfl

/-- both clients read version 1, and both puts based on it succeed -/
theorem both_writers_succeed : (∃ s', Runs (ClientStep true) openedWithOne twoWriters s') ∧ PutsBack twoWriters ∧
    ¬NoLostUpdate twoWriters := by
  refine ⟨?_, twoWriters_put_back, ?_⟩
  · exact openedWithOne_mirrors.clients_follow (t := twoWriters)
      (.cons ⟨.ok rfl, rfl, rfl⟩ <| .cons ⟨.ok rfl, rfl, rfl⟩ <| .cons ⟨.ok rfl, rfl, rfl⟩ <|
        .cons ⟨.ok rfl, rfl, rfl⟩ .nil)
  · intro h
    have hpairs := (List.pairwise_cons.1 (List.pairwise_cons.1 h.once).2).2
    exact (List.pairwise_cons.1 hpairs).1 secondWrite (List.mem_singleton_self _)
      ⟨firstSecret, firstSecret, rfl, rfl, rfl, rfl, ⟨_, rfl⟩, _, rfl⟩

end PhenoCompose
