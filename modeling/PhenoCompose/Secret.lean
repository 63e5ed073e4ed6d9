/-
Secrets: the value types of the `SecretStore` port, its errors, and the in-memory store.

A store keeps each secret under the locator of its ref. Versions are `u64`: at the largest one, a build with overflow
checks panics while it holds the lock, and one without wraps around to 0.

- `putSection_ok`, `step_cases`: what a call that succeeds returns, and the map it leaves.
- `Represents`: a map holds, under each locator, what the last update there stored; every step keeps that.
- `memory_map_iff`: what the store answers for a ref, and what it lists for a namespace, is what a map from refs would say
  exactly where no other ref with the same locator has come between.
-/
import PhenoCompose.Error
import PhenoCompose.Core.Rendered
import PhenoCompose.Core.Transition

namespace PhenoCompose

open Core.Collections Core.Json Core.Process Core.Rendered Core.Text Core.Transition

/-! ## Refs and secrets -/

structure SecretRef where
  namespace_ : String
  name : String
deriving DecidableEq, Repr

/-- `"<namespace>/<name>"`, or the name alone when the namespace is empty -/
def SecretRef.locator (ref : SecretRef) : String :=
  if ref.namespace_ = "" then ref.name else ref.namespace_ ++ "/" ++ ref.name

structure Secret where
  ref : SecretRef
  value : String
  version : UInt64
deriving DecidableEq, Repr

inductive SecretStoreError where
  | validation (message : String)
  | notFound (message : String)
  | transport (message : String)
deriving DecidableEq, Repr

def SecretRef.codec : Codec SecretRef :=
  openRecord ((required "namespace" .string (·.namespace_)).and
    (required "name" .string (·.name)))
    (fun (namespace_, name) => { namespace_, name }) (fun _ => rfl) (by decide)

def Secret.codec : Codec Secret :=
  openRecord ((required "ref" SecretRef.codec (·.ref)).and <|
    (required "value" .string (·.value)).and
    (required "version" .u64 (·.version)))
    (fun (ref, value, version) => { ref, value, version }) (fun _ => rfl) (by decide)

/-- locators and the secrets stored under them -/
abbrev SecretMap := BTreeMap Secret

def SecretMap.codec : Codec SecretMap := .btreeMap Secret.codec

namespace SecretStore

/-! ## What stores do under their lock -/

def validateRef (ref : SecretRef) : Except (Stop SecretStoreError) Unit :=
  if ref.name = "" then .error (.err (.validation "secret ref name is empty")) else .ok ()

def lookup (inner : SecretMap) (ref : SecretRef) : Except (Stop SecretStoreError) Secret :=
  match inner[ref.locator]? with
  | some secret => .ok secret
  | none => .error (.err (.notFound ("no secret at " ++ ref.locator)))

/-- `existing.version + 1`, or the first version -/
def nextVersion (overflowChecks : Bool) : Option Secret → Except (Stop SecretStoreError) UInt64
  | some existing =>
    if overflowChecks ∧ existing.version = 0xffffffffffffffff then .error (.panic "attempt to add with overflow")
    else .ok (existing.version + 1)
  | none => .ok 1

/-- read the version under the locator, and insert the secret with the next one -/
def putSection (overflowChecks : Bool) (inner : SecretMap) (secret : Secret) :
    Except (Stop SecretStoreError) (Secret × SecretMap) := do
  let key := secret.ref.locator
  let version ← nextVersion overflowChecks inner[key]?
  let stored := { ref := secret.ref, value := secret.value, version := version }
  .ok (stored, inner.insert key stored)

def deleteSection (inner : SecretMap) (ref : SecretRef) : SecretMap := inner.erase ref.locator

def refsIn (namespace_ : String) (secrets : List Secret) : List SecretRef :=
  (secrets.filter fun secret => secret.ref.namespace_ = namespace_).map (·.ref)

/-! ## Calls -/

/-- a call of the `SecretStore` port -/
inductive Call where
  | get (ref : SecretRef)
  | put (secret : Secret)
  | delete (ref : SecretRef)
  | list (namespace_ : String)
deriving DecidableEq, Repr

/-- what a call that succeeds returns -/
inductive Returned where
  | secret (secret : Secret)
  | unit
  | refs (refs : List SecretRef)
deriving DecidableEq, Repr

abbrev Reply := Except SecretStoreError Returned

end SecretStore

open SecretStore

/-! ## The in-memory store -/

/-- the order in which a `HashMap` hands out its values -/
structure IterationOrder where
  arrange : List Secret → List Secret
  perm : ∀ secrets, (arrange secrets).Perm secrets

namespace InMemorySecretStore

variable (order : IterationOrder) (overflowChecks : Bool)

def get (inner : SecretMap) (ref : SecretRef) : Except (Stop SecretStoreError) Secret := do
  validateRef ref
  lookup inner ref

def put (inner : SecretMap) (secret : Secret) : Except (Stop SecretStoreError) (Secret × SecretMap) := do
  validateRef secret.ref
  putSection overflowChecks inner secret

def delete (inner : SecretMap) (ref : SecretRef) : Except (Stop SecretStoreError) SecretMap := do
  validateRef ref
  .ok (deleteSection inner ref)

def list (inner : SecretMap) (namespace_ : String) : List SecretRef :=
  (refsIn namespace_ (order.arrange (values inner))).mergeSort fun a b => a.locator ≤ b.locator

/-- a call, what it returns, and the map it leaves -/
def call (inner : SecretMap) : Call → Except (Stop SecretStoreError) (Returned × SecretMap)
  | .get ref => do
    let secret ← get inner ref
    .ok (.secret secret, inner)
  | .put secret => do
    let (stored, inner) ← put overflowChecks inner secret
    .ok (.secret stored, inner)
  | .delete ref => do
    let inner ← delete inner ref
    .ok (.unit, inner)
  | .list namespace_ => .ok (.refs (list order inner namespace_), inner)

/-- a call that returns; one that fails has not come as far as the map, and a panic is the end of the run -/
inductive Step : SecretMap → Call × Reply → SecretMap → Prop where
  | ok {inner inner' : SecretMap} {c : Call} {returned : Returned}
      (h : call order overflowChecks inner c = .ok (returned, inner')) : Step inner (c, .ok returned) inner'
  | err {inner : SecretMap} {c : Call} {error : SecretStoreError}
      (h : call order overflowChecks inner c = .error (.err error)) : Step inner (c, .error error) inner

end InMemorySecretStore

/-! ## What calls do -/

namespace SecretStore

theorem validateRef_ok {ref : SecretRef} {u : Unit} : validateRef ref = .ok u ↔ ref.name ≠ "" := by
  unfold validateRef
  split_ifs with h <;> simp [h]

theorem validateRef_err {ref : SecretRef} {e : Stop SecretStoreError} (h : validateRef ref = .error e) :
    ref.name = "" ∧ e = .err (.validation "secret ref name is empty") := by
  unfold validateRef at h
  split_ifs at h with hname
  exact ⟨hname, (Except.error.inj h).symm⟩

/-- the version a put gives, if it gives one -/
def versionAfter : Option Secret → UInt64
  | some existing => existing.version + 1
  | none => 1

theorem nextVersion_ok {overflowChecks : Bool} {entry : Option Secret} {version : UInt64} :
    nextVersion overflowChecks entry = .ok version ↔ version = versionAfter entry ∧
      ¬(overflowChecks = true ∧ ∃ existing ∈ entry, existing.version = 0xffffffffffffffff) := by
  cases entry with
  | none => simp [nextVersion, versionAfter, eq_comm]
  | some existing =>
    unfold nextVersion versionAfter
    dsimp only
    split_ifs with h
    · simp [h]
    · simp [h, eq_comm]

theorem nextVersion_panics {overflowChecks : Bool} {entry : Option Secret} {e : Stop SecretStoreError}
    (h : nextVersion overflowChecks entry = .error e) : e = .panic "attempt to add with overflow" := by
  cases entry with
  | none => cases h
  | some existing =>
    unfold nextVersion at h
    dsimp only at h
    split_ifs at h
    exact (Except.error.inj h).symm

/-- the secret a put stores -/
def stored (inner : SecretMap) (secret : Secret) : Secret :=
  { ref := secret.ref, value := secret.value, version := versionAfter inner[secret.ref.locator]? }

/-- the version under this locator is the last one, and the build checks for overflow -/
def Overflows (overflowChecks : Bool) (inner : SecretMap) (ref : SecretRef) : Prop :=
  overflowChecks = true ∧ ∃ existing ∈ inner[ref.locator]?, existing.version = 0xffffffffffffffff

theorem putSection_ok {overflowChecks : Bool} {inner inner' : SecretMap} {secret result : Secret} :
    putSection overflowChecks inner secret = .ok (result, inner') ↔ ¬Overflows overflowChecks inner secret.ref ∧
      result = stored inner secret ∧ inner' = inner.insert secret.ref.locator (stored inner secret) := by
  simp only [putSection, bind_eq_ok, nextVersion_ok]
  refine ⟨?_, ?_⟩
  · intro h
    obtain ⟨version, ⟨rfl, hover⟩, he⟩ := h
    cases he
    exact ⟨hover, rfl, rfl⟩
  · intro h
    obtain ⟨hover, rfl, rfl⟩ := h
    exact ⟨_, ⟨rfl, hover⟩, rfl⟩

end SecretStore

namespace InMemorySecretStore

variable {order : IterationOrder} {overflowChecks : Bool}

/-- what a call that returns did -/
theorem step_cases {inner inner' : SecretMap} {c : Call} {reply : Reply}
    (h : Step order overflowChecks inner (c, reply) inner') :
    (∃ ref, c = .get ref ∧ inner' = inner) ∨
      (∃ secret, c = .put secret ∧ ((reply = .ok (.secret (stored inner secret)) ∧ secret.ref.name ≠ "" ∧
          inner' = inner.insert secret.ref.locator (stored inner secret)) ∨ (∃ e, reply = .error e) ∧ inner' = inner)) ∨
      (∃ ref, c = .delete ref ∧ ((reply = .ok .unit ∧ ref.name ≠ "" ∧ inner' = inner.erase ref.locator) ∨
          (∃ e, reply = .error e) ∧ inner' = inner)) ∨
      ∃ namespace_, c = .list namespace_ ∧ inner' = inner := by
  cases c with
  | get ref =>
    refine .inl ⟨ref, rfl, ?_⟩
    cases h with
    | ok h =>
      obtain ⟨secret, -, he⟩ := bind_eq_ok.1 h
      cases he
      rfl
    | err => rfl
  | put secret =>
    refine .inr (.inl ⟨secret, rfl, ?_⟩)
    cases h with
    | ok h =>
      obtain ⟨⟨result, inner₁⟩, hput, he⟩ := bind_eq_ok.1 h
      obtain ⟨⟨⟩, hname, hsection⟩ := bind_eq_ok.1 hput
      obtain ⟨-, rfl, rfl⟩ := putSection_ok.1 hsection
      cases he
      exact .inl ⟨rfl, validateRef_ok.1 hname, rfl⟩
    | err => exact .inr ⟨⟨_, rfl⟩, rfl⟩
  | delete ref =>
    refine .inr (.inr (.inl ⟨ref, rfl, ?_⟩))
    cases h with
    | ok h =>
      obtain ⟨inner₁, hdelete, he⟩ := bind_eq_ok.1 h
      obtain ⟨⟨⟩, hname, hsection⟩ := bind_eq_ok.1 hdelete
      cases hsection
      cases he
      exact .inl ⟨rfl, validateRef_ok.1 hname, rfl⟩
    | err => exact .inr ⟨⟨_, rfl⟩, rfl⟩
  | list namespace_ =>
    refine .inr (.inr (.inr ⟨namespace_, rfl, ?_⟩))
    cases h with
    | ok h => cases h; rfl
    | err => rfl

end InMemorySecretStore

/-! ## A map keyed by locators -/

/-- the update a call made -/
def effect : Call × Reply → Option (Update SecretRef String)
  | (.put secret, .ok _) => some (.put secret.ref secret.value)
  | (.delete ref, .ok _) => some (.delete ref)
  | _ => none

/-- the updates of a sequence of calls, the last one first -/
def history (t : List (Call × Reply)) : List (Update SecretRef String) := (t.filterMap effect).reverse

theorem history_snoc (t : List (Call × Reply)) (l : Call × Reply) :
    history (t ++ [l]) = (effect l).toList ++ history t := by
  rw [history, List.filterMap_append, List.reverse_append, history]
  cases he : effect l with
  | none => simp [he]
  | some u => simp [he]

/-- under each locator there is what the last update there stored -/
def Represents (inner : SecretMap) (updates : List (Update SecretRef String)) : Prop :=
  ∀ k : String, inner[k]?.map (fun secret => (secret.ref, secret.value)) = rendered SecretRef.locator updates k

theorem represents_empty : Represents ∅ [] := fun k => by simp [rendered]

theorem Represents.insert {inner : SecretMap} {updates : List (Update SecretRef String)} (h : Represents inner updates)
    (secret : Secret) :
    Represents (inner.insert secret.ref.locator secret) (.put secret.ref secret.value :: updates) := by
  intro k
  rw [get_insert, rendered, ← h k]
  split_ifs <;> rfl

theorem Represents.erase {inner : SecretMap} {updates : List (Update SecretRef String)} (h : Represents inner updates)
    (ref : SecretRef) : Represents (inner.erase ref.locator) (.delete ref :: updates) := by
  intro k
  rw [get_erase, rendered, ← h k]
  split_ifs <;> rfl

section
variable {order : IterationOrder} {overflowChecks : Bool}

theorem Represents.step {inner inner' : SecretMap} {updates : List (Update SecretRef String)}
    (h : Represents inner updates) {l : Call × Reply}
    (hs : InMemorySecretStore.Step order overflowChecks inner l inner') :
    Represents inner' ((effect l).toList ++ updates) := by
  obtain ⟨c, reply⟩ := l
  rcases InMemorySecretStore.step_cases hs with ⟨ref, rfl, rfl⟩ | ⟨secret, rfl, ⟨rfl, -, rfl⟩ | ⟨⟨e, rfl⟩, rfl⟩⟩ |
    ⟨ref, rfl, ⟨rfl, -, rfl⟩ | ⟨⟨e, rfl⟩, rfl⟩⟩ | ⟨namespace_, rfl, rfl⟩
  · exact h
  · exact h.insert (stored inner secret)
  · exact h
  · exact h.erase ref
  · exact h
  · exact h

theorem memory_represents {t : List (Call × Reply)} {inner : SecretMap}
    (h : Runs (InMemorySecretStore.Step order overflowChecks) ∅ t inner) : Represents inner (history t) := by
  refine h.history (P := fun t inner => Represents inner (history t)) represents_empty ?_
  intro t u l v _ hu hl
  rw [history_snoc]
  exact hu.step hl

end

/-! ## What the in-memory store answers -/

/-- every secret is stored under its own locator -/
def Keyed (inner : SecretMap) : Prop := ∀ (k : String) secret, inner[k]? = some secret → secret.ref.locator = k

section
variable {inner : SecretMap} {updates : List (Update SecretRef String)}

theorem Represents.keyed (h : Represents inner updates) : Keyed inner := by
  intro k secret hs
  have hk := h k
  rw [hs, Option.map_some] at hk
  exact rendered_key SecretRef.locator hk.symm

/-- the refs of the stored secrets, in the order of their locators, which are distinct -/
theorem Keyed.refs_sorted (h : Keyed inner) : (values inner).Pairwise fun a b => a.ref.locator < b.ref.locator := by
  have hkeys := keys_sorted inner
  rw [← toList_keys, List.pairwise_map] at hkeys
  rw [values, List.pairwise_map]
  refine hkeys.imp_of_mem ?_
  intro a b ha hb hab
  rw [h a.1 a.2 (mem_toList.1 ha), h b.1 b.2 (mem_toList.1 hb)]
  exact hab

theorem mem_refsIn {namespace_ : String} {secrets : List Secret} {ref : SecretRef} :
    ref ∈ refsIn namespace_ secrets ↔ ref.namespace_ = namespace_ ∧ ∃ secret ∈ secrets, secret.ref = ref := by
  rw [refsIn, List.mem_map]
  refine ⟨?_, ?_⟩
  · intro h
    obtain ⟨secret, hm, rfl⟩ := h
    rw [List.mem_filter, decide_eq_true_eq] at hm
    exact ⟨hm.2, secret, hm.1, rfl⟩
  · intro h
    obtain ⟨hns, secret, hm, rfl⟩ := h
    exact ⟨secret, List.mem_filter.2 ⟨hm, decide_eq_true hns⟩, rfl⟩

theorem refsIn_perm {namespace_ : String} {secrets secrets' : List Secret} (h : secrets.Perm secrets') :
    (refsIn namespace_ secrets).Perm (refsIn namespace_ secrets') := (h.filter _).map _

theorem list_perm (order : IterationOrder) (inner : SecretMap) (namespace_ : String) :
    (InMemorySecretStore.list order inner namespace_).Perm (refsIn namespace_ (values inner)) :=
  (List.mergeSort_perm _ _).trans (refsIn_perm (order.perm _))

theorem Keyed.refsIn_sorted (h : Keyed inner) (namespace_ : String) :
    (refsIn namespace_ (values inner)).Pairwise fun a b => a.locator < b.locator := by
  rw [refsIn, List.pairwise_map]
  exact h.refs_sorted.sublist List.filter_sublist

theorem Keyed.list_nodup (h : Keyed inner) (order : IterationOrder) (namespace_ : String) :
    (InMemorySecretStore.list order inner namespace_).Nodup := by
  rw [(list_perm order inner namespace_).nodup_iff]
  exact (h.refsIn_sorted namespace_).imp fun hlt e => absurd (e ▸ hlt) (lt_irrefl _)

/-- a ref is listed when it is what is stored under its locator -/
theorem Represents.mem_list (h : Represents inner updates) (order : IterationOrder) (namespace_ : String)
    (ref : SecretRef) : ref ∈ InMemorySecretStore.list order inner namespace_ ↔
      ref.namespace_ = namespace_ ∧ ∃ v, rendered SecretRef.locator updates ref.locator = some (ref, v) := by
  rw [(list_perm order inner namespace_).mem_iff, mem_refsIn]
  refine and_congr_right fun _ => ?_
  rw [← h ref.locator]
  refine ⟨?_, ?_⟩
  · intro hs
    obtain ⟨secret, hm, rfl⟩ := hs
    obtain ⟨k, hk⟩ := mem_values.1 hm
    obtain rfl := h.keyed k secret hk
    exact ⟨secret.value, by rw [hk]; rfl⟩
  · intro hv
    obtain ⟨v, hv⟩ := hv
    obtain ⟨secret, hsecret, he⟩ := Option.map_eq_some_iff.1 hv
    exact ⟨secret, mem_values.2 ⟨_, hsecret⟩, congrArg Prod.fst he⟩

/-- `get` answers as a map from refs would after these updates -/
def GetsAsMap (inner : SecretMap) (updates : List (Update SecretRef String)) (ref : SecretRef) : Prop :=
  match intended updates ref with
  | some value => ∃ version, InMemorySecretStore.get inner ref = .ok ⟨ref, value, version⟩
  | none => ∃ message, InMemorySecretStore.get inner ref = .error (.err (.notFound message))

/-- `list` gives, once each, the refs of the namespace that have a value after these updates -/
def ListsAsMap (order : IterationOrder) (inner : SecretMap) (updates : List (Update SecretRef String))
    (namespace_ : String) : Prop :=
  (InMemorySecretStore.list order inner namespace_).Nodup ∧
    ∀ ref, ref ∈ InMemorySecretStore.list order inner namespace_ ↔
      ref.namespace_ = namespace_ ∧ intended updates ref ≠ none

theorem get_named {ref : SecretRef} (hname : ref.name ≠ "") :
    InMemorySecretStore.get inner ref = lookup inner ref := by
  rw [InMemorySecretStore.get, (validateRef_ok (u := ())).2 hname, ok_bind]

theorem Represents.gets_iff (h : Represents inner updates) {ref : SecretRef} (hname : ref.name ≠ "") :
    GetsAsMap inner updates ref ↔ ¬Crossed SecretRef.locator updates ref := by
  rw [← rendered_agrees_iff, ← h ref.locator, GetsAsMap, get_named hname]
  unfold lookup
  cases intended updates ref with
  | none =>
    cases inner[ref.locator]? with
    | none => simp
    | some secret => simp
  | some value =>
    cases inner[ref.locator]? with
    | none => simp
    | some secret =>
      obtain ⟨ref', value', version⟩ := secret
      simp

theorem Represents.lists_iff (h : Represents inner updates) (order : IterationOrder) (namespace_ : String) :
    ListsAsMap order inner updates namespace_ ↔
      ∀ ref, ref.namespace_ = namespace_ → intended updates ref ≠ none → ¬Crossed SecretRef.locator updates ref := by
  unfold ListsAsMap
  simp only [h.mem_list, stored_iff_live]
  refine ⟨?_, ?_⟩
  · intro hlists ref hns hlive
    exact ((hlists.2 ref).2 ⟨hns, hlive⟩).2.2
  · intro hclear
    refine ⟨h.keyed.list_nodup order namespace_, fun ref => and_congr_right fun hns => ?_⟩
    exact ⟨fun hx => hx.1, fun hlive => ⟨hlive, hclear ref hns hlive⟩⟩

end

/-- **Where the in-memory store is a map from refs.** After any sequence of calls, `get` answers for a ref as a map keyed
by namespace and name would exactly where no other ref of the same locator has crossed it, and `list` is exact for a
namespace where none of its refs that holds a value is crossed. -/
theorem memory_map_iff (order : IterationOrder) (overflowChecks : Bool) (t : List (Call × Reply)) (inner : SecretMap)
    (h : Runs (InMemorySecretStore.Step order overflowChecks) ∅ t inner) :
    (∀ ref, ref.name ≠ "" →
        (GetsAsMap inner (history t) ref ↔ ¬Crossed SecretRef.locator (history t) ref)) ∧
      ∀ namespace_, ListsAsMap order inner (history t) namespace_ ↔
        ∀ ref, ref.namespace_ = namespace_ → intended (history t) ref ≠ none →
          ¬Crossed SecretRef.locator (history t) ref := by
  have hr := memory_represents h
  exact ⟨fun ref hname => hr.gets_iff hname, fun namespace_ => hr.lists_iff order namespace_⟩

/-! ### Two refs with one locator -/

/-- values in the order of their keys -/
def keyOrder : IterationOrder := ⟨id, fun _ => .refl _⟩

def inNamespace : SecretRef := ⟨"a", "b"⟩

def inDefault : SecretRef := ⟨"", "a/b"⟩

def onePut : List (Call × Reply) :=
  [(.put ⟨inNamespace, "s3cr3t", 1⟩, .ok (.secret ⟨inNamespace, "s3cr3t", 1⟩))]

def afterPut : SecretMap := (∅ : SecretMap).insert "a/b" ⟨inNamespace, "s3cr3t", 1⟩

theorem onePut_runs : Runs (InMemorySecretStore.Step keyOrder true) ∅ onePut afterPut := runs_one.2 (.ok rfl)

/-- another ref of the namespace -/
def beside : SecretRef := ⟨"a", "c"⟩

/-- two refs are put, the first one is deleted, and the namespace is listed -/
def putPutDeleteList : List (Call × Reply) :=
  onePut ++ [(.put ⟨beside, "t0ken", 1⟩, .ok (.secret ⟨beside, "t0ken", 1⟩)), (.delete inNamespace, .ok .unit),
    (.list "a", .ok (.refs [beside]))]

def oneLeft : SecretMap := (afterPut.insert "a/c" ⟨beside, "t0ken", 1⟩).erase "a/b"

theorem oneLeft_listed : InMemorySecretStore.list keyOrder oneLeft "a" = [beside] := by
  have harranged : refsIn "a" (keyOrder.arrange (values oneLeft)) = [beside] := by decide
  rw [InMemorySecretStore.list, harranged, List.mergeSort_singleton]

theorem putPutDeleteList_runs :
    Runs (InMemorySecretStore.Step keyOrder true) ∅ putPutDeleteList oneLeft := by
  have hlist : InMemorySecretStore.call keyOrder true oneLeft (.list "a") = .ok (.refs [beside], oneLeft) := by
    rw [InMemorySecretStore.call, oneLeft_listed]
  exact runs_append.2 ⟨afterPut, onePut_runs, .cons (.ok rfl) <| .cons (.ok rfl) <| .cons (.ok hlist) .nil⟩

/-- the ref that was deleted is not found, the other one is, and it is what the namespace lists -/
theorem memory_map_example :
    GetsAsMap oneLeft (history putPutDeleteList) inNamespace ∧
      GetsAsMap oneLeft (history putPutDeleteList) beside ∧
      ListsAsMap keyOrder oneLeft (history putPutDeleteList) "a" := by
  obtain ⟨hgets, hlists⟩ := memory_map_iff keyOrder true _ _ putPutDeleteList_runs
  have hdeleted : ¬Crossed SecretRef.locator (history putPutDeleteList) inNamespace := by
    intro hcrossed
    obtain ⟨u, hu, hne, -⟩ := hcrossed
    cases hu
    exact hne rfl
  have hother : ¬Crossed SecretRef.locator (history putPutDeleteList) beside := by
    intro hcrossed
    obtain ⟨u, hu, hne, -⟩ := hcrossed
    cases hu
    exact hne rfl
  refine ⟨(hgets inNamespace (by decide)).2 hdeleted, (hgets beside (by decide)).2 hother, (hlists "a").2 ?_⟩
  intro ref _ hlive
  by_cases href : ref = beside
  · rw [href]
    exact hother
  · refine absurd ?_ hlive
    have hhistory : history putPutDeleteList =
        [.delete inNamespace, .put beside "t0ken", .put inNamespace "s3cr3t"] := rfl
    rw [hhistory]
    by_cases hfirst : inNamespace = ref
    · simp [intended, hfirst]
    · simp [intended, hfirst, Ne.symm href]

/-- a secret of the namespace `a` is read through a ref of the default namespace -/
theorem namespace_read_across : Runs (InMemorySecretStore.Step keyOrder true) ∅ onePut afterPut ∧
    intended (history onePut) inDefault = none ∧
    InMemorySecretStore.get afterPut inDefault = .ok ⟨inNamespace, "s3cr3t", 1⟩ ∧
    ¬GetsAsMap afterPut (history onePut) inDefault := by
  refine ⟨onePut_runs, rfl, rfl, ?_⟩
  intro h
  obtain ⟨message, he⟩ := h
  cases he

end PhenoCompose
