/-
The reference shim of the FFI bindings: instances on the heap, and a registry that copies what each was created with.

A pointer is the number of an allocation. It may be used from the call that returned it to the one that destroys it; a
call on a freed pointer, or one that aborts the process, has no next state.

- `call_cases`: everything that one call does.
- `Registered.call`, `numbered`: what calls keep of the registry and of the ids.
- `registry_mirrors_iff`: the registry tells what the handles tell exactly when no live instance is stopped and no id
  comes round to a live one.
- `id_comes_round`: an id is given again to a new instance after each 2^64 creations.
-/
import PhenoCompose.Core.Transition
import PhenoCompose.Core.Utf8

namespace PhenoCompose.Ffi

open Core.Text Core.Transition

/-! ## Instances -/

inductive NvmsTier where
  | wasm
  | gvisor
  | firecracker
deriving DecidableEq, Repr

inductive NvmsStatus where
  | stopped
  | starting
  | running
  | stopping
  | error
deriving DecidableEq, Repr

inductive Tier where
  | wasm
  | gvisor
  | firecracker
deriving DecidableEq, Repr

def Tier.ofNvms : NvmsTier → Tier
  | .wasm => .wasm
  | .gvisor => .gvisor
  | .firecracker => .firecracker

inductive Status where
  | stopped
  | starting
  | running
  | stopping
  | error
deriving DecidableEq, Repr

def Status.ofNvms : NvmsStatus → Status
  | .stopped => .stopped
  | .starting => .starting
  | .running => .running
  | .stopping => .stopping
  | .error => .error

/-- the bytes of a C string, up to the terminator -/
structure CStr where
  bytes : Bytes
  no_nul : 0 ∉ bytes
deriving DecidableEq

/-- `CString::new`: refuses a NUL inside the text -/
def CStr.new (text : String) : Option CStr :=
  if h : 0 ∈ Core.Text.bytes text then none else some ⟨Core.Text.bytes text, h⟩

def CStr.toStringLossy (c : CStr) : String := fromUtf8Lossy c.bytes

/-- a null pointer is no text -/
def cstrToString : Option CStr → String
  | none => ""
  | some c => c.toStringLossy

structure NvmsInstance where
  id : UInt64
  tier : NvmsTier
  status : NvmsStatus
  name : Option CStr
deriving DecidableEq

/-! ## The shim -/

/-- null, or the number of an allocation -/
abbrev Pointer := Option ℕ

/-- the statics, and the heap: its allocations in the order they were made, those freed without content -/
structure Shim where
  instanceCounter : UInt64
  instances : List (UInt64 × NvmsTier × NvmsStatus × String)
  heap : List (Option NvmsInstance)
deriving DecidableEq

def Shim.new : Shim := ⟨0, [], []⟩

/-- what a pointer points to, while it may be used -/
def Shim.deref (s : Shim) (ptr : ℕ) : Option NvmsInstance := s.heap[ptr]?.join

/-- `INSTANCE_COUNTER.fetch_add(1) + 1`: the counter wraps, the sum only in a build without overflow checks -/
def nextId (overflowChecks : Bool) (counter : UInt64) : Option UInt64 :=
  if overflowChecks ∧ counter = 0xffffffffffffffff then none else some (counter + 1)

def displayName : Option CStr → String
  | none => "unnamed"
  | some name => name.toStringLossy

def nvmsInstanceCreate (overflowChecks : Bool) (tier : NvmsTier) (name : Option CStr) (s : Shim) :
    Option (Pointer × Shim) := do
  let id ← nextId overflowChecks s.instanceCounter
  let ownedName ← CStr.new (displayName name)
  let instance_ : NvmsInstance := { id, tier, status := .running, name := some ownedName }
  pure (some s.heap.length, {
    instanceCounter := s.instanceCounter + 1
    instances := s.instances ++ [(id, tier, .running, displayName name)]
    heap := s.heap ++ [some instance_] })

def nvmsInstanceDestroy (inst : Pointer) (s : Shim) : Option (Int × Shim) :=
  match inst with
  | none => some (-1, s)
  | some ptr => do
    let inst ← s.deref ptr
    pure (0, { s with
      instances := s.instances.filter fun entry => entry.1 ≠ inst.id
      heap := s.heap.set ptr none })

/-- write the status of the instance -/
def setStatus (status : NvmsStatus) (inst : Pointer) (s : Shim) : Option (Int × Shim) :=
  match inst with
  | none => some (-1, s)
  | some ptr => do
    let inst ← s.deref ptr
    pure (0, { s with heap := s.heap.set ptr (some { inst with status }) })

def nvmsInstanceStart : Pointer → Shim → Option (Int × Shim) := setStatus .running

def nvmsInstanceStop : Pointer → Shim → Option (Int × Shim) := setStatus .stopped

def nvmsInstanceStatus (inst : Pointer) (s : Shim) : Option NvmsStatus :=
  match inst with
  | none => some .error
  | some ptr => (s.deref ptr).map (·.status)

/-! ## The bindings -/

abbrev Info := UInt64 × Tier × Status × String

def listInstances (s : Shim) : List Info :=
  s.instances.map fun (id, tier, status, name) => (id, Tier.ofNvms tier, Status.ofNvms status, name)

def Instance.id (s : Shim) (ptr : ℕ) : Option UInt64 := (s.deref ptr).map (·.id)

def Instance.tier (s : Shim) (ptr : ℕ) : Option Tier := (s.deref ptr).map fun i => Tier.ofNvms i.tier

def Instance.status (s : Shim) (ptr : ℕ) : Option Status := (nvmsInstanceStatus (some ptr) s).map Status.ofNvms

def Instance.name (s : Shim) (ptr : ℕ) : Option String := (s.deref ptr).map fun i => cstrToString i.name

/-- what the handle itself tells -/
def report (s : Shim) (ptr : ℕ) : Option Info := do
  pure (← Instance.id s ptr, ← Instance.tier s ptr, ← Instance.status s ptr, ← Instance.name s ptr)

/-- the pointers that may be used, in the order of their creation -/
def live (s : Shim) : List ℕ := (List.range s.heap.length).filter fun ptr => (s.deref ptr).isSome

/-- the list has one entry for each live handle, in creation order, with its own id and what the handle tells -/
structure Mirrors (s : Shim) : Prop where
  reports : (listInstances s).map some = (live s).map (report s)
  distinct : ((listInstances s).map Prod.fst).Nodup

/-! ## The driver -/

/-- the driver has tiers and statuses of its own, one for each of the bindings -/
structure InstanceInfo where
  id : UInt64
  name : String
  tier : Tier
  status : Status
deriving DecidableEq

def InstanceInfo.ofTuple : Info → InstanceInfo
  | (id, tier, status, name) => { id, name, tier, status }

def NvmsDriver.listInstances (s : Shim) : List InstanceInfo := (Ffi.listInstances s).map InstanceInfo.ofTuple

/-- with the registry in step, the driver lists what the handles tell, too -/
theorem Mirrors.driver {s : Shim} (h : Mirrors s) : (NvmsDriver.listInstances s).map some =
    (live s).map fun ptr => (report s ptr).map InstanceInfo.ofTuple := by
  calc (NvmsDriver.listInstances s).map some =
        ((listInstances s).map some).map (Option.map InstanceInfo.ofTuple) := by
        rw [NvmsDriver.listInstances, List.map_map, List.map_map]
        rfl
    _ = ((live s).map (report s)).map (Option.map InstanceInfo.ofTuple) := congrArg _ h.reports
    _ = (live s).map fun ptr => (report s ptr).map InstanceInfo.ofTuple := List.map_map

/-! ## Calls -/

inductive Call where
  | create (tier : NvmsTier) (name : Option CStr)
  | start (inst : Pointer)
  | stop (inst : Pointer)
  | destroy (inst : Pointer)

/-- the state after a call, when the call is allowed and returns -/
def Call.after (overflowChecks : Bool) : Call → Shim → Option Shim
  | .create tier name, s => (nvmsInstanceCreate overflowChecks tier name s).map Prod.snd
  | .start inst, s => (nvmsInstanceStart inst s).map Prod.snd
  | .stop inst, s => (nvmsInstanceStop inst s).map Prod.snd
  | .destroy inst, s => (nvmsInstanceDestroy inst s).map Prod.snd

def Calls (overflowChecks : Bool) (s : Shim) (call : Call) (s' : Shim) : Prop :=
  call.after overflowChecks s = some s'

instance (overflowChecks : Bool) (s : Shim) (call : Call) (s' : Shim) : Decidable (Calls overflowChecks s call s') :=
  inferInstanceAs (Decidable (_ = _))

/-- no live instance is stopped, and none is created under the id of a live one -/
def Harmless (s : Shim) : Call → Prop
  | .create _ _ => ∀ ptr, Instance.id s ptr ≠ some (s.instanceCounter + 1)
  | .stop (some _) => False
  | _ => True

/-! ## What one call does -/

variable {s s' : Shim} {overflowChecks : Bool}

theorem nextId_eq {counter id : UInt64} (h : nextId overflowChecks counter = some id) : id = counter + 1 := by
  unfold nextId at h
  split_ifs at h
  exact (Option.some.inj h).symm

theorem new_bytes {text : String} {c : CStr} (h : CStr.new text = some c) : c.bytes = bytes text := by
  unfold CStr.new at h
  split_ifs at h
  exact congrArg CStr.bytes (Option.some.inj h).symm

/-- a C string made of a text is read back as the text -/
theorem new_read {text : String} {c : CStr} (h : CStr.new text = some c) : cstrToString (some c) = text := by
  calc cstrToString (some c) = fromUtf8Lossy (bytes text) := congrArg fromUtf8Lossy (new_bytes h)
    _ = text := fromUtf8Lossy_bytes text

/-- no display name holds a NUL: `CString::new` never fails -/
theorem displayName_accepted (name : Option CStr) : ∃ c, CStr.new (displayName name) = some c := by
  have h : 0 ∉ bytes (displayName name) := by
    cases name with
    | none => decide +kernel
    | some name => exact no_nul_decoded name.no_nul
  exact ⟨_, dif_neg h⟩

/-- the instance that a call creates -/
def created (s : Shim) (tier : NvmsTier) (name : CStr) : NvmsInstance := ⟨s.instanceCounter + 1, tier, .running, name⟩

theorem create_cases {tier : NvmsTier} {name : Option CStr} (h : Calls overflowChecks s (.create tier name) s') :
    ∃ ownedName, cstrToString (some ownedName) = displayName name ∧ s' = {
      instanceCounter := s.instanceCounter + 1
      instances := s.instances ++ [(s.instanceCounter + 1, tier, .running, displayName name)]
      heap := s.heap ++ [some (created s tier ownedName)] } := by
  obtain ⟨⟨ptr, s''⟩, hcreate, rfl⟩ := Option.map_eq_some_iff.1 h
  obtain ⟨id, hid, hcreate⟩ := Option.bind_eq_some_iff.1 hcreate
  obtain ⟨ownedName, hname, hcreate⟩ := Option.bind_eq_some_iff.1 hcreate
  obtain rfl := nextId_eq hid
  cases hcreate
  exact ⟨ownedName, new_read hname, rfl⟩

theorem destroy_cases {ptr : ℕ} (h : Calls overflowChecks s (.destroy (some ptr)) s') :
    ∃ i, s.deref ptr = some i ∧
      s' = { s with instances := s.instances.filter fun entry => entry.1 ≠ i.id, heap := s.heap.set ptr none } := by
  obtain ⟨⟨code, s''⟩, hdestroy, rfl⟩ := Option.map_eq_some_iff.1 h
  obtain ⟨i, hi, hdestroy⟩ := Option.bind_eq_some_iff.1 hdestroy
  cases hdestroy
  exact ⟨i, hi, rfl⟩

theorem setStatus_cases {status : NvmsStatus} {ptr : ℕ}
    (h : (setStatus status (some ptr) s).map Prod.snd = some s') :
    ∃ i, s.deref ptr = some i ∧ s' = { s with heap := s.heap.set ptr (some { i with status }) } := by
  obtain ⟨⟨code, s''⟩, hset, rfl⟩ := Option.map_eq_some_iff.1 h
  obtain ⟨i, hi, hset⟩ := Option.bind_eq_some_iff.1 hset
  cases hset
  exact ⟨i, hi, rfl⟩

/-- everything that one call does -/
theorem call_cases {call : Call} (h : Calls overflowChecks s call s') :
    (∃ tier name ownedName, call = .create tier name ∧ cstrToString (some ownedName) = displayName name ∧ s' = {
      instanceCounter := s.instanceCounter + 1
      instances := s.instances ++ [(s.instanceCounter + 1, tier, .running, displayName name)]
      heap := s.heap ++ [some (created s tier ownedName)] }) ∨
    (∃ ptr i, s.deref ptr = some i ∧ (call = .start (some ptr) ∧
        s' = { s with heap := s.heap.set ptr (some { i with status := .running }) } ∨
      call = .stop (some ptr) ∧ s' = { s with heap := s.heap.set ptr (some { i with status := .stopped }) } ∨
      call = .destroy (some ptr) ∧
        s' = { s with instances := s.instances.filter fun entry => entry.1 ≠ i.id, heap := s.heap.set ptr none })) ∨
    (call = .start none ∨ call = .stop none ∨ call = .destroy none) ∧ s' = s := by
  cases call with
  | create tier name =>
    obtain ⟨ownedName, hname, hs'⟩ := create_cases h
    exact .inl ⟨tier, name, ownedName, rfl, hname, hs'⟩
  | start inst =>
    cases inst with
    | none => exact .inr (.inr ⟨.inl rfl, (Option.some.inj h).symm⟩)
    | some ptr =>
      obtain ⟨i, hi, hs'⟩ := setStatus_cases h
      exact .inr (.inl ⟨ptr, i, hi, .inl ⟨rfl, hs'⟩⟩)
  | stop inst =>
    cases inst with
    | none => exact .inr (.inr ⟨.inr (.inl rfl), (Option.some.inj h).symm⟩)
    | some ptr =>
      obtain ⟨i, hi, hs'⟩ := setStatus_cases h
      exact .inr (.inl ⟨ptr, i, hi, .inr (.inl ⟨rfl, hs'⟩)⟩)
  | destroy inst =>
    cases inst with
    | none => exact .inr (.inr ⟨.inr (.inr rfl), (Option.some.inj h).symm⟩)
    | some ptr =>
      obtain ⟨i, hi, hs'⟩ := destroy_cases h
      exact .inr (.inl ⟨ptr, i, hi, .inr (.inr ⟨rfl, hs'⟩)⟩)

/-! ## The heap -/

/-- an allocation in use, with those before it and those after it -/
theorem deref_split {ptr : ℕ} {i : NvmsInstance} (h : s.deref ptr = some i) :
    ∃ before after, s.heap = before ++ some i :: after ∧ before.length = ptr ∧
      ∀ v, s.heap.set ptr v = before ++ v :: after := by
  obtain ⟨hlt, hget⟩ := List.getElem?_eq_some_iff.1 (Option.join_eq_some_iff.1 h)
  have hsplit : s.heap.take ptr ++ some i :: s.heap.drop (ptr + 1) = s.heap := by
    rw [← hget, List.getElem_cons_drop, List.take_append_drop]
  refine ⟨s.heap.take ptr, s.heap.drop (ptr + 1), hsplit.symm, ?_, ?_⟩
  · rw [List.length_take]
    omega
  · intro v
    rw [List.set_eq_take_append_cons_drop, if_pos hlt]

theorem mem_live {ptr : ℕ} : ptr ∈ live s ↔ ∃ i, s.deref ptr = some i := by
  simp only [live, List.mem_filter, List.mem_range, Option.isSome_iff_exists]
  refine ⟨And.right, ?_⟩
  intro h
  obtain ⟨i, hi⟩ := h
  exact ⟨(List.getElem?_eq_some_iff.1 (Option.join_eq_some_iff.1 hi)).1, i, hi⟩

theorem some_mem_heap {i : NvmsInstance} : some i ∈ s.heap ↔ ∃ ptr, s.deref ptr = some i := by
  simp only [Shim.deref, Option.join_eq_some_iff, List.mem_iff_getElem?]

/-- the live pointers point to the allocations in use, in order -/
theorem allocated (heap : List (Option NvmsInstance)) :
    ((List.range heap.length).filter fun ptr => (heap[ptr]?.join).isSome).map (fun ptr => heap[ptr]?.join) =
      heap.reduceOption.map some := by
  induction heap using List.reverseRecOn with
  | nil => rfl
  | append_singleton heap last ih =>
    have hbefore : ∀ ptr ∈ List.range heap.length, (heap ++ [last])[ptr]? = heap[ptr]? := by
      intro ptr hptr
      exact List.getElem?_append_left (List.mem_range.1 hptr)
    have hfilter : (List.range heap.length).filter (fun ptr => ((heap ++ [last])[ptr]?.join).isSome) =
        (List.range heap.length).filter fun ptr => (heap[ptr]?.join).isSome := by
      refine List.filter_congr ?_
      intro ptr hptr
      rw [hbefore ptr hptr]
    rw [List.length_append, List.length_singleton, List.range_succ, List.filter_append, List.map_append, hfilter,
      List.reduceOption_append, List.map_append, ← ih]
    congr 1
    · refine List.map_congr_left ?_
      intro ptr hptr
      rw [hbefore ptr (List.mem_of_mem_filter hptr)]
    · cases last with
      | none => simp
      | some i => simp

/-! ## Mirrors -/

/-- what is registered of an instance -/
def entry (i : NvmsInstance) : UInt64 × NvmsTier × NvmsStatus × String :=
  (i.id, i.tier, i.status, cstrToString i.name)

/-- what its handle tells of an instance -/
def info (i : NvmsInstance) : Info := (i.id, Tier.ofNvms i.tier, Status.ofNvms i.status, cstrToString i.name)

theorem report_eq (s : Shim) (ptr : ℕ) : report s ptr = (s.deref ptr).map info := by
  unfold report Instance.id Instance.tier Instance.status Instance.name nvmsInstanceStatus
  cases hptr : s.deref ptr with
  | none => rfl
  | some i => simp only [hptr, Option.map_some, info]; rfl

theorem live_reports (s : Shim) : (live s).map (report s) = s.heap.reduceOption.map fun i => some (info i) := by
  calc (live s).map (report s) = ((live s).map s.deref).map (Option.map info) := by
        rw [List.map_map]
        exact List.map_congr_left fun ptr _ => report_eq s ptr
    _ = (s.heap.reduceOption.map some).map (Option.map info) := congrArg _ (allocated s.heap)
    _ = s.heap.reduceOption.map fun i => some (info i) := List.map_map

theorem Mirrors.list (h : Mirrors s) : listInstances s = s.heap.reduceOption.map info := by
  refine List.map_injective_iff.2 (Option.some_injective _) ?_
  rw [h.reports, live_reports, List.map_map]
  rfl

/-- an entry for each allocation in use, all of them running and under ids of their own -/
structure Registered (s : Shim) : Prop where
  entries : s.instances = s.heap.reduceOption.map entry
  running : ∀ i, some i ∈ s.heap → i.status = .running
  distinct : (s.heap.reduceOption.map (·.id)).Nodup

theorem Registered.mirrors (h : Registered s) : Mirrors s := by
  have hlist : listInstances s = s.heap.reduceOption.map info := by
    unfold listInstances
    rw [h.entries, List.map_map]
    rfl
  refine ⟨?_, ?_⟩
  · rw [hlist, live_reports, List.map_map]
    rfl
  · rw [hlist, List.map_map]
    exact h.distinct

theorem registered_new : Registered Shim.new := ⟨rfl, fun _ hi => (List.not_mem_nil hi).elim, List.nodup_nil⟩

/-- what is registered under other ids stays -/
theorem unregister {allocations : List (Option NvmsInstance)} {id : UInt64}
    (h : ∀ i ∈ allocations.reduceOption, i.id ≠ id) :
    (allocations.reduceOption.map entry).filter (fun entry => entry.1 ≠ id) =
      allocations.reduceOption.map entry := by
  refine List.filter_eq_self.2 ?_
  intro e he
  obtain ⟨i, hi, rfl⟩ := List.mem_map.1 he
  exact decide_eq_true (h i hi)

/-- a harmless call keeps the registry in step -/
theorem Registered.call {call : Call} (h : Registered s) (hcall : Calls overflowChecks s call s')
    (hharmless : Harmless s call) : Registered s' := by
  obtain ⟨tier, name, ownedName, rfl, hname, rfl⟩ | ⟨ptr, i, hi, ⟨rfl, rfl⟩ | ⟨rfl, -⟩ | ⟨rfl, rfl⟩⟩ | ⟨-, rfl⟩ :=
    call_cases hcall
  · -- a create: the new entry and the new allocation are the last ones
    refine ⟨?_, ?_, ?_⟩
    · simp [h.entries, List.reduceOption_append, entry, created, hname]
    · intro i hi
      rcases List.mem_append.1 hi with hi | hi
      · exact h.running i hi
      · obtain rfl : i = created s tier ownedName := by simpa using hi
        rfl
    · have hfresh : ∀ i ∈ s.heap.reduceOption, i.id ≠ s.instanceCounter + 1 := by
        intro i hi hid
        obtain ⟨ptr, hptr⟩ := some_mem_heap.1 (List.reduceOption_mem_iff.1 hi)
        exact hharmless ptr (by rw [Instance.id, hptr, Option.map_some, hid])
      rw [List.reduceOption_append, List.map_append, List.nodup_append]
      refine ⟨h.distinct, by simp, ?_⟩
      intro id hid last hlast heq
      obtain ⟨i, hi, rfl⟩ := List.mem_map.1 hid
      obtain rfl : last = s.instanceCounter + 1 := by simpa [created] using hlast
      exact hfresh i hi heq
  · -- a start: the instance runs already
    have hsame : s.heap.set ptr (some { i with status := .running }) = s.heap := by
      obtain ⟨before, after, hheap, -, hset⟩ := deref_split hi
      have hrunning : i.status = .running := h.running i (some_mem_heap.2 ⟨ptr, hi⟩)
      rw [hset, ← hrunning]
      exact hheap.symm
    rw [hsame]
    exact h
  · exact hharmless.elim
  · -- a destroy: by its id the one entry is found
    obtain ⟨before, after, hheap, -, hset⟩ := deref_split hi
    have hentries : s.instances =
        before.reduceOption.map entry ++ entry i :: after.reduceOption.map entry := by
      rw [h.entries, hheap, List.reduceOption_append, List.reduceOption_cons_of_some, List.map_append, List.map_cons]
    have hdistinct : (before.reduceOption.map (·.id) ++ i.id :: after.reduceOption.map (·.id)).Nodup := by
      simpa [hheap, List.reduceOption_append, List.reduceOption_cons_of_some] using h.distinct
    obtain ⟨hfresh, hothers⟩ := List.nodup_middle.1 hdistinct |> List.nodup_cons.1
    have hne : ∀ j ∈ before.reduceOption ++ after.reduceOption, j.id ≠ i.id := by
      intro j hj hid
      refine hfresh ?_
      rw [← List.map_append]
      exact List.mem_map.2 ⟨j, hj, hid⟩
    refine ⟨?_, ?_, ?_⟩
    · simp only [hset, hentries, List.reduceOption_append, List.reduceOption_cons_of_none, List.map_append,
        List.filter_append]
      rw [unregister fun j hj => hne j (List.mem_append_left _ hj), List.filter_cons_of_neg (by simp [entry]),
        unregister fun j hj => hne j (List.mem_append_right _ hj)]
    · intro j hj
      rw [hset] at hj
      refine h.running j ?_
      rw [hheap]
      rcases List.mem_append.1 hj with hj | hj
      · exact List.mem_append_left _ hj
      · exact List.mem_append_right _ (List.mem_cons_of_mem _ (by simpa using hj))
    · simpa only [hset, List.reduceOption_append, List.reduceOption_cons_of_none, List.map_append] using hothers
  · exact h

/-! ## Whole runs -/

theorem calls_deterministic (s : Shim) (call call' : Call) (u u' : Shim) (h : Calls overflowChecks s call u)
    (h' : Calls overflowChecks s call' u') (hcall : call = call') : call = call' ∧ u = u' := by
  subst hcall
  exact ⟨rfl, Option.some.inj (h.symm.trans h')⟩

/-- nothing is ever registered but running instances -/
theorem registered_running {calls : List Call} (h : Runs (Calls overflowChecks) Shim.new calls s) :
    ∀ e ∈ s.instances, e.2.2.1 = .running := by
  refine h.invariant (P := fun s => ∀ e ∈ s.instances, e.2.2.1 = .running) ?_ fun _ he => (List.not_mem_nil he).elim
  intro s call s' hs hcall e he
  obtain ⟨tier, name, ownedName, -, -, rfl⟩ | ⟨ptr, i, -, ⟨-, rfl⟩ | ⟨-, rfl⟩ | ⟨-, rfl⟩⟩ | ⟨-, rfl⟩ :=
    call_cases hcall
  · rcases List.mem_append.1 he with he | he
    · exact hs e he
    · rw [List.mem_singleton.1 he]
  · exact hs e he
  · exact hs e he
  · exact hs e (List.mem_of_mem_filter he)
  · exact hs e he

/-- after a harmful call the list does not tell what the handles tell -/
theorem harmful_not_mirrored {call : Call} (hcall : Calls overflowChecks s call s') (hharmful : ¬Harmless s call)
    (hrunning : ∀ e ∈ s.instances, e.2.2.1 = .running) : ¬Mirrors s' := by
  intro hmirrors
  obtain ⟨tier, name, ownedName, rfl, -, rfl⟩ | ⟨ptr, i, hi, ⟨rfl, rfl⟩ | ⟨rfl, rfl⟩ | ⟨rfl, rfl⟩⟩ | ⟨hnull, rfl⟩ :=
    call_cases hcall
  · -- two live handles with one id
    have hold : ∃ i, some i ∈ s.heap ∧ i.id = s.instanceCounter + 1 := by
      simp only [Harmless, not_forall, not_not] at hharmful
      obtain ⟨ptr, hptr⟩ := hharmful
      obtain ⟨i, hi, hid⟩ := Option.map_eq_some_iff.1 hptr
      exact ⟨i, some_mem_heap.2 ⟨ptr, hi⟩, hid⟩
    obtain ⟨i, hi, hid⟩ := hold
    have hdistinct := hmirrors.distinct
    rw [hmirrors.list, List.reduceOption_append, List.map_append, List.map_append, List.nodup_append] at hdistinct
    refine hdistinct.2.2 i.id ?_ (s.instanceCounter + 1) (List.mem_singleton.2 rfl) hid
    rw [List.map_map]
    exact List.mem_map.2 ⟨i, List.reduceOption_mem_iff.2 hi, rfl⟩
  · exact hharmful trivial
  · -- the handle tells that it is stopped
    have hstopped : some { i with status := .stopped } ∈ s.heap.set ptr (some { i with status := .stopped }) := by
      obtain ⟨before, after, -, -, hset⟩ := deref_split hi
      rw [hset]
      exact List.mem_append_right _ List.mem_cons_self
    have hlisted : info { i with status := .stopped } ∈
        listInstances { s with heap := s.heap.set ptr (some { i with status := .stopped }) } := by
      rw [hmirrors.list]
      exact List.mem_map.2 ⟨_, List.reduceOption_mem_iff.2 hstopped, rfl⟩
    obtain ⟨e, he, hinfo⟩ := List.mem_map.1 hlisted
    have hstatus : Status.ofNvms e.2.2.1 = .stopped := congrArg (fun info : Info => info.2.2.1) hinfo
    rw [hrunning e he] at hstatus
    cases hstatus
  · exact hharmful trivial
  · rcases hnull with rfl | rfl | rfl
    all_goals exact hharmful trivial

/-- the registry tells what the handles tell exactly when no call of the run is harmful -/
theorem registry_mirrors_iff (overflowChecks : Bool) {calls : List Call} {s : Shim}
    (h : Runs (Calls overflowChecks) Shim.new calls s) :
    (∀ before u, before <+: calls → Runs (Calls overflowChecks) Shim.new before u → Mirrors u) ↔
      ∀ before call u, before ++ [call] <+: calls → Runs (Calls overflowChecks) Shim.new before u → Harmless u call := by
  refine ⟨?_, ?_⟩
  · intro hmirrors before call u hprefix hu
    by_contra hharmful
    obtain ⟨after, rfl⟩ := hprefix
    obtain ⟨u', hbefore, -⟩ := runs_append.1 h
    obtain ⟨v, hv, hcall⟩ := runs_snoc.1 hbefore
    obtain ⟨-, rfl⟩ := hu.deterministic (f := id) calls_deterministic hv rfl
    exact harmful_not_mirrored hcall hharmful (registered_running hu)
      (hmirrors _ u' (List.prefix_append _ _) hbefore)
  · intro hharmless before u hprefix hu
    refine Registered.mirrors ?_
    refine hu.history (P := fun before u => before <+: calls → Registered u) (fun _ => registered_new) ?_ hprefix
    intro before u call v hbefore hregistered hcall hprefix
    exact (hregistered ((List.prefix_append _ _).trans hprefix)).call hcall (hharmless before call u hprefix hbefore)

/-- one instance, created without a name and stopped -/
def oneStopped : Shim :=
  ⟨1, [(1, .wasm, .running, "unnamed")], [some ⟨1, .wasm, .stopped, CStr.new "unnamed"⟩]⟩

theorem oneStopped_run :
    Runs (Calls true) Shim.new [.create .wasm none, .stop (some 0)] oneStopped := by
  refine .cons (u := ⟨1, [(1, .wasm, .running, "unnamed")], [some ⟨1, .wasm, .running, CStr.new "unnamed"⟩]⟩) ?_ ?_
  · decide +kernel
  · exact runs_one.2 (by decide +kernel)

/-- it is listed as running -/
theorem stopped_listed_running :
    ¬∀ overflowChecks calls s, Runs (Calls overflowChecks) Shim.new calls s → Mirrors s := by
  intro h
  have hlist := (h true _ _ oneStopped_run).list
  revert hlist
  decide +kernel

theorem registry_mirrors_iff_example :
    (∀ before u, before <+: [Call.create .wasm none, .stop (some 0)] →
      Runs (Calls true) Shim.new before u → Mirrors u) ↔
      ∀ before call u, before ++ [call] <+: [Call.create .wasm none, .stop (some 0)] →
        Runs (Calls true) Shim.new before u → Harmless u call :=
  registry_mirrors_iff true oneStopped_run

/-! ## Ids -/

/-- the counter, and each id, count creations modulo 2^64 -/
structure Numbered (s : Shim) : Prop where
  counter : s.instanceCounter = UInt64.ofNat s.heap.length
  ids : ∀ ptr i, s.deref ptr = some i → i.id = UInt64.ofNat (ptr + 1)

/-- an allocation changes in place, and keeps its id -/
theorem Numbered.set {instances : List (UInt64 × NvmsTier × NvmsStatus × String)} {ptr : ℕ} {i : NvmsInstance}
    {v : Option NvmsInstance} (h : Numbered s) (hi : s.deref ptr = some i) (hv : ∀ j, v = some j → j.id = i.id) :
    Numbered { s with instances := instances, heap := s.heap.set ptr v } := by
  refine ⟨h.counter.trans (congrArg UInt64.ofNat List.length_set.symm), ?_⟩
  intro ptr' j hj
  rw [Shim.deref, Option.join_eq_some_iff, List.getElem?_set] at hj
  split_ifs at hj with heq hlt
  · rw [hv j (Option.some.inj hj), ← heq]
    exact h.ids ptr i hi
  · exact h.ids ptr' j (Option.join_eq_some_iff.2 hj)

theorem numbered {calls : List Call} (h : Runs (Calls overflowChecks) Shim.new calls s) : Numbered s := by
  refine h.invariant (P := Numbered) ?_ ⟨rfl, fun _ _ hi => by cases hi⟩
  intro s call s' hs hcall
  obtain ⟨tier, name, ownedName, -, -, rfl⟩ | ⟨ptr, i, hi, ⟨-, rfl⟩ | ⟨-, rfl⟩ | ⟨-, rfl⟩⟩ | ⟨-, rfl⟩ :=
    call_cases hcall
  · have hnext : s.instanceCounter + 1 = UInt64.ofNat (s.heap.length + 1) := by
      rw [UInt64.ofNat_add, hs.counter]
      rfl
    refine ⟨by simpa using hnext, ?_⟩
    intro ptr i hi
    rw [Shim.deref, Option.join_eq_some_iff, List.getElem?_append] at hi
    split_ifs at hi with hlt
    · exact hs.ids ptr i (Option.join_eq_some_iff.2 hi)
    · obtain ⟨hptr, rfl⟩ : ptr = s.heap.length ∧ i = created s tier ownedName := by
        obtain ⟨hlast, hi⟩ := List.getElem?_eq_some_iff.1 hi
        simp only [List.length_singleton] at hlast
        refine ⟨by omega, ?_⟩
        simpa using hi.symm
      rw [hptr]
      exact hnext
  · exact hs.set hi fun j hj => by cases hj; rfl
  · exact hs.set hi fun j hj => by cases hj; rfl
  · exact hs.set hi fun j hj => by cases hj
  · exact hs

/-- the next id is that of a live instance exactly when a multiple of 2^64 instances were created from that one on -/
theorem id_comes_round {calls : List Call} (h : Runs (Calls overflowChecks) Shim.new calls s) (ptr : ℕ) :
    Instance.id s ptr = some (s.instanceCounter + 1) ↔ ptr ∈ live s ∧ 2 ^ 64 ∣ s.heap.length - ptr := by
  have hround : ∀ i, s.deref ptr = some i → (i.id = s.instanceCounter + 1 ↔ 2 ^ 64 ∣ s.heap.length - ptr) := by
    intro i hi
    have hlt : ptr < s.heap.length := (List.getElem?_eq_some_iff.1 (Option.join_eq_some_iff.1 hi)).1
    rw [(numbered h).ids ptr i hi, (numbered h).counter, ← UInt64.toNat_inj]
    simp only [UInt64.toNat_add, UInt64.toNat_ofNat', UInt64.toNat_one]
    omega
  rw [Instance.id, Option.map_eq_some_iff, mem_live]
  refine ⟨?_, ?_⟩
  · intro hid
    obtain ⟨i, hi, hid⟩ := hid
    exact ⟨⟨i, hi⟩, (hround i hi).1 hid⟩
  · intro hlive
    obtain ⟨⟨i, hi⟩, hdvd⟩ := hlive
    exact ⟨i, hi, (hround i hi).2 hdvd⟩

end PhenoCompose.Ffi
