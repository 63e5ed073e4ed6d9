/-
`NvmsDriver`: instances as values that a program owns, over the C interface and its reference shim.

A program keeps the instances that it created until it drops them. A request that would use freed memory, or that aborts
the process, has no outcome.

- `driver_refines`: whatever a program does, what it is told is what a list of independent instances would tell.
- `driver_memory_safe`: nothing that a program can ask for uses freed memory, and what it does not own is not allocated.
-/
import PhenoCompose.Instances

namespace PhenoCompose.Driver

open Core.Text Core.Transition Ffi

/-! ## Errors -/

inductive NvmsError where
  | initFailed
  | createFailed
  | startFailed
  | stopFailed
  | destroyFailed
  | appleSiliconNotSupported
  | cudaInitFailed
  | rocmInitFailed
  | other (code : Int)
deriving DecidableEq, Repr

def NvmsError.rawCode : NvmsError → Int
  | .initFailed => -1
  | .createFailed => -2
  | .startFailed => -3
  | .stopFailed => -4
  | .destroyFailed => -5
  | .appleSiliconNotSupported => -100
  | .cudaInitFailed => -200
  | .rocmInitFailed => -201
  | .other code => code

/-- `NvmsError::from(code)` -/
def NvmsError.ofCode (code : Int) : NvmsError :=
  if code = -1 then .initFailed
  else if code = -2 then .createFailed
  else if code = -3 then .startFailed
  else if code = -4 then .stopFailed
  else if code = -5 then .destroyFailed
  else if code = -100 then .appleSiliconNotSupported
  else if code = -200 then .cudaInitFailed
  else if code = -201 then .rocmInitFailed
  else .other code

/-- no code is lost -/
theorem rawCode_ofCode (code : Int) : (NvmsError.ofCode code).rawCode = code := by
  unfold NvmsError.ofCode
  split_ifs with h h h h h h h h
  all_goals first | exact h.symm | rfl

inductive DriverError where
  | init (source : NvmsError)
  | createInstance (tier : Tier) (name : String) (source : NvmsError)
  | start (instanceId : UInt64) (source : NvmsError)
  | stop (instanceId : UInt64) (source : NvmsError)
  | destroy (instanceId : UInt64)
  | config (message : String)
deriving DecidableEq, Repr

/-! ## Configurations -/

structure EnvVar where
  key : String
  value : String
deriving DecidableEq, Repr

structure NvmsConfig where
  name : String
  tier : Tier
  cpuCount : Option UInt32
  memoryBytes : Option UInt64
  network : Option String
  image : Option String
  env : List EnvVar
deriving DecidableEq, Repr

namespace NvmsConfig

/-- every field that only some configurations have is unset -/
def plain (tier : Tier) (name : String) : NvmsConfig := ⟨name, tier, none, none, none, none, []⟩

def wasm (name : String) : NvmsConfig := plain .wasm name

def gvisor (name : String) : NvmsConfig := plain .gvisor name

/-- with the two defaults of the driver section of a configuration -/
def firecrackerWith (name : String) (defaultCpus : UInt32) (defaultMemoryBytes : UInt64) : NvmsConfig :=
  { plain .firecracker name with cpuCount := some defaultCpus, memoryBytes := some defaultMemoryBytes }

def unsupportedFields (config : NvmsConfig) : List String :=
  (if config.cpuCount.isSome then ["cpu_count"] else []) ++
  (if config.memoryBytes.isSome then ["memory_bytes"] else []) ++
  (if config.network.isSome then ["network"] else []) ++
  (if config.image.isSome then ["image"] else []) ++
  (if config.env ≠ [] then ["env"] else [])

/-- the message of `validate` -/
def unsupportedMessage (fields : List String) : String :=
  "NvmsConfig carries fields not honored by the NVMS C FFI (currently only `tier` and `name` are forwarded): " ++
    ", ".intercalate fields ++ ". Remove these fields or use the lower-level NvmsDriver::create_instance API until " ++
    "the C ABI grows additional setters."

def validate (config : NvmsConfig) : Except DriverError Unit :=
  if config.unsupportedFields = [] then .ok ()
  else .error (.config (unsupportedMessage config.unsupportedFields))

/-- what is accepted has nothing but a tier and a name -/
theorem validate_ok_iff {config : NvmsConfig} : config.validate = .ok () ↔ config = plain config.tier config.name := by
  obtain ⟨name, tier, cpuCount, memoryBytes, network, image, env⟩ := config
  unfold validate unsupportedFields plain
  cases cpuCount <;> cases memoryBytes <;> cases network <;> cases image <;> cases env <;> simp

/-- two of the factories make what is accepted, and the third never does -/
theorem factories (name : String) (defaultCpus : UInt32) (defaultMemoryBytes : UInt64) :
    (wasm name).validate = .ok () ∧ (gvisor name).validate = .ok () ∧
      (firecrackerWith name defaultCpus defaultMemoryBytes).validate ≠ .ok () := by
  refine ⟨validate_ok_iff.2 rfl, validate_ok_iff.2 rfl, fun h => ?_⟩
  exact absurd (congrArg NvmsConfig.cpuCount (validate_ok_iff.1 h)) (by simp [firecrackerWith, plain])

end NvmsConfig

/-! ## The driver -/

def nvmsTier : Tier → NvmsTier
  | .wasm => .wasm
  | .gvisor => .gvisor
  | .firecracker => .firecracker

@[simp] theorem ofNvms_tier (tier : Tier) : Tier.ofNvms (nvmsTier tier) = tier := by cases tier <;> rfl

/-- `Instance`: a pointer that is its own, and the tier it was created with -/
structure Instance where
  inner : ℕ
  tier : Tier
deriving DecidableEq

namespace Instance

def start (inst : Instance) (s : Shim) : Option (Except DriverError Unit × Shim) := do
  let id ← Ffi.Instance.id s inst.inner
  let (code, s) ← nvmsInstanceStart (some inst.inner) s
  pure (if code ≠ 0 then .error (.start id (.ofCode code)) else .ok (), s)

def stop (inst : Instance) (s : Shim) : Option (Except DriverError Unit × Shim) := do
  let id ← Ffi.Instance.id s inst.inner
  let (code, s) ← nvmsInstanceStop (some inst.inner) s
  pure (if code ≠ 0 then .error (.stop id (.ofCode code)) else .ok (), s)

def status (inst : Instance) (s : Shim) : Option Status := Ffi.Instance.status s inst.inner

def name (inst : Instance) (s : Shim) : Option String := Ffi.Instance.name s inst.inner

/-- a failure is reported with the id, which is in the memory just given back -/
def drop (inst : Instance) (s : Shim) : Option Shim := do
  let (code, s) ← nvmsInstanceDestroy (some inst.inner) s
  if code ≠ 0 then do
    let _ ← Ffi.Instance.id s inst.inner
    pure s
  else pure s

end Instance

def NvmsDriver.createInstance (overflowChecks : Bool) (tier : Tier) (name : String) (s : Shim) :
    Option (Except DriverError Instance × Shim) :=
  match CStr.new name with
  | none => some (.error (.createInstance tier name .createFailed), s)
  | some cName => do
    let (ptr, s) ← nvmsInstanceCreate overflowChecks (nvmsTier tier) (some cName) s
    match ptr with
    | none => some (.error (.createInstance tier name .createFailed), s)
    | some ptr => do
      let tier ← Ffi.Instance.tier s ptr
      pure (.ok ⟨ptr, tier⟩, s)

def NvmsDriver.createInstanceWithConfig (overflowChecks : Bool) (config : NvmsConfig) (s : Shim) :
    Option (Except DriverError Instance × Shim) :=
  match config.validate with
  | .error error => some (.error error, s)
  | .ok _ => NvmsDriver.createInstance overflowChecks config.tier config.name s

/-! ## Programs -/

/-- a program, and the instances that it owns -/
structure Program where
  shim : Shim
  owned : List Instance

def Program.new : Program := ⟨Shim.new, []⟩

/-- an instance is said by its place among those owned -/
inductive Request where
  | create (tier : Tier) (name : String)
  | createWithConfig (config : NvmsConfig)
  | start (k : ℕ)
  | stop (k : ℕ)
  | ask (k : ℕ)
  | drop (k : ℕ)
  | list

/-- the request is for a new instance -/
def Request.creates : Request → Bool
  | .create _ _ | .createWithConfig _ => true
  | _ => false

inductive Reply where
  | absent
  | done (result : Except DriverError Unit)
  | told (tier : Tier) (status : Status) (name : String)
  | listed (infos : List InstanceInfo)

/-- a new instance is owned from now on -/
def Program.take (p : Program) : Except DriverError Instance × Shim → Reply × Program
  | (.ok inst, s) => (.done (.ok ()), ⟨s, p.owned ++ [inst]⟩)
  | (.error error, s) => (.done (.error error), ⟨s, p.owned⟩)

def Program.own (p : Program) (k : ℕ) (f : Instance → Option (Reply × Program)) : Option (Reply × Program) :=
  match p.owned[k]? with
  | none => some (.absent, p)
  | some inst => f inst

def Program.perform (overflowChecks : Bool) (p : Program) : Request → Option (Reply × Program)
  | .create tier name => (NvmsDriver.createInstance overflowChecks tier name p.shim).map p.take
  | .createWithConfig config => (NvmsDriver.createInstanceWithConfig overflowChecks config p.shim).map p.take
  | .start k => p.own k fun inst => (inst.start p.shim).map fun (result, s) => (.done result, ⟨s, p.owned⟩)
  | .stop k => p.own k fun inst => (inst.stop p.shim).map fun (result, s) => (.done result, ⟨s, p.owned⟩)
  | .ask k => p.own k fun inst => do pure (.told inst.tier (← inst.status p.shim) (← inst.name p.shim), p)
  | .drop k => p.own k fun inst => (inst.drop p.shim).map fun s => (.done (.ok ()), ⟨s, p.owned.eraseIdx k⟩)
  | .list => some (.listed (NvmsDriver.listInstances p.shim), p)

/-- a request, and what the program is told -/
def Performs (overflowChecks : Bool) (p : Program) (e : Request × Reply) (p' : Program) : Prop :=
  p.perform overflowChecks e.1 = some (e.2, p')

/-! ## What the driver is for -/

structure Record where
  tier : Tier
  status : Status
  name : String

/-- a name of C is any but one with a NUL -/
def Creates (tier : Tier) (name : String) (l : List Record) (reply : Reply) (l' : List Record) : Prop :=
  if 0 ∈ bytes name then reply = .done (.error (.createInstance tier name .createFailed)) ∧ l' = l
  else reply = .done (.ok ()) ∧ l' = l ++ [⟨tier, .running, name⟩]

/-- something is done with one instance, if it is there -/
def Changes (k : ℕ) (f : Record → Reply × List Record) (l : List Record) (reply : Reply) (l' : List Record) : Prop :=
  match l[k]? with
  | none => reply = .absent ∧ l' = l
  | some r => (reply, l') = f r

/-- every instance is what was made of it, whatever happens to the others; a list may tell an old status -/
def Specified (l : List Record) (e : Request × Reply) (l' : List Record) : Prop :=
  match e.1 with
  | .create tier name => Creates tier name l e.2 l'
  | .createWithConfig config =>
    if config = .plain config.tier config.name then Creates config.tier config.name l e.2 l'
    else e.2 = .done (.error (.config (NvmsConfig.unsupportedMessage config.unsupportedFields))) ∧ l' = l
  | .start k => Changes k (fun r => (.done (.ok ()), l.set k { r with status := .running })) l e.2 l'
  | .stop k => Changes k (fun r => (.done (.ok ()), l.set k { r with status := .stopped })) l e.2 l'
  | .ask k => Changes k (fun r => (.told r.tier r.status r.name, l)) l e.2 l'
  | .drop k => Changes k (fun _ => (.done (.ok ()), l.eraseIdx k)) l e.2 l'
  | .list => ∃ infos, e.2 = .listed infos ∧ l' = l ∧ ∀ info ∈ infos, ∃ r ∈ l, info.tier = r.tier ∧ info.name = r.name

/-! ## What the interface does -/

section
variable {s : Shim} {overflowChecks : Bool}

theorem new_of_mem {text : String} : CStr.new text = none ↔ 0 ∈ bytes text := by
  unfold CStr.new
  split_ifs with h
  · simp [h]
  · simp [h]

theorem deref_set {instances : List (UInt64 × NvmsTier × NvmsStatus × String)} {ptr : ℕ} {i : NvmsInstance}
    (hi : s.deref ptr = some i) (v : Option NvmsInstance) (ptr' : ℕ) :
    Shim.deref { s with instances := instances, heap := s.heap.set ptr v } ptr' =
      if ptr' = ptr then v else s.deref ptr' := by
  have hlt := (List.getElem?_eq_some_iff.1 (Option.join_eq_some_iff.1 hi)).1
  simp only [Shim.deref, List.getElem?_set, eq_comm (a := ptr), hlt, if_true]
  split_ifs
  · rfl
  · rfl

theorem deref_append {i : NvmsInstance} (counter : UInt64) (instances : List (UInt64 × NvmsTier × NvmsStatus × String))
    (ptr : ℕ) : Shim.deref ⟨counter, instances, s.heap ++ [some i]⟩ ptr =
      if ptr = s.heap.length then some i else s.deref ptr := by
  simp only [Shim.deref, List.getElem?_append, List.getElem?_singleton]
  split_ifs with hlt heq heq' heq'
  · omega
  · rfl
  · rfl
  · omega
  · omega
  · rw [List.getElem?_eq_none (by omega)]

/-- a create, of a name without a NUL -/
theorem create_eq {name : String} {c : CStr} (hc : CStr.new name = some c) {id : UInt64}
    (hid : nextId overflowChecks s.instanceCounter = some id) (tier : NvmsTier) :
    nvmsInstanceCreate overflowChecks tier (some c) s = some (some s.heap.length, {
      instanceCounter := s.instanceCounter + 1
      instances := s.instances ++ [(id, tier, .running, name)]
      heap := s.heap ++ [some ⟨id, tier, .running, some c⟩] }) := by
  have hname : displayName (some c) = name := new_read hc
  simp only [nvmsInstanceCreate, hid, hname, hc]
  rfl

theorem setStatus_eq {ptr : ℕ} {i : NvmsInstance} (hi : s.deref ptr = some i) (status : NvmsStatus) :
    setStatus status (some ptr) s = some (0, { s with heap := s.heap.set ptr (some { i with status }) }) := by
  simp only [setStatus, hi]
  rfl

theorem drop_eq {inst : Instance} {i : NvmsInstance} (hi : s.deref inst.inner = some i) :
    inst.drop s = some { s with
      instances := s.instances.filter fun entry => entry.1 ≠ i.id
      heap := s.heap.set inst.inner none } := by
  simp only [Instance.drop, nvmsInstanceDestroy, hi]
  rfl

theorem start_eq {inst : Instance} {i : NvmsInstance} (hi : s.deref inst.inner = some i) :
    inst.start s = some (.ok (), { s with heap := s.heap.set inst.inner (some { i with status := .running }) }) := by
  simp only [Instance.start, Ffi.Instance.id, hi, nvmsInstanceStart, setStatus_eq hi]
  rfl

theorem stop_eq {inst : Instance} {i : NvmsInstance} (hi : s.deref inst.inner = some i) :
    inst.stop s = some (.ok (), { s with heap := s.heap.set inst.inner (some { i with status := .stopped }) }) := by
  simp only [Instance.stop, Ffi.Instance.id, hi, nvmsInstanceStop, setStatus_eq hi]
  rfl

end

/-! ## What is owned is allocated, and nothing else -/

/-- the instance is what the record says -/
structure Holds (s : Shim) (inst : Instance) (r : Record) : Prop where
  tier : inst.tier = r.tier
  allocated : ∃ i, s.deref inst.inner = some i ∧ Tier.ofNvms i.tier = r.tier ∧ Status.ofNvms i.status = r.status ∧
    cstrToString i.name = r.name

/-- one allocation for each instance owned, and what is registered is allocated -/
structure Represents (p : Program) (l : List Record) : Prop where
  length : p.owned.length = l.length
  holds : ∀ (k : ℕ) inst r, p.owned[k]? = some inst → l[k]? = some r → Holds p.shim inst r
  distinct : ∀ (j k : ℕ) inst inst', p.owned[j]? = some inst → p.owned[k]? = some inst' →
    inst.inner = inst'.inner → j = k
  live : ∀ ptr i, p.shim.deref ptr = some i → ∃ (k : ℕ) (inst : Instance), p.owned[k]? = some inst ∧ inst.inner = ptr
  registered : ∀ e ∈ p.shim.instances, ∃ ptr i, p.shim.deref ptr = some i ∧ i.id = e.1 ∧ i.tier = e.2.1 ∧
    cstrToString i.name = e.2.2.2

theorem represents_new : Represents Program.new [] where
  length := rfl
  holds _ _ _ h := by cases h
  distinct _ _ _ _ h := by cases h
  live _ _ h := by cases h
  registered _ h := by cases h

section
variable {p : Program} {l : List Record} {k : ℕ} {inst : Instance} {r : Record} {i : NvmsInstance}

theorem Represents.record (h : Represents p l) (hinst : p.owned[k]? = some inst) : ∃ r, l[k]? = some r := by
  have hlt : k < l.length := h.length ▸ (List.getElem?_eq_some_iff.1 hinst).1
  exact ⟨l[k], List.getElem?_eq_getElem hlt⟩

theorem Represents.absent (h : Represents p l) : p.owned[k]? = none ↔ l[k]? = none := by
  rw [List.getElem?_eq_none_iff, List.getElem?_eq_none_iff, h.length]

/-- a new instance is at the end -/
theorem Represents.created (h : Represents p l) {id counter : UInt64} {tier : Tier} {name : String} {c : CStr}
    (hc : CStr.new name = some c) :
    Represents ⟨⟨counter, p.shim.instances ++ [(id, nvmsTier tier, .running, name)],
      p.shim.heap ++ [some ⟨id, nvmsTier tier, .running, some c⟩]⟩, p.owned ++ [⟨p.shim.heap.length, tier⟩]⟩
      (l ++ [⟨tier, .running, name⟩]) := by
  have hbefore : ∀ {ptr i}, p.shim.deref ptr = some i → ptr ≠ p.shim.heap.length := by
    rintro ptr i hi rfl
    simp [Shim.deref] at hi
  have hinner : ∀ {k : ℕ} {inst}, p.owned[k]? = some inst → inst.inner ≠ p.shim.heap.length := by
    intro k inst hinst
    obtain ⟨r, hr⟩ := h.record hinst
    obtain ⟨i, hi, -⟩ := (h.holds k inst r hinst hr).allocated
    exact hbefore hi
  refine ⟨by simp [h.length], ?_, ?_, ?_, ?_⟩
  · intro k inst r hinst hr
    rw [List.getElem?_append] at hinst hr
    rw [← h.length] at hr
    split_ifs at hinst hr with hlt
    · obtain ⟨htier, i, hi, hholds⟩ := h.holds k inst r hinst hr
      exact ⟨htier, i, by rw [deref_append, if_neg (hbefore hi), hi], hholds⟩
    · obtain rfl := List.mem_singleton.1 (List.mem_of_getElem? hinst)
      obtain rfl := List.mem_singleton.1 (List.mem_of_getElem? hr)
      exact ⟨rfl, _, by rw [deref_append, if_pos rfl], ofNvms_tier tier, rfl, new_read hc⟩
  · intro j k inst inst' hinst hinst' hsame
    rw [List.getElem?_append] at hinst hinst'
    split_ifs at hinst hinst' with hj hk hk
    · exact h.distinct j k inst inst' hinst hinst' hsame
    · obtain rfl := List.mem_singleton.1 (List.mem_of_getElem? hinst')
      exact absurd hsame (hinner hinst)
    · obtain rfl := List.mem_singleton.1 (List.mem_of_getElem? hinst)
      exact absurd hsame.symm (hinner hinst')
    · have hj' := (List.getElem?_eq_some_iff.1 hinst).1
      have hk' := (List.getElem?_eq_some_iff.1 hinst').1
      simp only [List.length_singleton] at hj' hk'
      omega
  · intro ptr i hi
    rw [deref_append] at hi
    split_ifs at hi with heq
    · exact ⟨p.owned.length, _, List.getElem?_concat_length, heq.symm⟩
    · obtain ⟨k, inst, hinst, hptr⟩ := h.live ptr i hi
      have hlt := (List.getElem?_eq_some_iff.1 hinst).1
      exact ⟨k, inst, by rw [List.getElem?_append_left hlt, hinst], hptr⟩
  · intro e he
    rcases List.mem_append.1 he with he | he
    · obtain ⟨ptr, i, hi, hentry⟩ := h.registered e he
      exact ⟨ptr, i, by rw [deref_append, if_neg (hbefore hi), hi], hentry⟩
    · obtain rfl := List.mem_singleton.1 he
      exact ⟨_, _, by rw [deref_append, if_pos rfl], rfl, rfl, new_read hc⟩

/-- one instance changes its status, and no other -/
theorem Represents.setStatus (h : Represents p l) (hinst : p.owned[k]? = some inst) (hr : l[k]? = some r)
    (hi : p.shim.deref inst.inner = some i) (status : NvmsStatus) :
    Represents ⟨{ p.shim with heap := p.shim.heap.set inst.inner (some { i with status }) }, p.owned⟩
      (l.set k { r with status := Status.ofNvms status }) := by
  obtain ⟨htier, i', hi', hitier, -, hname⟩ := h.holds k inst r hinst hr
  obtain rfl : i' = i := Option.some.inj (hi'.symm.trans hi)
  refine ⟨by simp [h.length], ?_, h.distinct, ?_, ?_⟩
  · intro j inst' r' hinst' hr'
    rw [List.getElem?_set] at hr'
    split_ifs at hr' with heq hlt
    · subst heq
      obtain rfl : inst = inst' := Option.some.inj (hinst.symm.trans hinst')
      cases hr'
      exact ⟨htier, { i' with status }, (deref_set hi _ _).trans (if_pos rfl), hitier, rfl, hname⟩
    · obtain ⟨htier', j', hj', hholds⟩ := h.holds j inst' r' hinst' hr'
      have hne : inst'.inner ≠ inst.inner := fun he => heq (h.distinct j k inst' inst hinst' hinst he).symm
      exact ⟨htier', j', by rw [deref_set hi, if_neg hne, hj'], hholds⟩
  · intro ptr j hj
    rw [deref_set hi] at hj
    split_ifs at hj with heq
    · exact ⟨k, inst, hinst, heq.symm⟩
    · exact h.live ptr j hj
  · intro e he
    obtain ⟨ptr, j, hj, hentry⟩ := h.registered e he
    by_cases heq : ptr = inst.inner
    · subst heq
      obtain rfl : j = i' := Option.some.inj (hj.symm.trans hi)
      exact ⟨_, { j with status }, (deref_set hi _ _).trans (if_pos rfl), hentry⟩
    · exact ⟨ptr, j, by rw [deref_set hi, if_neg heq, hj], hentry⟩

/-- an instance is gone, and no other -/
theorem Represents.dropped (h : Represents p l) (hinst : p.owned[k]? = some inst)
    (hi : p.shim.deref inst.inner = some i) :
    Represents ⟨{ p.shim with
      instances := p.shim.instances.filter fun entry => entry.1 ≠ i.id
      heap := p.shim.heap.set inst.inner none }, p.owned.eraseIdx k⟩ (l.eraseIdx k) := by
  have hlt := (List.getElem?_eq_some_iff.1 hinst).1
  -- what is at a place of the shorter list was at another place before
  have hplace : ∀ {j : ℕ} {inst'}, (p.owned.eraseIdx k)[j]? = some inst' →
      ∃ j' : ℕ, j' ≠ k ∧ p.owned[j']? = some inst' ∧ (l.eraseIdx k)[j]? = l[j']? ∧ (j' = if j < k then j else j + 1) := by
    intro j inst' hj
    rw [List.getElem?_eraseIdx] at hj ⊢
    split_ifs at hj ⊢ with hjk
    · exact ⟨j, by omega, hj, rfl, rfl⟩
    · exact ⟨j + 1, by omega, hj, rfl, rfl⟩
  refine ⟨?_, ?_, ?_, ?_, ?_⟩
  · rw [List.length_eraseIdx, List.length_eraseIdx, h.length]
  · intro j inst' r' hinst' hr'
    obtain ⟨j', hne, hj', hrecord, -⟩ := hplace hinst'
    obtain ⟨htier', i', hi', hholds⟩ := h.holds j' inst' r' hj' (hrecord.symm.trans hr')
    have hptr : inst'.inner ≠ inst.inner := fun he => hne (h.distinct j' k inst' inst hj' hinst he)
    exact ⟨htier', i', by rw [deref_set hi, if_neg hptr, hi'], hholds⟩
  · intro a b inst' inst'' ha hb hsame
    obtain ⟨a', -, ha', -, hplaceA⟩ := hplace ha
    obtain ⟨b', -, hb', -, hplaceB⟩ := hplace hb
    have := h.distinct a' b' inst' inst'' ha' hb' hsame
    split_ifs at hplaceA hplaceB <;> omega
  · intro ptr j hj
    rw [deref_set hi] at hj
    split_ifs at hj with heq
    obtain ⟨j', inst', hinst', hptr⟩ := h.live ptr j hj
    have hne : j' ≠ k := by
      rintro rfl
      obtain rfl : inst = inst' := Option.some.inj (hinst.symm.trans hinst')
      exact heq hptr.symm
    refine ⟨if j' < k then j' else j' - 1, inst', ?_, hptr⟩
    rw [List.getElem?_eraseIdx]
    split_ifs with hjk
    · exact hinst'
    · omega
    · rw [Nat.sub_add_cancel (by omega), hinst']
  · intro e he
    obtain ⟨he, hid⟩ := List.mem_filter.1 he
    obtain ⟨ptr, j, hj, hentry⟩ := h.registered e he
    have hptr : ptr ≠ inst.inner := by
      rintro rfl
      obtain rfl : j = i := Option.some.inj (hj.symm.trans hi)
      exact (of_decide_eq_true hid) hentry.1.symm
    exact ⟨ptr, j, by rw [deref_set hi, if_neg hptr, hj], hentry⟩

end

/-! ## Whole runs -/

section
variable {overflowChecks : Bool} {p p' : Program} {l : List Record}

/-- the counter is at its end, and that is checked: the next creation aborts the process -/
def Exhausted (overflowChecks : Bool) (p : Program) : Prop := nextId overflowChecks p.shim.instanceCounter = none

/-- what becomes of a creation -/
theorem create_cases (overflowChecks : Bool) (p : Program) (tier : Tier) (name : String) :
    (0 ∈ bytes name ∧ NvmsDriver.createInstance overflowChecks tier name p.shim =
        some (.error (.createInstance tier name .createFailed), p.shim)) ∨
      0 ∉ bytes name ∧ (Exhausted overflowChecks p ∧
          NvmsDriver.createInstance overflowChecks tier name p.shim = none ∨
        ∃ id c, CStr.new name = some c ∧ NvmsDriver.createInstance overflowChecks tier name p.shim =
          some (.ok ⟨p.shim.heap.length, tier⟩, ⟨p.shim.instanceCounter + 1,
            p.shim.instances ++ [(id, nvmsTier tier, .running, name)],
            p.shim.heap ++ [some ⟨id, nvmsTier tier, .running, some c⟩]⟩)) := by
  rw [← new_of_mem]
  unfold NvmsDriver.createInstance
  cases hc : CStr.new name with
  | none => exact .inl ⟨rfl, rfl⟩
  | some c =>
    refine .inr ⟨by simp, ?_⟩
    cases hid : nextId overflowChecks p.shim.instanceCounter with
    | none => exact .inl ⟨hid, by simp only [nvmsInstanceCreate, hid]; rfl⟩
    | some id =>
      refine .inr ⟨id, c, rfl, ?_⟩
      simp only [create_eq hc hid, Option.bind_eq_bind, Option.bind_some, Ffi.Instance.tier, deref_append, if_true,
        Option.map_some, ofNvms_tier]
      rfl

/-- a creation is as specified, with the new state represented -/
theorem Represents.creates (h : Represents p l) {tier : Tier} {name : String} {reply : Reply}
    (hp : (NvmsDriver.createInstance overflowChecks tier name p.shim).map p.take = some (reply, p')) :
    ∃ l', Creates tier name l reply l' ∧ Represents p' l' := by
  unfold Creates
  obtain ⟨hnul, heq⟩ | ⟨hnul, ⟨-, heq⟩ | ⟨id, c, hc, heq⟩⟩ := create_cases overflowChecks p tier name
  · rw [heq] at hp
    cases hp
    exact ⟨l, by rw [if_pos hnul]; exact ⟨rfl, rfl⟩, h⟩
  · rw [heq] at hp
    cases hp
  · rw [heq] at hp
    cases hp
    exact ⟨_, by rw [if_neg hnul]; exact ⟨rfl, rfl⟩, h.created hc⟩

/-- what is done with one instance is as specified -/
theorem Represents.changes (h : Represents p l) {k : ℕ} {f : Instance → Option (Reply × Program)}
    {g : Record → Reply × List Record} {reply : Reply} (hp : p.own k f = some (reply, p'))
    (hf : ∀ inst r i, p.owned[k]? = some inst → l[k]? = some r → p.shim.deref inst.inner = some i →
      ∃ q, f inst = some ((g r).1, q) ∧ Represents q (g r).2) :
    ∃ l', Changes k g l reply l' ∧ Represents p' l' := by
  unfold Program.own at hp
  unfold Changes
  cases hinst : p.owned[k]? with
  | none =>
    rw [hinst] at hp
    cases hp
    exact ⟨l, by rw [h.absent.1 hinst]; exact ⟨rfl, rfl⟩, h⟩
  | some inst =>
    obtain ⟨r, hr⟩ := h.record hinst
    obtain ⟨i, hi, -⟩ := (h.holds k inst r hinst hr).allocated
    obtain ⟨q, hq, hrepresents⟩ := hf inst r i hinst hr hi
    rw [hinst] at hp
    obtain ⟨rfl, rfl⟩ : reply = (g r).1 ∧ p' = q := by simpa using hp.symm.trans hq
    exact ⟨(g r).2, by rw [hr], hrepresents⟩

/-- every request is answered as specified -/
theorem Represents.performs (h : Represents p l) {e : Request × Reply} (hp : Performs overflowChecks p e p') :
    ∃ l', Specified l e l' ∧ Represents p' l' := by
  obtain ⟨request, reply⟩ := e
  cases request with
  | create tier name => exact h.creates hp
  | createWithConfig config =>
    simp only [Performs, Program.perform, NvmsDriver.createInstanceWithConfig] at hp
    simp only [Specified]
    by_cases hplain : config = .plain config.tier config.name
    · rw [NvmsConfig.validate_ok_iff.2 hplain] at hp
      simpa only [if_pos hplain] using h.creates hp
    · have hvalidate : config.validate = .error (.config (NvmsConfig.unsupportedMessage config.unsupportedFields)) := by
        have hrefused := mt NvmsConfig.validate_ok_iff.1 hplain
        unfold NvmsConfig.validate at hrefused ⊢
        split_ifs at hrefused ⊢
        · exact absurd rfl hrefused
        · rfl
      rw [hvalidate] at hp
      cases hp
      exact ⟨l, by rw [if_neg hplain]; exact ⟨rfl, rfl⟩, h⟩
  | start k =>
    exact h.changes hp fun inst r i hinst hr hi => ⟨_, by rw [start_eq hi]; rfl, h.setStatus hinst hr hi .running⟩
  | stop k =>
    exact h.changes hp fun inst r i hinst hr hi => ⟨_, by rw [stop_eq hi]; rfl, h.setStatus hinst hr hi .stopped⟩
  | ask k =>
    refine h.changes hp fun inst r i hinst hr hi => ⟨p, ?_, h⟩
    obtain ⟨htier, i', hi', -, hstatus, hname⟩ := h.holds k inst r hinst hr
    simp only [Instance.status, Ffi.Instance.status, nvmsInstanceStatus, Instance.name, Ffi.Instance.name, hi',
      Option.map_some, htier, hstatus, hname]
    rfl
  | drop k =>
    exact h.changes hp fun inst r i hinst hr hi => ⟨_, by rw [drop_eq hi]; rfl, h.dropped hinst hi⟩
  | list =>
    cases hp
    refine ⟨l, ⟨_, rfl, rfl, fun info hinfo => ?_⟩, h⟩
    obtain ⟨e, he, rfl⟩ := List.mem_map.1 hinfo
    obtain ⟨e', he', rfl⟩ := List.mem_map.1 he
    obtain ⟨ptr, i, hi, -, htier, hname⟩ := h.registered e' he'
    obtain ⟨k, inst, hinst, rfl⟩ := h.live ptr i hi
    obtain ⟨r, hr⟩ := h.record hinst
    obtain ⟨-, i', hi', htier', -, hname'⟩ := h.holds k inst r hinst hr
    obtain rfl : i' = i := Option.some.inj (hi'.symm.trans hi)
    refine ⟨r, List.mem_of_getElem? hr, ?_, ?_⟩
    · rw [← htier', htier]
      rfl
    · rw [← hname', hname]
      rfl

/-- nothing that a program can ask for uses freed memory -/
theorem Represents.defined (h : Represents p l) (request : Request) :
    (∃ reply p', Performs overflowChecks p (request, reply) p') ∨
      request.creates = true ∧ Exhausted overflowChecks p := by
  have hcreate : ∀ tier name, (∃ reply p', (NvmsDriver.createInstance overflowChecks tier name p.shim).map p.take =
      some (reply, p')) ∨ Exhausted overflowChecks p := by
    intro tier name
    obtain ⟨-, heq⟩ | ⟨-, ⟨hexhausted, -⟩ | ⟨id, c, -, heq⟩⟩ :=
      create_cases overflowChecks p tier name
    · exact .inl ⟨_, _, by rw [heq]; rfl⟩
    · exact .inr hexhausted
    · exact .inl ⟨_, _, by rw [heq]; rfl⟩
  have hown : ∀ (k : ℕ) (f : Instance → Option (Reply × Program)),
      (∀ inst r i, p.shim.deref inst.inner = some i → Holds p.shim inst r → ∃ reply p', f inst = some (reply, p')) →
      ∃ reply p', p.own k f = some (reply, p') := by
    intro k f hf
    unfold Program.own
    cases hinst : p.owned[k]? with
    | none => exact ⟨_, _, rfl⟩
    | some inst =>
      obtain ⟨r, hr⟩ := h.record hinst
      have hholds := h.holds k inst r hinst hr
      obtain ⟨i, hi, -⟩ := hholds.allocated
      exact hf inst r i hi hholds
  cases request with
  | create tier name => exact (hcreate tier name).imp_right fun hexhausted => ⟨rfl, hexhausted⟩
  | createWithConfig config =>
    simp only [Performs, Program.perform, NvmsDriver.createInstanceWithConfig]
    cases config.validate with
    | ok => exact (hcreate config.tier config.name).imp_right fun hexhausted => ⟨rfl, hexhausted⟩
    | error => exact .inl ⟨_, _, rfl⟩
  | start k => exact .inl (hown k _ fun inst _ i hi _ => ⟨_, _, by rw [start_eq hi]; rfl⟩)
  | stop k => exact .inl (hown k _ fun inst _ i hi _ => ⟨_, _, by rw [stop_eq hi]; rfl⟩)
  | ask k =>
    refine .inl (hown k _ fun inst r i hi _ => ⟨.told inst.tier (.ofNvms i.status) (cstrToString i.name), p, ?_⟩)
    simp only [Instance.status, Ffi.Instance.status, nvmsInstanceStatus, Instance.name, Ffi.Instance.name, hi]
    rfl
  | drop k => exact .inl (hown k _ fun inst _ i hi _ => ⟨_, _, by rw [drop_eq hi]; rfl⟩)
  | list => exact .inl ⟨_, _, rfl⟩

theorem represented {t : List (Request × Reply)} (h : Runs (Performs overflowChecks) Program.new t p) :
    ∃ l, Runs Specified [] t l ∧ Represents p l := by
  refine h.simulated (R := Represents) ?_ represents_new
  exact fun _ _ _ _ hrepresents hp => hrepresents.performs hp

/-- **Instances are independent.** In every run of a program over the driver, every reply is one that a list of
independent instances would give: a new one runs under its tier and name, starting and stopping change only the status of
the one that is meant, dropping one takes away only that one, a configuration with more than a tier and a name is refused
with its fields and nothing created, and a listed instance has the tier and the name of one that is owned. -/
theorem driver_refines {t : List (Request × Reply)} (h : Runs (Performs overflowChecks) Program.new t p) :
    ∃ l, Runs Specified [] t l ∧ p.owned.length = l.length := by
  obtain ⟨l, hl, hrepresents⟩ := represented h
  exact ⟨l, hl, hrepresents.length⟩

/-- **No use after free, no double free, no leak.** In every state that a program can reach, whatever it asks for next has
an outcome, unless it is one creation too many in a build that checks for that; what is allocated is exactly what it owns,
one allocation each, and once it owns nothing no instance is listed. -/
theorem driver_memory_safe {t : List (Request × Reply)} (h : Runs (Performs overflowChecks) Program.new t p) :
    (∀ request, (∃ reply p', Performs overflowChecks p (request, reply) p') ∨
      request.creates = true ∧ overflowChecks = true ∧ p.shim.instanceCounter = 0xffffffffffffffff) ∧
    (∀ ptr, ptr ∈ live p.shim ↔ ptr ∈ p.owned.map (·.inner)) ∧ (p.owned.map (·.inner)).Nodup ∧
    (p.owned = [] → NvmsDriver.listInstances p.shim = []) := by
  obtain ⟨l, -, hrepresents⟩ := represented h
  refine ⟨fun request => ?_, fun ptr => ?_, ?_, fun hnone => ?_⟩
  · refine (hrepresents.defined request).imp_right (And.imp_right fun hexhausted => ?_)
    unfold Exhausted nextId at hexhausted
    split_ifs at hexhausted with hend
    exact hend
  · rw [mem_live, List.mem_map]
    refine ⟨fun ⟨i, hi⟩ => ?_, fun ⟨inst, hinst, hptr⟩ => ?_⟩
    · obtain ⟨k, inst, hinst, hptr⟩ := hrepresents.live ptr i hi
      exact ⟨inst, List.mem_of_getElem? hinst, hptr⟩
    · obtain ⟨k, hk⟩ := List.mem_iff_getElem?.1 hinst
      obtain ⟨r, hr⟩ := hrepresents.record hk
      obtain ⟨i, hi, -⟩ := (hrepresents.holds k inst r hk hr).allocated
      exact ⟨i, hptr ▸ hi⟩
  · refine List.nodup_iff_getElem?_ne_getElem?.2 fun j k hjk hk hsame => ?_
    rw [List.length_map] at hk
    rw [List.getElem?_map, List.getElem?_map, List.getElem?_eq_getElem hk,
      List.getElem?_eq_getElem (hjk.trans hk), Option.map_some, Option.map_some] at hsame
    exact hjk.ne (hrepresents.distinct j k _ _ (List.getElem?_eq_getElem _) (List.getElem?_eq_getElem hk)
      (Option.some.inj hsame))
  · suffices hinstances : p.shim.instances = [] by
      rw [NvmsDriver.listInstances, listInstances, hinstances]
      rfl
    refine List.eq_nil_iff_forall_not_mem.2 fun e he => ?_
    obtain ⟨ptr, i, hi, -⟩ := hrepresents.registered e he
    obtain ⟨k, inst, hinst, -⟩ := hrepresents.live ptr i hi
    rw [hnone] at hinst
    cases hinst

end

/-- two instances; the first one is stopped, and is gone while the second one still runs -/
def twoInstances : List (Request × Reply) :=
  [(.create .wasm "api", .done (.ok ())), (.create .gvisor "db", .done (.ok ())), (.stop 0, .done (.ok ())),
    (.ask 0, .told .wasm .stopped "api"), (.ask 1, .told .gvisor .running "db"), (.drop 0, .done (.ok ())),
    (.ask 0, .told .gvisor .running "db")]

/-- the second one is alone, in the second place of the heap -/
def oneOwned : Program :=
  ⟨⟨2, [(2, .gvisor, .running, "db")], [none, some ⟨2, .gvisor, .running, CStr.new "db"⟩]⟩, [⟨1, .gvisor⟩]⟩

theorem twoInstances_run : Runs (Performs true) Program.new twoInstances oneOwned :=
  .cons rfl <| .cons rfl <| .cons rfl <| .cons rfl <| .cons rfl <| .cons rfl <| .cons rfl .nil

theorem driver_refines_example : ∃ p l, Runs (Performs true) Program.new twoInstances p ∧
    Runs Specified [] twoInstances l ∧ p.owned.length = l.length := by
  obtain ⟨l, hl⟩ := driver_refines twoInstances_run
  exact ⟨oneOwned, l, twoInstances_run, hl⟩

/-- once the second one is dropped too, nothing is left of either -/
theorem driver_memory_safe_example : ∃ p,
    Runs (Performs true) Program.new (twoInstances ++ [(.drop 0, .done (.ok ()))]) p ∧ live p.shim = [] ∧
      NvmsDriver.listInstances p.shim = [] := by
  have hrun : Runs (Performs true) Program.new (twoInstances ++ [(.drop 0, .done (.ok ()))])
      ⟨⟨2, [], [none, none]⟩, []⟩ := runs_snoc.2 ⟨oneOwned, twoInstances_run, rfl⟩
  obtain ⟨-, hlive, -, hlist⟩ := driver_memory_safe hrun
  refine ⟨_, hrun, List.eq_nil_iff_forall_not_mem.2 fun ptr hptr => ?_, hlist rfl⟩
  have hmem := (hlive ptr).1 hptr
  cases hmem

end PhenoCompose.Driver
