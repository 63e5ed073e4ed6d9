/-
`PhenoConfig::load`: built-in defaults, under `PhenoCompose.toml`, under the variables that begin with `PHENO_`.

What figment does is a parameter. `Figment.Documented` is what is relied on: a later layer overrides an earlier one key by
key, and every "_" in the name of a variable starts a new key. Most fields have a "_" in their own names, so their
variables are put in elsewhere.

- `held_read`: a loaded field is what the environment holds for it, else what the file holds, else its default.
- `read_heard`: the environment holds what the last variable said that says anything of the field.
- `env_overrides_iff`: when the field's own variable does override it.
- `variable_ignored`: a sandbox limit that is set in the environment and stays at its default.
-/
import PhenoCompose.Core.Layers
import PhenoCompose.Core.Split

namespace PhenoCompose.Config

open Core.Collections Core.Json Core.Split Core.Text

/-! ## The configuration -/

/-- `std::env::consts` -/
structure Host where
  os : String
  arch : String

/-- the figment crate -/
structure Figment where
  /-- two values, the second over the first -/
  merge : Value → Value → Value
  /-- the keys that `Env::prefixed(start).split(separator)` makes of the name of a variable, if it takes it -/
  envKeys : String → String → String → Option (List String)
  /-- the value that the text of a variable is read as -/
  parse : String → Value
  /-- the members of a TOML document -/
  toml : String → Option (List (String × Value))
  /-- an integer as the bits of an `f64` -/
  f64OfInt : ℤ → UInt64

structure NvmsConfig where
  version : String
  platform : String
deriving DecidableEq

structure SandboxConfig where
  maxSandboxIdLen : UInt64
  startupMsWasm : UInt32
  startupMsGvisor : UInt32
  startupMsFirecracker : UInt32
deriving DecidableEq

/-- `gpuUtilization` by its bits -/
structure PerfConfig where
  startupTimeNs : UInt64
  memoryUsedBytes : UInt64
  gpuUtilization : UInt64
deriving DecidableEq

structure GpuConfig where
  memoryBytes : UInt64
  computeUnits : UInt32
deriving DecidableEq

structure DriverConfig where
  firecrackerDefaultCpus : UInt32
  firecrackerDefaultMemoryBytes : UInt64
deriving DecidableEq

structure PhenoConfig where
  nvms : NvmsConfig
  sandbox : SandboxConfig
  perf : PerfConfig
  gpu : GpuConfig
  driver : DriverConfig
deriving DecidableEq

/-- the leaf fields -/
inductive Field where
  | version
  | platform
  | maxSandboxIdLen
  | startupMsWasm
  | startupMsGvisor
  | startupMsFirecracker
  | startupTimeNs
  | memoryUsedBytes
  | gpuUtilization
  | memoryBytes
  | computeUnits
  | firecrackerDefaultCpus
  | firecrackerDefaultMemoryBytes
deriving DecidableEq, Repr

variable (figment : Figment) (host : Host)

def NvmsConfig.default : NvmsConfig := { version := "1.0.0", platform := host.os ++ "/" ++ host.arch }

def SandboxConfig.default : SandboxConfig where
  maxSandboxIdLen := 128
  startupMsWasm := 1
  startupMsGvisor := 90
  startupMsFirecracker := 125

def PerfConfig.default : PerfConfig where
  startupTimeNs := 1000000
  memoryUsedBytes := 64 * 1024 * 1024
  gpuUtilization := 0

def GpuConfig.default : GpuConfig := { memoryBytes := 8 * 1024 * 1024 * 1024, computeUnits := 8 }

def DriverConfig.default : DriverConfig where
  firecrackerDefaultCpus := 2
  firecrackerDefaultMemoryBytes := 2 * 1024 * 1024 * 1024

def PhenoConfig.default : PhenoConfig where
  nvms := .default host
  sandbox := .default
  perf := .default
  gpu := .default
  driver := .default

/-- an `f64`, which an integer can be read as -/
def f64 : Codec UInt64 where
  encode := .float
  decode
    | .float bits => some bits
    | .number z => some (figment.f64OfInt z)
    | _ => none
  read_back ht a := by rw [ht.scalar _ rfl]

def NvmsConfig.codec : Codec NvmsConfig :=
  openRecord ((defaulted "version" .string (NvmsConfig.default host).version (·.version)).and
    (defaulted "platform" .string (NvmsConfig.default host).platform (·.platform)))
    (fun (version, platform) => { version, platform }) (fun _ => rfl) (show ["version", "platform"].Nodup by decide)

def SandboxConfig.codec : Codec SandboxConfig :=
  openRecord ((defaulted "max_sandbox_id_len" .u64 SandboxConfig.default.maxSandboxIdLen (·.maxSandboxIdLen)).and <|
    (defaulted "startup_ms_wasm" .u32 SandboxConfig.default.startupMsWasm (·.startupMsWasm)).and <|
    (defaulted "startup_ms_gvisor" .u32 SandboxConfig.default.startupMsGvisor (·.startupMsGvisor)).and
    (defaulted "startup_ms_firecracker" .u32 SandboxConfig.default.startupMsFirecracker (·.startupMsFirecracker)))
    (fun (maxSandboxIdLen, startupMsWasm, startupMsGvisor, startupMsFirecracker) =>
      { maxSandboxIdLen, startupMsWasm, startupMsGvisor, startupMsFirecracker }) (fun _ => rfl) (by decide)

def PerfConfig.codec : Codec PerfConfig :=
  openRecord ((defaulted "startup_time_ns" .u64 PerfConfig.default.startupTimeNs (·.startupTimeNs)).and <|
    (defaulted "memory_used_bytes" .u64 PerfConfig.default.memoryUsedBytes (·.memoryUsedBytes)).and
    (defaulted "gpu_utilization" (f64 figment) PerfConfig.default.gpuUtilization (·.gpuUtilization)))
    (fun (startupTimeNs, memoryUsedBytes, gpuUtilization) =>
      { startupTimeNs, memoryUsedBytes, gpuUtilization }) (fun _ => rfl)
    (show ["startup_time_ns", "memory_used_bytes", "gpu_utilization"].Nodup by decide)

def GpuConfig.codec : Codec GpuConfig :=
  openRecord ((defaulted "memory_bytes" .u64 GpuConfig.default.memoryBytes (·.memoryBytes)).and
    (defaulted "compute_units" .u32 GpuConfig.default.computeUnits (·.computeUnits)))
    (fun (memoryBytes, computeUnits) => { memoryBytes, computeUnits }) (fun _ => rfl) (by decide)

def DriverConfig.codec : Codec DriverConfig :=
  openRecord ((defaulted "firecracker_default_cpus" .u32 DriverConfig.default.firecrackerDefaultCpus
      (·.firecrackerDefaultCpus)).and
    (defaulted "firecracker_default_memory_bytes" .u64 DriverConfig.default.firecrackerDefaultMemoryBytes
      (·.firecrackerDefaultMemoryBytes)))
    (fun (firecrackerDefaultCpus, firecrackerDefaultMemoryBytes) =>
      { firecrackerDefaultCpus, firecrackerDefaultMemoryBytes }) (fun _ => rfl) (by decide)

def PhenoConfig.codec : Codec PhenoConfig :=
  openRecord ((defaulted "nvms" (NvmsConfig.codec host) (NvmsConfig.default host) (·.nvms)).and <|
    (defaulted "sandbox" SandboxConfig.codec .default (·.sandbox)).and <|
    (defaulted "perf" (PerfConfig.codec figment) .default (·.perf)).and <|
    (defaulted "gpu" GpuConfig.codec .default (·.gpu)).and
    (defaulted "driver" DriverConfig.codec .default (·.driver)))
    (fun (nvms, sandbox, perf, gpu, driver) => { nvms, sandbox, perf, gpu, driver }) (fun _ => rfl)
    (show ["nvms", "sandbox", "perf", "gpu", "driver"].Nodup by decide)

/-! ## Loading -/

/-- the variables of a process, in the order it lists them -/
structure Environment where
  vars : List (String × String)
  distinct : (vars.map Prod.fst).Nodup

/-- `std::env::var` -/
def Environment.var (env : Environment) (name : String) : Option String := env.vars.lookup name

/-- the keys and the value that a variable is put in with -/
def envEntry (e : String × String) : Option (List String × Value) :=
  (figment.envKeys "PHENO_" "_" e.1).map (·, figment.parse e.2)

/-- `Env::prefixed("PHENO_").split("_")` -/
def envLayer (env : Environment) : Value := overlay figment.merge (envEntry figment) env.vars (.object [])

/-- `Toml::file("PhenoCompose.toml")`; no file is an empty one -/
def fileLayer (file : Option String) : Option (List (String × Value)) :=
  match file with
  | none => some []
  | some text => figment.toml text

/-- `Figment::new().merge(..).merge(..).merge(..)` -/
def merged (members : List (String × Value)) (env : Environment) : Value :=
  let defaults := (PhenoConfig.codec figment host).encode (PhenoConfig.default host)
  figment.merge (figment.merge (figment.merge (.object []) defaults) (.object members)) (envLayer figment env)

def PhenoConfig.load (file : Option String) (env : Environment) : Option PhenoConfig := do
  let members ← fileLayer figment file
  (PhenoConfig.codec figment host).decode (merged figment host members env)

/-! ## Fields -/

namespace Field

def all : List Field :=
  [.version, .platform, .maxSandboxIdLen, .startupMsWasm, .startupMsGvisor, .startupMsFirecracker,
    .startupTimeNs, .memoryUsedBytes, .gpuUtilization, .memoryBytes, .computeUnits, .firecrackerDefaultCpus,
    .firecrackerDefaultMemoryBytes]

theorem mem_all (f : Field) : f ∈ all := by cases f <;> decide

/-- the section that the field is in -/
def table : Field → String
  | .version | .platform => "nvms"
  | .maxSandboxIdLen | .startupMsWasm | .startupMsGvisor | .startupMsFirecracker => "sandbox"
  | .startupTimeNs | .memoryUsedBytes | .gpuUtilization => "perf"
  | .memoryBytes | .computeUnits => "gpu"
  | .firecrackerDefaultCpus | .firecrackerDefaultMemoryBytes => "driver"

def name : Field → String
  | .version => "version"
  | .platform => "platform"
  | .maxSandboxIdLen => "max_sandbox_id_len"
  | .startupMsWasm => "startup_ms_wasm"
  | .startupMsGvisor => "startup_ms_gvisor"
  | .startupMsFirecracker => "startup_ms_firecracker"
  | .startupTimeNs => "startup_time_ns"
  | .memoryUsedBytes => "memory_used_bytes"
  | .gpuUtilization => "gpu_utilization"
  | .memoryBytes => "memory_bytes"
  | .computeUnits => "compute_units"
  | .firecrackerDefaultCpus => "firecracker_default_cpus"
  | .firecrackerDefaultMemoryBytes => "firecracker_default_memory_bytes"

@[reducible] def type : Field → Type
  | .version | .platform => String
  | .maxSandboxIdLen | .startupTimeNs | .memoryUsedBytes | .gpuUtilization | .memoryBytes
  | .firecrackerDefaultMemoryBytes => UInt64
  | .startupMsWasm | .startupMsGvisor | .startupMsFirecracker | .computeUnits | .firecrackerDefaultCpus => UInt32

def codec : (f : Field) → Codec f.type
  | .version | .platform => .string
  | .maxSandboxIdLen | .startupTimeNs | .memoryUsedBytes | .memoryBytes
  | .firecrackerDefaultMemoryBytes => .u64
  | .startupMsWasm | .startupMsGvisor | .startupMsFirecracker | .computeUnits | .firecrackerDefaultCpus => .u32
  | .gpuUtilization => f64 figment

end Field

def PhenoConfig.get (config : PhenoConfig) : (f : Field) → f.type
  | .version => config.nvms.version
  | .platform => config.nvms.platform
  | .maxSandboxIdLen => config.sandbox.maxSandboxIdLen
  | .startupMsWasm => config.sandbox.startupMsWasm
  | .startupMsGvisor => config.sandbox.startupMsGvisor
  | .startupMsFirecracker => config.sandbox.startupMsFirecracker
  | .startupTimeNs => config.perf.startupTimeNs
  | .memoryUsedBytes => config.perf.memoryUsedBytes
  | .gpuUtilization => config.perf.gpuUtilization
  | .memoryBytes => config.gpu.memoryBytes
  | .computeUnits => config.gpu.computeUnits
  | .firecrackerDefaultCpus => config.driver.firecrackerDefaultCpus
  | .firecrackerDefaultMemoryBytes => config.driver.firecrackerDefaultMemoryBytes

namespace Field

def default (f : Field) : f.type := (PhenoConfig.default host).get f

/-- the keys that lead to the field -/
def path (f : Field) : List String := [f.table, f.name]

/-- `<SECTION>_<FIELD>` -/
def variableSuffix (f : Field) : String := toAsciiUppercase f.table ++ "_" ++ toAsciiUppercase f.name

/-- `PHENO_<SECTION>_<FIELD>` -/
def variable_ (f : Field) : String := "PHENO_" ++ f.variableSuffix

/-- the keys that its variable is put in under -/
def variablePath (f : Field) : List String := f.table :: split f.name '_'

end Field

/-! ## What is relied on -/

/-- a later layer overrides an earlier one key by key; each "_" of a variable's name starts a new key, in lower case -/
structure Figment.Documented (figment : Figment) : Prop where
  overriding : Overriding figment.merge
  split : ∀ suffix, isWord suffix = true → (∀ key ∈ split suffix '_', key ≠ "") →
    figment.envKeys "PHENO_" "_" ("PHENO_" ++ suffix) = some ((Core.Split.split suffix '_').map toAsciiLowercase)
  separated : ∀ name path, figment.envKeys "PHENO_" "_" name = some path → path ≠ [] ∧ ∀ key ∈ path, '_' ∉ key.toList

namespace Field

theorem variableSuffix_word : ∀ f ∈ all, isWord f.variableSuffix = true := by decide +kernel

theorem variableSuffix_keys : ∀ f ∈ all, (∀ key ∈ split f.variableSuffix '_', key ≠ "") ∧
    (split f.variableSuffix '_').map toAsciiLowercase = f.variablePath := by decide +kernel

/-- a variable is put in neither on the way to another field nor past it -/
theorem variable_elsewhere : ∀ f ∈ all, ∀ g ∈ all, g ≠ f → ¬f.variablePath <+: g.path ∧ ¬g.path <+: f.variablePath := by
  decide +kernel

theorem variablePath_ne : ∀ f ∈ all, ∀ g ∈ all, f.variablePath ≠ [g.table] := by decide +kernel

theorem variablePath_underscore : ∀ f ∈ all, '_' ∈ f.name.toList →
    ¬f.variablePath <+: f.path ∧ ¬f.path <+: f.variablePath := by decide +kernel

theorem variablePath_plain {f : Field} (h : '_' ∉ f.name.toList) : f.variablePath = f.path := by
  rw [variablePath, split_eq_singleton h, path]

theorem envKeys_variable {figment : Figment} (h : figment.Documented) (f : Field) :
    figment.envKeys "PHENO_" "_" f.variable_ = some f.variablePath := by
  obtain ⟨hne, hkeys⟩ := variableSuffix_keys f (mem_all f)
  rw [variable_, h.split _ (variableSuffix_word f (mem_all f)) hne, hkeys]

end Field

/-! ## Reading a section -/

section
variable {figment host}

theorem NvmsConfig.decode_object {ms : List (String × Value)} {config : NvmsConfig}
    (h : (NvmsConfig.codec host).decode (.object ms) = some config) :
    readOr .string (NvmsConfig.default host).version (ms.lookup "version") = some config.version ∧
      readOr .string (NvmsConfig.default host).platform (ms.lookup "platform") = some config.platform := by
  obtain ⟨⟨_, _⟩, look, rfl, hread, hlook⟩ := openRecord_object h
  have hnames : ∀ name ∈ ["version", "platform"], look name = ms.lookup name := hlook
  rw [← hnames "version" (by decide), ← hnames "platform" (by decide)]
  simpa only [read_and, read_defaulted] using hread

theorem SandboxConfig.decode_object {ms : List (String × Value)} {config : SandboxConfig}
    (h : SandboxConfig.codec.decode (.object ms) = some config) :
    readOr .u64 SandboxConfig.default.maxSandboxIdLen (ms.lookup "max_sandbox_id_len") =
        some config.maxSandboxIdLen ∧
      readOr .u32 SandboxConfig.default.startupMsWasm (ms.lookup "startup_ms_wasm") = some config.startupMsWasm ∧
      readOr .u32 SandboxConfig.default.startupMsGvisor (ms.lookup "startup_ms_gvisor") =
        some config.startupMsGvisor ∧
      readOr .u32 SandboxConfig.default.startupMsFirecracker (ms.lookup "startup_ms_firecracker") =
        some config.startupMsFirecracker := by
  obtain ⟨⟨_, _, _, _⟩, look, rfl, hread, hlook⟩ := openRecord_object h
  rw [← hlook "max_sandbox_id_len" (by decide), ← hlook "startup_ms_wasm" (by decide),
    ← hlook "startup_ms_gvisor" (by decide), ← hlook "startup_ms_firecracker" (by decide)]
  simpa only [read_and, read_defaulted] using hread

theorem PerfConfig.decode_object {ms : List (String × Value)} {config : PerfConfig}
    (h : (PerfConfig.codec figment).decode (.object ms) = some config) :
    readOr .u64 PerfConfig.default.startupTimeNs (ms.lookup "startup_time_ns") = some config.startupTimeNs ∧
      readOr .u64 PerfConfig.default.memoryUsedBytes (ms.lookup "memory_used_bytes") =
        some config.memoryUsedBytes ∧
      readOr (f64 figment) PerfConfig.default.gpuUtilization (ms.lookup "gpu_utilization") =
        some config.gpuUtilization := by
  obtain ⟨⟨_, _, _⟩, look, rfl, hread, hlook⟩ := openRecord_object h
  have hnames : ∀ name ∈ ["startup_time_ns", "memory_used_bytes", "gpu_utilization"], look name = ms.lookup name := hlook
  rw [← hnames "startup_time_ns" (by decide), ← hnames "memory_used_bytes" (by decide),
    ← hnames "gpu_utilization" (by decide)]
  simpa only [read_and, read_defaulted] using hread

theorem GpuConfig.decode_object {ms : List (String × Value)} {config : GpuConfig}
    (h : GpuConfig.codec.decode (.object ms) = some config) :
    readOr .u64 GpuConfig.default.memoryBytes (ms.lookup "memory_bytes") = some config.memoryBytes ∧
      readOr .u32 GpuConfig.default.computeUnits (ms.lookup "compute_units") = some config.computeUnits := by
  obtain ⟨⟨_, _⟩, look, rfl, hread, hlook⟩ := openRecord_object h
  rw [← hlook "memory_bytes" (by decide), ← hlook "compute_units" (by decide)]
  simpa only [read_and, read_defaulted] using hread

theorem DriverConfig.decode_object {ms : List (String × Value)} {config : DriverConfig}
    (h : DriverConfig.codec.decode (.object ms) = some config) :
    readOr .u32 DriverConfig.default.firecrackerDefaultCpus (ms.lookup "firecracker_default_cpus") =
        some config.firecrackerDefaultCpus ∧
      readOr .u64 DriverConfig.default.firecrackerDefaultMemoryBytes
        (ms.lookup "firecracker_default_memory_bytes") = some config.firecrackerDefaultMemoryBytes := by
  obtain ⟨⟨_, _⟩, look, rfl, hread, hlook⟩ := openRecord_object h
  rw [← hlook "firecracker_default_cpus" (by decide), ← hlook "firecracker_default_memory_bytes" (by decide)]
  simpa only [read_and, read_defaulted] using hread

theorem PhenoConfig.decode_object {ms : List (String × Value)} {config : PhenoConfig}
    (h : (PhenoConfig.codec figment host).decode (.object ms) = some config) :
    readOr (NvmsConfig.codec host) (.default host) (ms.lookup "nvms") = some config.nvms ∧
      readOr SandboxConfig.codec .default (ms.lookup "sandbox") = some config.sandbox ∧
      readOr (PerfConfig.codec figment) .default (ms.lookup "perf") = some config.perf ∧
      readOr GpuConfig.codec .default (ms.lookup "gpu") = some config.gpu ∧
      readOr DriverConfig.codec .default (ms.lookup "driver") = some config.driver := by
  obtain ⟨⟨_, _, _, _, _⟩, look, rfl, hread, hlook⟩ := openRecord_object h
  have hnames : ∀ name ∈ ["nvms", "sandbox", "perf", "gpu", "driver"], look name = ms.lookup name := hlook
  rw [← hnames "nvms" (by decide), ← hnames "sandbox" (by decide), ← hnames "perf" (by decide),
    ← hnames "gpu" (by decide), ← hnames "driver" (by decide)]
  simpa only [read_and, read_defaulted] using hread

/-- in a loaded configuration a section was an object, or a list of its fields -/
theorem section_source {ms : List (String × Value)} {config : PhenoConfig}
    (h : (PhenoConfig.codec figment host).decode (.object ms) = some config) (f : Field) {v : Value}
    (hv : ms.lookup f.table = some v) : (∃ fs, v = .object fs) ∨ ∃ vs, v = .array vs := by
  obtain ⟨hnvms, hsandbox, hperf, hgpu, hdriver⟩ := PhenoConfig.decode_object h
  cases f with
  | version | platform =>
    rw [show ms.lookup "nvms" = some v from hv] at hnvms
    exact openRecord_source hnvms
  | maxSandboxIdLen | startupMsWasm | startupMsGvisor | startupMsFirecracker =>
    rw [show ms.lookup "sandbox" = some v from hv] at hsandbox
    exact openRecord_source hsandbox
  | startupTimeNs | memoryUsedBytes | gpuUtilization =>
    rw [show ms.lookup "perf" = some v from hv] at hperf
    exact openRecord_source hperf
  | memoryBytes | computeUnits =>
    rw [show ms.lookup "gpu" = some v from hv] at hgpu
    exact openRecord_source hgpu
  | firecrackerDefaultCpus | firecrackerDefaultMemoryBytes =>
    rw [show ms.lookup "driver" = some v from hv] at hdriver
    exact openRecord_source hdriver

/-- a field of a section that was an object: its member, or its default -/
theorem section_field {ms fs : List (String × Value)} {config : PhenoConfig}
    (h : (PhenoConfig.codec figment host).decode (.object ms) = some config) (f : Field)
    (hfs : ms.lookup f.table = some (.object fs)) :
    readOr (f.codec figment) (f.default host) (fs.lookup f.name) = some (config.get f) := by
  obtain ⟨hnvms, hsandbox, hperf, hgpu, hdriver⟩ := PhenoConfig.decode_object h
  cases f with
  | version | platform =>
    rw [show ms.lookup "nvms" = some (.object fs) from hfs] at hnvms
    obtain ⟨hversion, hplatform⟩ := NvmsConfig.decode_object hnvms
    assumption
  | maxSandboxIdLen | startupMsWasm | startupMsGvisor | startupMsFirecracker =>
    rw [show ms.lookup "sandbox" = some (.object fs) from hfs] at hsandbox
    obtain ⟨hlen, hwasm, hgvisor, hfirecracker⟩ := SandboxConfig.decode_object hsandbox
    assumption
  | startupTimeNs | memoryUsedBytes | gpuUtilization =>
    rw [show ms.lookup "perf" = some (.object fs) from hfs] at hperf
    obtain ⟨htime, hmemory, hutilization⟩ := PerfConfig.decode_object hperf
    assumption
  | memoryBytes | computeUnits =>
    rw [show ms.lookup "gpu" = some (.object fs) from hfs] at hgpu
    obtain ⟨hmemory, hunits⟩ := GpuConfig.decode_object hgpu
    assumption
  | firecrackerDefaultCpus | firecrackerDefaultMemoryBytes =>
    rw [show ms.lookup "driver" = some (.object fs) from hfs] at hdriver
    obtain ⟨hcpus, hmemory⟩ := DriverConfig.decode_object hdriver
    assumption

/-- a field depends on what is given for its section only -/
theorem section_same {ms ms' : List (String × Value)} {config config' : PhenoConfig}
    (h : (PhenoConfig.codec figment host).decode (.object ms) = some config)
    (h' : (PhenoConfig.codec figment host).decode (.object ms') = some config') {f : Field}
    (hsame : ms'.lookup f.table = ms.lookup f.table) : config'.get f = config.get f := by
  obtain ⟨hnvms, hsandbox, hperf, hgpu, hdriver⟩ := PhenoConfig.decode_object h
  obtain ⟨hnvms', hsandbox', hperf', hgpu', hdriver'⟩ := PhenoConfig.decode_object h'
  cases f with
  | version | platform =>
    rw [show ms'.lookup "nvms" = ms.lookup "nvms" from hsame, hnvms] at hnvms'
    rw [PhenoConfig.get, PhenoConfig.get, Option.some.inj hnvms']
  | maxSandboxIdLen | startupMsWasm | startupMsGvisor | startupMsFirecracker =>
    rw [show ms'.lookup "sandbox" = ms.lookup "sandbox" from hsame, hsandbox] at hsandbox'
    rw [PhenoConfig.get, PhenoConfig.get, Option.some.inj hsandbox']
  | startupTimeNs | memoryUsedBytes | gpuUtilization =>
    rw [show ms'.lookup "perf" = ms.lookup "perf" from hsame, hperf] at hperf'
    rw [PhenoConfig.get, PhenoConfig.get, Option.some.inj hperf']
  | memoryBytes | computeUnits =>
    rw [show ms'.lookup "gpu" = ms.lookup "gpu" from hsame, hgpu] at hgpu'
    rw [PhenoConfig.get, PhenoConfig.get, Option.some.inj hgpu']
  | firecrackerDefaultCpus | firecrackerDefaultMemoryBytes =>
    rw [show ms'.lookup "driver" = ms.lookup "driver" from hsame, hdriver] at hdriver'
    rw [PhenoConfig.get, PhenoConfig.get, Option.some.inj hdriver']

theorem decode_scalar {f : Field} {v : Value} {a : f.type} (h : (f.codec figment).decode v = some a) :
    v.isObject = false := by
  cases v with
  | object ms => cases f <;> cases h
  | _ => rfl

theorem decode_table {f : Field} {v : Value} (h : v.isObject = true) : (f.codec figment).decode v = none := by
  rw [Option.eq_none_iff_forall_ne_some]
  intro a ha
  rw [decode_scalar ha] at h
  cases h

/-- what the defaults hold for a field -/
theorem find_default (f : Field) :
    ((PhenoConfig.codec figment host).encode (.default host)).find f.path =
      some ((f.codec figment).encode (f.default host)) := by
  cases f <;> rfl

theorem find_default_table (f : Field) :
    ∃ fs, ((PhenoConfig.codec figment host).encode (.default host)).find [f.table] = some (.object fs) := by
  cases f <;> exact ⟨_, rfl⟩

end

/-! ## Precedence -/

/-- what the file holds for the field -/
def fileValue (file : Option String) (f : Field) : Option Value :=
  (fileLayer figment file).bind fun members => (Value.object members).find f.path

/-- what the environment holds for the field -/
def held (env : Environment) (f : Field) : Option Value := (envLayer figment env).find f.path

/-- the value of the field's own variable -/
def own (env : Environment) (f : Field) : Option Value := (env.var f.variable_).map figment.parse

/-- the file's value as the type of the field, or the default -/
def below (file : Option String) (f : Field) : Option f.type :=
  readOr (f.codec figment) (f.default host) (fileValue figment file f)

/-- a value from the environment as the type of the field, or what is below it -/
def reading (file : Option String) (f : Field) (value : Option Value) : Option f.type :=
  match value with
  | some v => (f.codec figment).decode v
  | none => below figment host file f

/-- the variables other than this one are the same, in the same order -/
def SameBut (name : String) (env env' : Environment) : Prop :=
  env'.vars.filter (fun e => e.1 ≠ name) = env.vars.filter fun e => e.1 ≠ name

/-- the field has the value of its own variable if that is set, else the file's, else its default; and no other field
depends on the variable -/
structure Layered (file : Option String) (env : Environment) (config : PhenoConfig) (f : Field) : Prop where
  value : match env.var f.variable_ with
    | some text => (f.codec figment).decode (figment.parse text) = some (config.get f)
    | none => match fileValue figment file f with
      | some v => (f.codec figment).decode v = some (config.get f)
      | none => config.get f = f.default host
  others : ∀ env' config', SameBut f.variable_ env env' → PhenoConfig.load figment host file env' = some config' →
    ∀ g, g ≠ f → config'.get g = config.get g

/-- what the last variable that is put in on the way to the field, or past it, says of the field -/
def heard (env : Environment) (f : Field) : Option Value :=
  (lastWord (envEntry figment) f.path env.vars).bind (·.find f.path)

/-- this reads like the value of the field's own variable -/
def Heeded (file : Option String) (env : Environment) (f : Field) : Prop :=
  reading figment host file f (own figment env f) = reading figment host file f (heard figment env f)

/-- no other variable is put in on the way to the field or past it -/
def Undisturbed (env : Environment) (f : Field) : Prop :=
  ∀ e ∈ env.vars, e.1 ≠ f.variable_ → ∀ path, figment.envKeys "PHENO_" "_" e.1 = some path →
    ¬path <+: f.path ∧ ¬f.path <+: path

/-- neither the file nor a variable gives the section of the field as a list of its fields -/
structure TablesOnly (file : Option String) (env : Environment) (f : Field) : Prop where
  file : ∀ members, fileLayer figment file = some members → ∀ vs, members.lookup f.table ≠ some (.array vs)
  env : ∀ e ∈ env.vars, figment.envKeys "PHENO_" "_" e.1 = some [f.table] → ∀ vs, figment.parse e.2 ≠ .array vs

section
variable {figment host} {file : Option String} {env : Environment} {members : List (String × Value)}
  {config : PhenoConfig}

theorem envEntry_path (h : figment.Documented) {e : String × String} {put : List String × Value}
    (he : envEntry figment e = some put) : put.1 ≠ [] := by
  obtain ⟨path, hpath, rfl⟩ := Option.map_eq_some_iff.1 he
  exact (h.separated _ _ hpath).1

theorem envLayer_object (h : figment.Documented) (env : Environment) : (envLayer figment env).isObject = true :=
  overlay_isObject h.overriding (fun _ _ _ he => envEntry_path h he) rfl

variable (host) in
theorem merged_object (h : figment.Documented) (members : List (String × Value)) (env : Environment) :
    ∃ ms, merged figment host members env = .object ms := by
  have hobject : (merged figment host members env).isObject = true :=
    override_isObject h.overriding (some _) (envLayer_object h env)
  cases hm : merged figment host members env with
  | object ms => exact ⟨ms, rfl⟩
  | _ => rw [hm] at hobject; cases hobject

/-- a value in the merged layers is from the environment, else from the file, else a default -/
theorem merged_scalar (h : figment.Documented) {path : List String} {v : Value} (hv : v.isObject = false)
    (hfind : (merged figment host members env).find path = some v) :
    (envLayer figment env).find path = some v ∨ (envLayer figment env).passes path = true ∧
      ((Value.object members).find path = some v ∨ (Value.object members).passes path = true ∧
        ((PhenoConfig.codec figment host).encode (.default host)).find path = some v) := by
  rcases (find_merge_scalar h.overriding hv).1 hfind with henv | ⟨hpass, hrest⟩
  · exact .inl henv
  rcases (find_merge_scalar h.overriding hv).1 hrest with hfile | ⟨hpass', hrest'⟩
  · exact .inr ⟨hpass, .inl hfile⟩
  rcases (find_merge_scalar h.overriding hv).1 hrest' with hdefault | ⟨-, hnew⟩
  · exact .inr ⟨hpass, .inr ⟨hpass', hdefault⟩⟩
  · cases path with
    | nil =>
      rw [← Option.some.inj hnew] at hv
      cases hv
    | cons => cases hnew

/-- a section that was given as a table is an object when it is merged -/
theorem merged_section (h : figment.Documented) {f : Field} (htables : TablesOnly figment file env f)
    (hfile : fileLayer figment file = some members)
    (hdecode : (PhenoConfig.codec figment host).decode (merged figment host members env) = some config) :
    ∃ fs, (merged figment host members env).find [f.table] = some (.object fs) := by
  obtain ⟨ms, hms⟩ := merged_object host h members env
  cases hv : (merged figment host members env).find [f.table] with
  | none =>
    -- the defaults have every section
    obtain ⟨fs, hfs⟩ := find_default_table f
    obtain ⟨henv, hlower⟩ := (find_merge_none h.overriding).1 hv
    obtain ⟨hfile', hlower'⟩ := (find_merge_none h.overriding).1 (hlower (passes_key (envLayer_object h env) henv))
    obtain ⟨hdefault, -⟩ := (find_merge_none h.overriding).1 (hlower' (passes_key rfl hfile'))
    rw [hfs] at hdefault
    cases hdefault
  | some v =>
    rw [hms] at hdecode
    rw [hms, find_key] at hv
    rcases section_source hdecode f hv with ⟨fs, rfl⟩ | ⟨vs, rfl⟩
    · exact ⟨fs, rfl⟩
    · rw [← find_key, ← hms] at hv
      rcases merged_scalar h rfl hv with henv | ⟨-, hfile' | ⟨-, hdefault⟩⟩
      · rcases overlay_single h.overriding (fun _ _ _ he => envEntry_path h he) rfl henv with hnew | ⟨e, he, hput⟩
        · cases hnew
        · obtain ⟨path, hpath, hput⟩ := Option.map_eq_some_iff.1 hput
          obtain ⟨rfl, hparse⟩ := Prod.mk.inj hput
          exact absurd hparse (htables.env e he hpath vs)
      · rw [find_key] at hfile'
        exact absurd hfile' (htables.file members hfile vs)
      · obtain ⟨fs, hfs⟩ := find_default_table f
        rw [hfs] at hdefault
        cases hdefault

/-- a loaded field is what the environment holds for it, else what the file holds, else its default -/
theorem held_read (h : figment.Documented) {f : Field} (htables : TablesOnly figment file env f)
    (hload : PhenoConfig.load figment host file env = some config) :
    reading figment host file f (held figment env f) = some (config.get f) := by
  obtain ⟨members, hfile, hdecode⟩ := Option.bind_eq_some_iff.1 hload
  obtain ⟨fs, hfs⟩ := merged_section h htables hfile hdecode
  have hfield : readOr (f.codec figment) (f.default host) ((merged figment host members env).find f.path) =
      some (config.get f) := by
    obtain ⟨ms, hms⟩ := merged_object host h members env
    rw [hms] at hdecode hfs ⊢
    rw [find_key] at hfs
    have hpath : (Value.object ms).find f.path = fs.lookup f.name := by
      rw [Field.path, Value.find, hfs]
      exact find_key fs f.name
    rw [hpath]
    exact section_field hdecode f hfs
  have hbelow : below figment host file f =
      readOr (f.codec figment) (f.default host) ((Value.object members).find f.path) := by
    rw [below, fileValue, hfile]
    rfl
  cases hv : (merged figment host members env).find f.path with
  | none =>
    rw [hv] at hfield
    obtain ⟨henv, hlower⟩ := (find_merge_none h.overriding).1 hv
    -- nothing in the environment is in the way of the field, or its section would be no table
    have hpass : (envLayer figment env).passes f.path = true := by
      by_contra hblocked
      obtain ⟨w, hw, hscalar⟩ := blocked_key (envLayer_object h env) henv (Bool.eq_false_iff.2 hblocked)
      have hmerged : (merged figment host members env).find [f.table] = some w :=
        (find_merge_scalar h.overriding hscalar).2 (.inl hw)
      rw [hmerged] at hfs
      rw [Option.some.inj hfs] at hscalar
      cases hscalar
    obtain ⟨hfile', -⟩ := (find_merge_none h.overriding).1 (hlower hpass)
    rw [held, henv, reading, hbelow, hfile']
    exact hfield
  | some v =>
    rw [hv] at hfield
    have hscalar := decode_scalar hfield
    rcases merged_scalar h hscalar hv with henv | ⟨hpass, hfile' | ⟨hpass', hdefault⟩⟩
    · rw [held, henv]
      exact hfield
    · rw [held, find_of_passes hpass, reading, hbelow, hfile']
      exact hfield
    · rw [held, find_of_passes hpass, reading, hbelow, find_of_passes hpass']
      rw [find_default] at hdefault
      rw [← Option.some.inj hdefault] at hfield
      exact ((f.codec figment).decode_encode _).symm.trans hfield

/-! ## The field's own variable -/

/-- this is about the section of the field only -/
theorem TablesOnly.beside {f g : Field} (htables : TablesOnly figment file env f) (htable : g.table = f.table) :
    TablesOnly figment file env g where
  file members hmembers vs := htable ▸ htables.file members hmembers vs
  env e he hkeys := htables.env e he (htable ▸ hkeys)

theorem TablesOnly.same_but (h : figment.Documented) {f g : Field} (htables : TablesOnly figment file env g)
    {env' : Environment} (hsame : SameBut f.variable_ env env') : TablesOnly figment file env' g where
  file := htables.file
  env e he hkeys := by
    have hne : e.1 ≠ f.variable_ := by
      intro hname
      rw [hname, f.envKeys_variable h] at hkeys
      exact Field.variablePath_ne f (Field.mem_all f) g (Field.mem_all g) (Option.some.inj hkeys)
    have hmem : e ∈ env'.vars.filter fun e => e.1 ≠ f.variable_ := List.mem_filter.2 ⟨he, decide_eq_true hne⟩
    rw [hsame] at hmem
    exact htables.env e (List.mem_of_mem_filter hmem) hkeys

/-- what is put in elsewhere passes -/
theorem passes_elsewhere {e : String × String} {f : Field}
    (hpath : ∀ path, figment.envKeys "PHENO_" "_" e.1 = some path → ¬path <+: f.path ∧ ¬f.path <+: path)
    {put : List String × Value} (hput : envEntry figment e = some put) : (nest put.1 put.2).passes f.path = true := by
  obtain ⟨path, hkeys, rfl⟩ := Option.map_eq_some_iff.1 hput
  obtain ⟨hbefore, hafter⟩ := hpath path hkeys
  exact passes_nest hbefore hafter _

/-- a variable makes no difference on a path that it is put in neither on the way to nor past -/
theorem find_same_but (h : figment.Documented) {f : Field} {path : List String}
    (helsewhere : ¬f.variablePath <+: path ∧ ¬path <+: f.variablePath) {env' : Environment}
    (hsame : SameBut f.variable_ env env') : (envLayer figment env').find path = (envLayer figment env).find path := by
  have hdrop : ∀ env : Environment, (envLayer figment env).find path =
      (overlay figment.merge (envEntry figment) (env.vars.filter fun e => e.1 ≠ f.variable_) (.object [])).find path := by
    intro env
    refine find_overlay_filter h.overriding (fun e _ hkeep put hput => ?_) rfl
    have hname : e.1 = f.variable_ := by simpa using hkeep
    obtain ⟨keys, hkeys, rfl⟩ := Option.map_eq_some_iff.1 hput
    rw [hname, f.envKeys_variable h] at hkeys
    rw [← Option.some.inj hkeys]
    exact passes_nest helsewhere.1 helsewhere.2 _
  rw [hdrop, hdrop, hsame]

/-- the variable of one field makes no difference to what is held for another -/
theorem held_same_but (h : figment.Documented) {f g : Field} (hne : g ≠ f) {env' : Environment}
    (hsame : SameBut f.variable_ env env') : held figment env' g = held figment env g :=
  find_same_but h (Field.variable_elsewhere f (Field.mem_all f) g (Field.mem_all g) hne) hsame

/-- nor to a field of another section, tables or not -/
theorem others_same_but (h : figment.Documented) {f g : Field} (htable : g.table ≠ f.table) {env' : Environment}
    {config' : PhenoConfig} (hsame : SameBut f.variable_ env env')
    (hload : PhenoConfig.load figment host file env = some config)
    (hload' : PhenoConfig.load figment host file env' = some config') : config'.get g = config.get g := by
  obtain ⟨members, hfile, hdecode⟩ := Option.bind_eq_some_iff.1 hload
  obtain ⟨members', hfile', hdecode'⟩ := Option.bind_eq_some_iff.1 hload'
  obtain rfl := Option.some.inj (hfile'.symm.trans hfile)
  have helsewhere : ¬f.variablePath <+: [g.table] ∧ ¬[g.table] <+: f.variablePath := by
    rw [Field.variablePath, List.cons_prefix_cons, List.cons_prefix_cons]
    exact ⟨fun hx => htable hx.1.symm, fun hx => htable hx.1⟩
  have hmerged : (merged figment host members' env').find [g.table] = (merged figment host members' env).find [g.table] :=
    find_merge_key h.overriding _ (envLayer_object h env) (envLayer_object h env') (find_same_but h helsewhere hsame)
  obtain ⟨ms, hms⟩ := merged_object host h members' env
  obtain ⟨ms', hms'⟩ := merged_object host h members' env'
  rw [hms, hms', find_key, find_key] at hmerged
  rw [hms] at hdecode
  rw [hms'] at hdecode'
  exact section_same hdecode hdecode' hmerged

theorem own_read_iff {f : Field} : (match env.var f.variable_ with
      | some text => (f.codec figment).decode (figment.parse text) = some (config.get f)
      | none => match fileValue figment file f with
        | some v => (f.codec figment).decode v = some (config.get f)
        | none => config.get f = f.default host) ↔
    reading figment host file f (own figment env f) = some (config.get f) := by
  rw [own]
  cases env.var f.variable_ with
  | some text => exact Iff.rfl
  | none =>
    rw [Option.map_none, reading, below]
    cases fileValue figment file f with
    | some v => exact Iff.rfl
    | none => simp [readOr, eq_comm]

theorem Layered.own_read {f : Field} (h : Layered figment host file env config f) :
    reading figment host file f (own figment env f) = some (config.get f) := own_read_iff.1 h.value

/-- what the environment holds for a field was said by the last variable that says anything of it, or is a table, which
no field is read from -/
theorem read_heard (h : figment.Documented) (file : Option String) (env : Environment) (f : Field) :
    reading figment host file f (held figment env f) = reading figment host file f (heard figment env f) := by
  cases hlast : lastWord (envEntry figment) f.path env.vars with
  | none =>
    rw [held, envLayer, (find_overlay_last h.overriding _ _).1 hlast, heard, hlast]
    rfl
  | some w =>
    obtain ⟨earlier, hfind⟩ := (find_overlay_last h.overriding env.vars (.object [])).2 w hlast
    rw [held, envLayer, hfind, heard, hlast, Option.bind_some]
    cases w.find f.path with
    | none => rfl
    | some v =>
      rw [Option.map_some, reading, reading]
      cases hv : v.isObject with
      | false => rw [override_not_object h.overriding earlier hv]
      | true => rw [decode_table (override_isObject h.overriding earlier hv), decode_table hv]

theorem layered_iff_heeded (h : figment.Documented) {f : Field} (htables : TablesOnly figment file env f)
    (hload : PhenoConfig.load figment host file env = some config) :
    Layered figment host file env config f ↔ Heeded figment host file env f := by
  rw [Heeded, ← read_heard h, held_read h htables hload]
  refine ⟨Layered.own_read, fun hown => ⟨own_read_iff.2 hown, ?_⟩⟩
  intro env' config' hsame hload' g hne
  by_cases htable : g.table = f.table
  · have hread := held_read h (htables.beside htable) hload
    have hread' := held_read h ((htables.beside htable).same_but h hsame) hload'
    rw [held_same_but h hne hsame, hread] at hread'
    exact (Option.some.inj hread').symm
  · exact others_same_but h htable hsame hload hload'

theorem heard_none (h : figment.Documented) {f : Field} (hundisturbed : Undisturbed figment env f)
    (hown : env.var f.variable_ = none ∨ '_' ∈ f.name.toList) : heard figment env f = none := by
  have hlast : lastWord (envEntry figment) f.path env.vars = none := by
    refine lastWord_eq_none.2 fun e he put hput => passes_elsewhere (fun path hkeys => ?_) hput
    by_cases hname : e.1 = f.variable_
    · rcases hown with hunset | hunderscore
      · have hset : env.var f.variable_ = some e.2 := (lookup_eq_some env.distinct).2 (hname ▸ he)
        cases hunset.symm.trans hset
      · rw [hname, f.envKeys_variable h] at hkeys
        rw [← Option.some.inj hkeys]
        exact Field.variablePath_underscore f (Field.mem_all f) hunderscore
    · exact hundisturbed e he hname path hkeys
  rw [heard, hlast]
  rfl

/-- for a field with a "_" in its name, only a variable for its whole section can get in between -/
theorem undisturbed_of_underscore (h : figment.Documented) {f : Field} (hname : '_' ∈ f.name.toList)
    (htable : ∀ e ∈ env.vars, figment.envKeys "PHENO_" "_" e.1 ≠ some [f.table]) : Undisturbed figment env f := by
  intro e he _ path hkeys
  obtain ⟨hne, hseparated⟩ := h.separated _ _ hkeys
  have hnot : f.name ∉ path := fun hmem => hseparated f.name hmem hname
  refine ⟨fun hbefore => ?_, fun hafter => hnot (hafter.subset (by simp [Field.path]))⟩
  cases path with
  | nil => exact hne rfl
  | cons key path =>
    obtain ⟨rfl, hrest⟩ := List.cons_prefix_cons.1 hbefore
    rcases List.prefix_cons_iff.1 hrest with rfl | ⟨rest, rfl, -⟩
    · exact htable e he hkeys
    · exact hnot (by simp)

theorem heard_own (h : figment.Documented) {f : Field} (hundisturbed : Undisturbed figment env f)
    (hname : '_' ∉ f.name.toList) : heard figment env f = own figment env f := by
  cases hvar : env.var f.variable_ with
  | none =>
    rw [heard_none h hundisturbed (.inl hvar), own, hvar]
    rfl
  | some text =>
    have hentry : envEntry figment (f.variable_, text) = some (f.path, figment.parse text) := by
      rw [envEntry, f.envKeys_variable h, Field.variablePath_plain hname]
      rfl
    have hlast : lastWord (envEntry figment) f.path env.vars = some (nest f.path (figment.parse text)) := by
      cases hlast : lastWord (envEntry figment) f.path env.vars with
      | none =>
        have hmem : (f.variable_, text) ∈ env.vars := (lookup_eq_some env.distinct).1 hvar
        have hpass := lastWord_eq_none.1 hlast _ hmem _ hentry
        rw [passes_nest_self] at hpass
        cases hpass
      | some w =>
        obtain ⟨e, he, put, hput, rfl, hblocks⟩ := lastWord_eq_some hlast
        have hself : e.1 = f.variable_ := by
          by_contra hother
          have hpass := passes_elsewhere (hundisturbed e he hother) hput
          rw [hblocks] at hpass
          cases hpass
        have hset : env.var f.variable_ = some e.2 := (lookup_eq_some env.distinct).2 (hself ▸ he)
        obtain rfl : e = (f.variable_, text) := Prod.ext hself (Option.some.inj (hset.symm.trans hvar))
        rw [Option.some.inj (hput.symm.trans hentry)]
    calc heard figment env f
        = (nest f.path (figment.parse text)).find f.path := by rw [heard, hlast, Option.bind_some]
      _ = some (figment.parse text) := find_nest_self _ _
      _ = own figment env f := by
          rw [own, hvar]
          rfl

/-- **A variable overrides the file and the defaults** exactly when the last variable that is put in on the way to the field
or past it, every "_" of its name starting a new key, says the same of the field. Where no other variable is put in there,
this is so when the name of the field has no "_", when the variable is not set, or when its value is the one that the field
has without it. -/
theorem env_overrides_iff (h : figment.Documented) {f : Field} (htables : TablesOnly figment file env f)
    (hload : PhenoConfig.load figment host file env = some config) :
    (Layered figment host file env config f ↔ Heeded figment host file env f) ∧
      (Undisturbed figment env f →
        (Heeded figment host file env f ↔ '_' ∉ f.name.toList ∨ env.var f.variable_ = none ∨
          reading figment host file f (own figment env f) = below figment host file f)) := by
  refine ⟨layered_iff_heeded h htables hload, fun hundisturbed => ?_⟩
  by_cases hname : '_' ∈ f.name.toList
  · rw [Heeded, heard_none h hundisturbed (.inr hname)]
    refine ⟨fun hx => .inr (.inr hx), fun hx => ?_⟩
    rcases hx with hx | hunset | hx
    · exact absurd hname hx
    · rw [own, hunset]
      rfl
    · exact hx
  · rw [Heeded, heard_own h hundisturbed hname]
    exact iff_of_true rfl (.inl hname)

end

/-! ## Runs -/

/-- the merge as it is; as values of variables, digits for a number and letters with digits after them for a text, which is
how both are read; an empty document only -/
def Figment.standard : Figment where
  merge := Core.Json.merge
  envKeys start separator name := do
    let suffix := String.ofList (name.toList.drop start.toList.length)
    let keys := split suffix (separator.toList.headD '_')
    if eqIgnoreAsciiCase (String.ofList (name.toList.take start.toList.length)) start ∧ "" ∉ keys then
      some (keys.map toAsciiLowercase)
    else none
  parse text :=
    if text ≠ "" ∧ text.toList.all Char.isDigit then
      .number (text.toList.foldl (fun n c => 10 * n + (c.toNat - 48)) 0 : ℕ)
    else .string text
  toml text := if text = "" then some [] else none
  f64OfInt _ := 0

theorem standard_documented : Figment.standard.Documented where
  overriding := merge_overriding
  split suffix _ hkeys := by
    have htake : ("PHENO_" ++ suffix).toList.take "PHENO_".toList.length = "PHENO_".toList := by
      rw [String.toList_append, List.take_left]
    have hdrop : ("PHENO_" ++ suffix).toList.drop "PHENO_".toList.length = suffix.toList := by
      rw [String.toList_append, List.drop_left]
    have hempty : "" ∉ Core.Split.split suffix '_' := fun hmem => hkeys _ hmem rfl
    simp only [Figment.standard]
    rw [htake, hdrop, String.ofList_toList, String.ofList_toList]
    exact if_pos ⟨eqIgnoreAsciiCase_refl _, hempty⟩
  separated name path hpath := by
    simp only [Figment.standard] at hpath
    split_ifs at hpath with hkeys
    obtain rfl := Option.some.inj hpath
    refine ⟨fun hnil => split_ne_nil (List.map_eq_nil_iff.1 hnil), fun key hkey hmem => ?_⟩
    obtain ⟨piece, hpiece, rfl⟩ := List.mem_map.1 hkey
    rw [toAsciiLowercase, String.toList_ofList] at hmem
    obtain ⟨c, hc, hlower⟩ := List.mem_map.1 hmem
    rw [toLower_eq_underscore hlower] at hc
    exact not_mem_of_mem_split hpiece hc

def linux : Host := { os := "linux", arch := "x86_64" }

/-- one variable, and nothing else -/
def onlyVariable (name text : String) : Environment := ⟨[(name, text)], List.nodup_singleton name⟩

/-- a field without a "_" in its name has the value of its variable -/
theorem env_overrides_example : ∃ config,
    PhenoConfig.load .standard linux none (onlyVariable "PHENO_NVMS_VERSION" "v2") = some config ∧
      Layered .standard linux none (onlyVariable "PHENO_NVMS_VERSION" "v2") config .version := by
  have htables : TablesOnly .standard none (onlyVariable "PHENO_NVMS_VERSION" "v2") .version := by
    refine ⟨fun members hmembers vs => ?_, fun e he hkeys => ?_⟩
    · rw [← Option.some.inj hmembers]
      exact nofun
    · rw [List.mem_singleton.1 he] at hkeys
      have hpath := (Field.envKeys_variable standard_documented .version).symm.trans hkeys
      exact absurd (Option.some.inj hpath) (by decide)
  have hundisturbed : Undisturbed .standard (onlyVariable "PHENO_NVMS_VERSION" "v2") .version :=
    fun e he hne => absurd (by rw [List.mem_singleton.1 he]; rfl) hne
  have hload : PhenoConfig.load .standard linux none (onlyVariable "PHENO_NVMS_VERSION" "v2") =
      some { PhenoConfig.default linux with nvms := { version := "v2", platform := "linux/x86_64" } } := by
    decide +kernel
  obtain ⟨hiff, hplain⟩ := env_overrides_iff standard_documented htables hload
  exact ⟨_, hload, hiff.2 ((hplain hundisturbed).2 (.inl (by decide)))⟩

/-- the limit is set to 64, and stays at 128 -/
theorem variable_ignored : ∃ config,
    PhenoConfig.load .standard linux none (onlyVariable "PHENO_SANDBOX_MAX_SANDBOX_ID_LEN" "64") = some config ∧
      config.sandbox.maxSandboxIdLen = 128 ∧
      ¬Layered .standard linux none (onlyVariable "PHENO_SANDBOX_MAX_SANDBOX_ID_LEN" "64") config
        .maxSandboxIdLen := by
  refine ⟨.default linux, by decide +kernel, rfl, fun hlayered => ?_⟩
  have hset : (onlyVariable "PHENO_SANDBOX_MAX_SANDBOX_ID_LEN" "64").var Field.maxSandboxIdLen.variable_ =
      some "64" := by
    decide +kernel
  have hread : Codec.u64.decode (Figment.standard.parse "64") = some 64 := by decide +kernel
  have hown := hlayered.own_read
  rw [own, hset] at hown
  cases hread.symm.trans hown

end PhenoCompose.Config
