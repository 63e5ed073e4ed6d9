/-
What the program does through Podman: look at a container, stop it, probe the engine, and check that a prebuilt image is in
local storage.

Each of these makes one Podman command and then only interprets its answer: `Asks x command result` says exactly that,
and the lemmas `stop_asks`, `status_asks`, `probe_asks`, `publishImage_asks` are all that later proofs know of them.
-/
import PhenoCompose.System

namespace PhenoCompose

open Core.Process Core.Text

inductive RuntimeError where
  | validation (message : String)
  | backend (message : String)
  | notFound (message : String)
deriving DecidableEq, Repr

inductive PublishError where
  | validation (message : String)
  | transport (message : String)
deriving DecidableEq, Repr

inductive ComposeError where
  | validation (message : String)
  | backend (message : String)
deriving DecidableEq, Repr

inductive ContainerStatus where
  | running
  | exited
  | paused
  | notFound
deriving DecidableEq, Repr

def ContainerStatus.toString : ContainerStatus → String
  | .running => "running"
  | .exited => "exited"
  | .paused => "paused"
  | .notFound => "not_found"

def mapRuntimeError : RuntimeError → CliError
  | .notFound message => .notFound "runtime_not_found" message
  | .validation message => .validation "runtime_validation" message
  | .backend message => .backend "runtime_backend" message

def mapPublishError : PublishError → CliError
  | .validation message => .backend "publish_failed" ("publish validation: " ++ message)
  | .transport message => .backend "publish_failed" ("publish transport: " ++ message)

def mapComposeError : ComposeError → CliError
  | .validation message => .backend "compose_failed" ("compose validation: " ++ message)
  | .backend message => .backend "compose_failed" ("compose backend: " ++ message)

def podmanOutput (distribution : Option String) (arguments : List String) : Proc CliError Output := do
  match ← sys (.podman ⟨distribution, arguments⟩) with
  | .ok output => pure output
  | .error error => fail (.io "podman_spawn" error)

def outputMessage (output : Output) : String :=
  let stderr := trim (fromUtf8Lossy output.stderr)
  if stderr = "" then trim (fromUtf8Lossy output.stdout) else stderr

/-! ## Containers -/

variable (lib : Externals)

def stopOf (output : Output) : Except (Stop RuntimeError) Unit :=
  if output.success then .ok () else .error (.err (.backend (outputMessage output)))

/-- `runtime.stop(id)` -/
def PodmanRuntime.stop (distribution : Option String) (id : String) : Proc RuntimeError Unit := do
  let output ← mapErr (fun error : CliError => RuntimeError.backend error.message)
    (podmanOutput distribution ["stop", id])
  stopOf output

def statusOf (output : Output) : Except (Stop RuntimeError) ContainerStatus :=
  if output.success then
    let status := trim (fromUtf8Lossy output.stdout)
    if status = "running" then .ok .running
    else if status = "paused" then .ok .paused
    else if status = "exited" ∨ status = "stopped" ∨ status = "configured" ∨ status = "created" then .ok .exited
    else .error (.err (.backend ("unrecognized Podman status " ++ lib.debugStr status)))
  else
    let message := outputMessage output
    if contains (toAsciiLowercase message) "no such" then .ok .notFound else .error (.err (.backend message))

/-- `runtime.status(id)` -/
def PodmanRuntime.status (distribution : Option String) (id : String) : Proc RuntimeError ContainerStatus := do
  let output ← mapErr (fun error : CliError => RuntimeError.backend error.message)
    (podmanOutput distribution ["inspect", "--format", "\x7b\x7b.State.Status\x7d\x7d", id])
  statusOf lib output

/-! ## Images -/

/-- what the prebuilt-image composer is given: a name and tags -/
structure PortManifest where
  name : String
  tags : List (String × String)

structure ComposedArtifact where
  id : String
  image : String

structure PublishTarget where
  kind : String
  locator : String

structure PublishReceipt where
  artifactId : String
  target : PublishTarget
  publishedAt : String

def PrebuiltImageComposer.compose (manifest : PortManifest) : Except ComposeError ComposedArtifact :=
  match manifest.tags.find? fun tag => tag.1 == "image" with
  | some tag => .ok ⟨manifest.name ++ ":prebuilt", tag.2⟩
  | none => .error (.validation "prebuilt image tag is required")

/-- `publisher.probe()` -/
def PodmanLocalPublisher.probe (distribution : Option String) : Proc CliError Unit := do
  let output ← podmanOutput distribution ["version", "--format", "json"]
  (if output.success then .ok () else .error (.err (.backend "podman_unavailable" (outputMessage output))) :
    Except (Stop CliError) Unit)

/-- `publisher.publish(artifact, target)` -/
def PodmanLocalPublisher.publish (distribution : Option String) (artifact : ComposedArtifact) (target : PublishTarget) :
    Proc PublishError PublishReceipt := do
  if target.kind ≠ "podman-local" ∨ target.locator ≠ artifact.image then
    fail (.validation "podman-local target must match the composed image")
  else
    let output ← mapErr (fun error : CliError => PublishError.transport error.message)
      (podmanOutput distribution ["image", "exists", artifact.image])
    (if output.success then .ok ⟨artifact.id, target, "podman-local://" ++ artifact.image⟩
      else .error (.err (.transport ("image " ++ artifact.image ++ " is not present in Podman local storage"))) :
      Except (Stop PublishError) PublishReceipt)

/-- one service of an apply: compose its image reference and check that the image is there -/
def publishImage (distribution : Option String) (name image : String) : Proc CliError PublishReceipt := do
  match PrebuiltImageComposer.compose ⟨name, [("image", image)]⟩ with
  | .error error => fail (mapComposeError error)
  | .ok artifact => mapErr mapPublishError (PodmanLocalPublisher.publish distribution artifact ⟨"podman-local", image⟩)

/-! ## One command each -/

/-- every run makes exactly this command and ends as `result` says of its answer -/
def Asks {ε α : Type} (x : Proc ε α) (command : Command) (result : Except IoError Output → Except (Stop ε) α) : Prop :=
  ∀ fs t r fs', Run Step x fs t r fs' ↔ fs' = fs ∧ ∃ a, t = [⟨.podman command, a⟩] ∧ r = result a

/-- interpret the output, unless Podman could not be started -/
def afterSpawn {ε α : Type} (spawn : CliError → ε) (f : Output → Except (Stop ε) α) :
    Except IoError Output → Except (Stop ε) α
  | .ok output => f output
  | .error error => .error (.err (spawn (.io "podman_spawn" error)))

theorem podmanOutput_asks (distribution : Option String) (arguments : List String) :
    Asks (podmanOutput distribution arguments) ⟨distribution, arguments⟩ (afterSpawn id .ok) := by
  intro fs t r fs'
  rw [podmanOutput, run_bind]
  refine ⟨?_, ?_⟩
  · intro hx
    rcases hx with ⟨a, t₁, u, t₂, h₁, h₂, rfl⟩ | ⟨e, he, rfl⟩
    · obtain ⟨a', hs, rfl, ha⟩ := run_sys.1 h₁
      obtain rfl : u = fs := hs
      cases ha
      cases a with
      | ok output => obtain ⟨rfl, rfl, rfl⟩ := run_pure.1 h₂; exact ⟨rfl, _, rfl, rfl⟩
      | error error => obtain ⟨rfl, rfl, rfl⟩ := run_fail.1 h₂; exact ⟨rfl, _, rfl, rfl⟩
    · obtain ⟨a', -, -, ha⟩ := run_sys.1 he
      cases ha
  · intro hx
    obtain ⟨rfl, a, rfl, rfl⟩ := hx
    refine .inl ⟨a, [⟨_, a⟩], fs', [], run_sys.2 ⟨a, rfl, rfl, rfl⟩, ?_, rfl⟩
    cases a with
    | ok output => exact run_pure.2 ⟨rfl, rfl, rfl⟩
    | error error => exact run_fail.2 ⟨rfl, rfl, rfl⟩

theorem Asks.mapErr {ε δ α : Type} {x : Proc δ α} {command : Command}
    {result : Except IoError Output → Except (Stop δ) α} (h : Asks x command result) (f : δ → ε) :
    Asks (mapErr f x) command (relabel f ∘ result) := by
  intro fs t r fs'
  rw [run_mapErr]
  refine ⟨?_, ?_⟩
  · intro hx
    obtain ⟨r₀, h₀, rfl⟩ := hx
    obtain ⟨rfl, a, rfl, rfl⟩ := (h _ _ _ _).1 h₀
    exact ⟨rfl, a, rfl, rfl⟩
  · intro hx
    obtain ⟨rfl, a, rfl, rfl⟩ := hx
    exact ⟨result a, (h _ _ _ _).2 ⟨rfl, a, rfl, rfl⟩, rfl⟩

theorem Asks.bind {ε α β : Type} {x : Proc ε α} {command : Command}
    {result : Except IoError Output → Except (Stop ε) α} (h : Asks x command result)
    (f : α → Except (Stop ε) β) : Asks (x >>= fun a => liftM (f a)) command fun a => result a >>= f := by
  intro fs t r fs'
  rw [run_bind]
  refine ⟨?_, ?_⟩
  · intro hx
    rcases hx with ⟨b, t₁, u, t₂, h₁, h₂, rfl⟩ | ⟨e, he, rfl⟩
    · obtain ⟨rfl, a, rfl, hb⟩ := (h _ _ _ _).1 h₁
      obtain ⟨rfl, rfl, rfl⟩ := run_lift.1 h₂
      exact ⟨rfl, a, rfl, by dsimp only; rw [← hb, ok_bind]⟩
    · obtain ⟨rfl, a, rfl, hb⟩ := (h _ _ _ _).1 he
      exact ⟨rfl, a, rfl, by dsimp only; rw [← hb, error_bind]⟩
  · intro hx
    obtain ⟨rfl, a, rfl, rfl⟩ := hx
    cases hr : result a with
    | ok b =>
      have hf : (result a >>= f) = f b := by rw [hr, ok_bind]
      exact .inl ⟨b, _, fs', [], (h _ _ _ _).2 ⟨rfl, a, rfl, hr.symm⟩, run_lift.2 ⟨rfl, hf, rfl⟩, rfl⟩
    | error e => exact .inr ⟨e, (h _ _ _ _).2 ⟨rfl, a, rfl, hr.symm⟩, by dsimp only; rw [hr, error_bind]⟩

theorem Asks.congr {ε α : Type} {x : Proc ε α} {command : Command}
    {result result' : Except IoError Output → Except (Stop ε) α} (h : Asks x command result)
    (he : ∀ a, result a = result' a) : Asks x command result' := by
  rwa [← funext he]

/-- how the outcome of each command follows from the answer -/
def stopResult : Except IoError Output → Except (Stop RuntimeError) Unit :=
  afterSpawn (fun error => .backend error.message) stopOf

def statusResult : Except IoError Output → Except (Stop RuntimeError) ContainerStatus :=
  afterSpawn (fun error => .backend error.message) (statusOf lib)

def probeResult : Except IoError Output → Except (Stop CliError) Unit :=
  afterSpawn id fun output =>
    if output.success then .ok () else .error (.err (.backend "podman_unavailable" (outputMessage output)))

def publishResult (name image : String) : Except IoError Output → Except (Stop CliError) PublishReceipt :=
  afterSpawn (fun error => mapPublishError (.transport error.message)) fun output =>
    if output.success then
      .ok ⟨name ++ ":prebuilt", ⟨"podman-local", image⟩, "podman-local://" ++ image⟩
    else
      .error (.err (mapPublishError
        (.transport ("image " ++ image ++ " is not present in Podman local storage"))))

def stopCommand (distribution : Option String) (id : String) : Command := ⟨distribution, ["stop", id]⟩

def statusCommand (distribution : Option String) (id : String) : Command :=
  ⟨distribution, ["inspect", "--format", "\x7b\x7b.State.Status\x7d\x7d", id]⟩

def imageCommand (distribution : Option String) (image : String) : Command := ⟨distribution, ["image", "exists", image]⟩

theorem stop_asks (distribution : Option String) (id : String) :
    Asks (PodmanRuntime.stop distribution id) (stopCommand distribution id) stopResult :=
  (((podmanOutput_asks _ _).mapErr _).bind stopOf).congr (by rintro (_ | _) <;> rfl)

theorem status_asks (distribution : Option String) (id : String) :
    Asks (PodmanRuntime.status lib distribution id) (statusCommand distribution id) (statusResult lib) :=
  (((podmanOutput_asks _ _).mapErr _).bind (statusOf lib)).congr (by rintro (_ | _) <;> rfl)

theorem probe_asks (distribution : Option String) :
    Asks (PodmanLocalPublisher.probe distribution) ⟨distribution, ["version", "--format", "json"]⟩ probeResult :=
  ((podmanOutput_asks _ _).bind _).congr (by rintro (_ | _) <;> rfl)

theorem publishImage_asks (distribution : Option String) (name image : String) :
    Asks (publishImage distribution name image) (imageCommand distribution image) (publishResult name image) := by
  have hp : PodmanLocalPublisher.publish distribution ⟨name ++ ":prebuilt", image⟩ ⟨"podman-local", image⟩ =
      (mapErr (fun error : CliError => PublishError.transport error.message)
        (podmanOutput distribution ["image", "exists", image]) >>= fun output =>
          liftM (if output.success then .ok ⟨name ++ ":prebuilt", ⟨"podman-local", image⟩, "podman-local://" ++ image⟩
            else .error (.err (.transport ("image " ++ image ++ " is not present in Podman local storage"))) :
            Except (Stop PublishError) PublishReceipt)) := by
    simp [PodmanLocalPublisher.publish]
  show Asks (mapErr mapPublishError (PodmanLocalPublisher.publish _ ⟨name ++ ":prebuilt", image⟩ _)) _ _
  rw [hp]
  refine ((((podmanOutput_asks _ _).mapErr _).bind _).mapErr mapPublishError).congr ?_
  rintro (_ | ⟨_ | _, _, _⟩) <;> rfl

/-! ## Calls and errors -/

theorem podmanOutput_only {P : Event Answer → Prop} {distribution : Option String} {arguments : List String}
    (h : ∀ a, P ⟨.podman ⟨distribution, arguments⟩, a⟩) : Only P (podmanOutput distribution arguments) := by
  apply (Only.call h).bind
  intro a
  cases a
  · exact Only.fail _
  · exact Only.pure _

theorem podmanOutput_safe (distribution : Option String) (arguments : List String) :
    Safe (podmanOutput distribution arguments) := by
  apply (Safe.call _).bind
  intro a
  cases a
  · exact Safe.fail _
  · exact Safe.pure _

theorem probe_only {P : Event Answer → Prop} {distribution : Option String}
    (h : ∀ a, P ⟨.podman ⟨distribution, ["version", "--format", "json"]⟩, a⟩) :
    Only P (PodmanLocalPublisher.probe distribution) :=
  (podmanOutput_only h).bind fun _ => Only.lift _

theorem probe_safe (distribution : Option String) : Safe (PodmanLocalPublisher.probe distribution) := by
  refine (podmanOutput_safe _ _).bind fun output => Safe.lift ?_
  split_ifs
  · exact .ok _
  · exact .err _

theorem publishImage_only {P : Event Answer → Prop} {distribution : Option String} {name image : String}
    (h : ∀ a, P ⟨.podman (imageCommand distribution image), a⟩) : Only P (publishImage distribution name image) := by
  refine .mapErr ?_
  unfold PodmanLocalPublisher.publish
  split_ifs
  · exact Only.fail _
  · exact (podmanOutput_only h).mapErr.bind fun _ => Only.lift _

theorem publishImage_safe (distribution : Option String) (name image : String) :
    Safe (publishImage distribution name image) := by
  refine .mapErr ?_
  unfold PodmanLocalPublisher.publish
  split_ifs
  · exact Safe.fail _
  · refine (podmanOutput_safe _ _).mapErr.bind fun output => Safe.lift ?_
    split_ifs
    · exact .ok _
    · exact .err _

/-! ## What the answers mean -/

/-- the runtime reported the container gone or exited -/
def ReportedInactive (distribution : Option String) (id : String) (e : Event Answer) : Prop :=
  ∃ a, e = ⟨.podman (statusCommand distribution id), a⟩ ∧
    (statusResult lib a = .ok .notFound ∨ statusResult lib a = .ok .exited)

/-- the runtime accepted a stop for the container -/
def AcceptedStop (distribution : Option String) (id : String) (e : Event Answer) : Prop :=
  ∃ a, e = ⟨.podman (stopCommand distribution id), a⟩ ∧ stopResult a = .ok ()

/-- the container ids of the stop requests of a trace, in order -/
def stopRequest : Event Answer → Option String
  | ⟨.podman ⟨_, ["stop", id]⟩, _⟩ => some id
  | _ => none

def stopRequests (t : Trace) : List String := t.filterMap stopRequest

end PhenoCompose
