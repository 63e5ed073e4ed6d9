/-
The lifecycle request as NanoVMS reads it: a backend may execute its intents one by one.

`wire_intents` writes the intents as one create and one start a service, over the entries of the manifest in dependency
order; `request_executable` reads off what a backend relies on.
-/
import PhenoCompose.Lifecycle

namespace PhenoCompose

open Core.Collections Core.Process Core.Topology

/-! ## Lists that go through something in pairs -/

section Pairs

variable {α β : Type} (f g : α → β)

/-- two steps for each element -/
def inPairs (l : List α) : List β := l.flatMap fun a => [f a, g a]

theorem countP_inPairs (p : β → Bool) (l : List α) :
    (inPairs f g l).countP p = l.countP (p ∘ f) + l.countP (p ∘ g) := by
  induction l with
  | nil => rfl
  | cons a l ih =>
    calc (inPairs f g (a :: l)).countP p = [f a, g a].countP p + (inPairs f g l).countP p := List.countP_append
      _ = [f a, g a].countP p + (l.countP (p ∘ f) + l.countP (p ∘ g)) := by rw [ih]
      _ = (a :: l).countP (p ∘ f) + (a :: l).countP (p ∘ g) := by
        simp only [List.countP_cons, List.countP_nil, Function.comp_apply]
        omega

variable {f g}

theorem mem_inPairs {l : List α} {b : β} : b ∈ inPairs f g l ↔ ∃ a ∈ l, b = f a ∨ b = g a := by
  simp only [inPairs, List.mem_flatMap, List.mem_pair]

/-- what comes before and after a first step -/
theorem inPairs_split {p : β → Prop} (hg : ∀ a, ¬p (g a)) {l : List α} {before after : List β}
    {x : β} (h : inPairs f g l = before ++ x :: after) (hx : p x) :
    ∃ l₁ a l₂, l = l₁ ++ a :: l₂ ∧ before = inPairs f g l₁ ∧ x = f a ∧ after = g a :: inPairs f g l₂ := by
  induction l generalizing before with
  | nil => simp [inPairs] at h
  | cons a l ih =>
    rw [inPairs, List.flatMap_cons, ← inPairs] at h
    match before with
    | [] =>
      cases h
      exact ⟨[], a, l, rfl, rfl, rfl, rfl⟩
    | [b] =>
      -- a second step is no first step
      cases h
      exact absurd hx (hg a)
    | b :: b' :: before =>
      simp only [List.cons_append, List.nil_append, List.cons.injEq] at h
      obtain ⟨rfl, rfl, hrest⟩ := h
      obtain ⟨l₁, c, l₂, rfl, rfl, hc, hafter⟩ := ih hrest
      exact ⟨a :: l₁, c, l₂, rfl, rfl, hc, hafter⟩

theorem filter_inPairs {p : β → Bool} (hf : ∀ a, p (f a) = true) (hg : ∀ a, p (g a) = false) (l : List α) :
    (inPairs f g l).filter p = l.map f := by
  induction l with
  | nil => rfl
  | cons a l ih =>
    calc (inPairs f g (a :: l)).filter p = [f a, g a].filter p ++ (inPairs f g l).filter p := List.filter_append ..
      _ = [f a] ++ l.map f := by
        rw [ih]
        simp [hf, hg]

end Pairs

/-! ## The request -/

/-- what a backend that executes the intents one by one relies on -/
structure Executable (manifest : CompositionManifest) (request : ServiceLifecycleRequest) : Prop where
  phases : ∀ intent ∈ request.intents, intent.phase = "create" ∨ intent.phase = "start"
  created_once : ∀ name, name ∈ manifest.services →
    (request.intents.countP fun intent => intent.phase == "create" && intent.service == name) = 1
  started_once : ∀ name, name ∈ manifest.services →
    (request.intents.countP fun intent => intent.phase == "start" && intent.service == name) = 1
  then_started : ∀ before create after, request.intents = before ++ create :: after → create.phase = "create" →
    ∃ start rest, after = start :: rest ∧ start.phase = "start" ∧ start.service = create.service
  dependencies_started : ∀ before create after, request.intents = before ++ create :: after →
    create.phase = "create" → ∀ d, DependsOn manifest.services create.service d →
      ∃ start ∈ before, start.phase = "start" ∧ start.service = d
  order : request.order = (request.intents.filter (·.phase == "create")).map (·.service)
  services : ∀ name, name ∈ request.services ↔ name ∈ manifest.services
  agrees : ∀ intent ∈ request.intents, ∃ entry, request.services[intent.service]? = some entry ∧
    intent.dependsOn = entry.dependsOn ∧
    intent.image = if intent.phase = "create" then some entry.image else none

/-- the create intent of a service on the wire -/
def createIntent (entry : String × Service) : ServiceLifecycleIntent where
  phase := "create"
  service := entry.1
  image := some entry.2.image
  dependsOn := entry.2.dependsOn

/-- the start intent of a service on the wire -/
def startIntent (entry : String × Service) : ServiceLifecycleIntent where
  phase := "start"
  service := entry.1
  image := none
  dependsOn := entry.2.dependsOn

/-- names that a map knows are the keys of some of its entries -/
theorem exists_entries {V : Type} {m : BTreeMap V} {names : List String} (h : ∀ name ∈ names, name ∈ m) :
    ∃ entries : List (String × V), entries.map Prod.fst = names ∧ ∀ e ∈ entries, m[e.1]? = some e.2 := by
  induction names with
  | nil => exact ⟨[], rfl, List.forall_mem_nil _⟩
  | cons name names ih =>
    obtain ⟨hname, hrest⟩ := List.forall_mem_cons.1 h
    obtain ⟨value, hvalue⟩ := exists_of_mem hname
    obtain ⟨entries, hkeys, hentries⟩ := ih hrest
    exact ⟨(name, value) :: entries, congrArg (name :: ·) hkeys, List.forall_mem_cons.2 ⟨hvalue, hentries⟩⟩

theorem wire_intents {manifest : CompositionManifest} {entries : List (String × Service)}
    (h : ∀ e ∈ entries, manifest.services[e.1]? = some e.2) :
    ((entries.map Prod.fst).flatMap (intentsOf manifest)).map lifecycleIntent =
      inPairs createIntent startIntent entries := by
  induction entries with
  | nil => rfl
  | cons e entries ih =>
    obtain ⟨he, hrest⟩ := List.forall_mem_cons.1 h
    have hpair : (intentsOf manifest e.1).map lifecycleIntent = [createIntent e, startIntent e] := by
      rw [intentsOf, he]
      rfl
    calc (((e :: entries).map Prod.fst).flatMap (intentsOf manifest)).map lifecycleIntent =
        (intentsOf manifest e.1).map lifecycleIntent ++
          ((entries.map Prod.fst).flatMap (intentsOf manifest)).map lifecycleIntent := List.map_append
      _ = [createIntent e, startIntent e] ++ inPairs createIntent startIntent entries := by rw [hpair, ih hrest]

/-- an entry is counted once under its key -/
theorem countP_key {V : Type} {entries : List (String × V)} (h : (entries.map Prod.fst).Nodup) {name : String}
    (hn : name ∈ entries.map Prod.fst) : (entries.countP fun e => e.1 == name) = 1 := by
  have hcount := List.count_eq_one_of_mem h hn
  rw [List.count, List.countP_map] at hcount
  exact hcount

section Entries

variable {entries : List (String × Service)} {name : String}

/-- each service has one intent of each phase -/
theorem phase_once (h : (entries.map Prod.fst).Nodup) (hn : name ∈ entries.map Prod.fst) {phase : String}
    (hphase : phase = "create" ∨ phase = "start") :
    ((inPairs createIntent startIntent entries).countP fun intent =>
      intent.phase == phase && intent.service == name) = 1 := by
  rw [countP_inPairs]
  rcases hphase with rfl | rfl
  · simp [Function.comp_def, createIntent, startIntent, countP_key h hn]
  · simp [Function.comp_def, createIntent, startIntent, countP_key h hn]

/-- a create intent, what came before it, and the start that follows -/
theorem create_split {before after : List ServiceLifecycleIntent} {create : ServiceLifecycleIntent}
    (h : inPairs createIntent startIntent entries = before ++ create :: after) (hc : create.phase = "create") :
    ∃ l₁ e l₂, entries = l₁ ++ e :: l₂ ∧ before = inPairs createIntent startIntent l₁ ∧ create = createIntent e ∧
      after = startIntent e :: inPairs createIntent startIntent l₂ :=
  inPairs_split (p := fun intent => intent.phase = "create") (fun e he => by simp [startIntent] at he) h hc

/-- in a list of entries that puts dependencies first, they are started before a dependent is created -/
theorem dependencies_started {services : BTreeMap Service} (hnodup : (entries.map Prod.fst).Nodup)
    (hdeps : DepsFirst (DependsOn services) (entries.map Prod.fst)) {before after : List ServiceLifecycleIntent}
    {create : ServiceLifecycleIntent} (h : inPairs createIntent startIntent entries = before ++ create :: after)
    (hc : create.phase = "create") {d : String} (hd : DependsOn services create.service d) :
    ∃ start ∈ before, start.phase = "start" ∧ start.service = d := by
  obtain ⟨l₁, e, l₂, rfl, rfl, rfl, -⟩ := create_split h hc
  rw [List.map_append, List.map_cons] at hdeps hnodup
  have hbefore : Before (l₁.map Prod.fst ++ e.1 :: l₂.map Prod.fst) d e.1 := hdeps e.1 (by simp) d hd
  obtain ⟨e', he', rfl⟩ := List.mem_map.1 (hbefore.mem_front hnodup)
  exact ⟨startIntent e', mem_inPairs.2 ⟨e', he', .inr rfl⟩, rfl, rfl⟩

end Entries

/-- **A request can be executed intent by intent.** For every manifest that is accepted, the request made from its plan
creates and starts each service once, the start right after the create and both after the services it depends on were
started, and its parts agree. -/
theorem request_executable (lib : Externals) (manifest : CompositionManifest) (h : manifest.validate lib = .ok ())
    (runId manifestSha256 : String) :
    ∃ lifecycle, planLifecycle manifest manifestSha256 = .ok lifecycle ∧
      Executable manifest (buildLifecycleRequest manifest lifecycle runId manifestSha256) := by
  have hv := (validate_ok_iff lib).1 h
  obtain ⟨order, ho⟩ := hv.order
  have hmem := hv.mem_order ho
  have hnodup := serviceOrder_nodup hv.closed ho
  have hdeps := (serviceOrder_ok hv.closed ho).2
  obtain ⟨entries, rfl, hentries⟩ := exists_entries fun name hname => (hmem name).1 hname
  have hservices : ∀ name, (manifest.services.map fun _ service => serviceDefinition service)[name]? =
      manifest.services[name]?.map serviceDefinition := fun name => by rw [Std.ExtTreeMap.getElem?_map]
  refine ⟨_, planLifecycle_ok hv ho manifestSha256, ?_⟩
  rw [buildLifecycleRequest, wire_intents hentries]
  exact
    { phases := by
        intro intent hi
        obtain ⟨e, -, rfl | rfl⟩ := mem_inPairs.1 hi
        · exact .inl rfl
        · exact .inr rfl
      created_once := fun name hn => phase_once hnodup ((hmem name).2 hn) (.inl rfl)
      started_once := fun name hn => phase_once hnodup ((hmem name).2 hn) (.inr rfl)
      then_started := by
        intro before create after hsplit hc
        obtain ⟨l₁, e, l₂, -, -, rfl, rfl⟩ := create_split hsplit hc
        exact ⟨startIntent e, _, rfl, rfl, rfl⟩
      dependencies_started := fun before create after hsplit hc d hd =>
        dependencies_started hnodup hdeps hsplit hc hd
      order := by
        rw [filter_inPairs (fun e => by rfl) (fun e => by rfl), List.map_map]
        rfl
      services := fun name => Std.ExtTreeMap.mem_map
      agrees := by
        intro intent hi
        obtain ⟨e, he, rfl | rfl⟩ := mem_inPairs.1 hi
        · refine ⟨serviceDefinition e.2, ?_, rfl, rfl⟩
          exact (hservices e.1).trans (by rw [hentries e he]; rfl)
        · refine ⟨serviceDefinition e.2, ?_, rfl, rfl⟩
          exact (hservices e.1).trans (by rw [hentries e he]; rfl) }

theorem request_executable_example : ∃ lifecycle, planLifecycle demo "sha" = .ok lifecycle ∧
    Executable demo (buildLifecycleRequest demo lifecycle "demo-sha" "sha") :=
  request_executable .standard demo demo_valid "demo-sha" "sha"

end PhenoCompose
