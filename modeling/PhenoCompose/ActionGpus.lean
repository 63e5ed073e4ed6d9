/-
The GPUs of an action, for every accepted manifest: which services the search finds and in which order, when their GPUs
can be bound, and what the bindings depend on.

The search of `actionGpuBindings` is that of `serviceOrder` without the path: on a graph without cycles the two make the
same moves (`visit_simulated`), so what is known of the order of services is known of the closure.

- `action_gpu_bindings_spec`: the closure is what the service comes to, each service once and after what it depends on, the
  service itself last; the bindings are found exactly when some service of the closure selects GPUs, all of those are NVIDIA
  and the toolkit is CUDA; and they are the canonical selectors of the closure in order, whatever else the manifests say.
-/
import PhenoCompose.ActionClosure
import PhenoCompose.Plan

namespace PhenoCompose

open Core.Collections Core.Process Core.Text Core.Topology Relation

/-! ## Two searches -/

/-- the services entered by the search for a closure are those on the path of the other search and those it has finished -/
structure Simulates (s : OrderState) (c : ClosureState) : Prop where
  output : c.output = s.output
  visited : ∀ n, n ∈ c.visited ↔ n ∈ s.visiting ∨ n ∈ s.visited

theorem foldlM_simulated {f : OrderState → String → Result OrderState} {g : ClosureState → String → Result ClosureState}
    (hfg : ∀ s name t c, f s name = .ok t → Simulates s c →
      ∃ d, g c name = .ok d ∧ Simulates t d ∧ ∀ n ∈ c.visited, n ∈ d.visited)
    {names : List String} {s t : OrderState} {c : ClosureState} (h : names.foldlM f s = .ok t) (hsim : Simulates s c) :
    ∃ d, names.foldlM g c = .ok d ∧ Simulates t d ∧ ∀ n ∈ c.visited, n ∈ d.visited := by
  induction names generalizing s c with
  | nil =>
    cases h
    exact ⟨c, rfl, hsim, fun _ hn => hn⟩
  | cons name names ih =>
    rw [List.foldlM_cons] at h ⊢
    obtain ⟨u, hu, hrest⟩ := bind_eq_ok.1 h
    obtain ⟨d, hd, hsim', hkept⟩ := hfg s name u c hu hsim
    obtain ⟨e, he, hsim'', hkept'⟩ := ih hrest hsim'
    exact ⟨e, by rw [hd, ok_bind, he], hsim'', fun n hn => hkept' n (hkept n hn)⟩

/-- where the search with a path finds no cycle, the search without one does the same -/
theorem visit_simulated {services : BTreeMap Service} {fuel : ℕ} {name : String} {s t : OrderState} {c : ClosureState}
    (h : visit services fuel name s = .ok t) (hsim : Simulates s c) :
    ∃ d, actionGpuBindings.visit services fuel name c = .ok d ∧ Simulates t d ∧ ∀ n ∈ c.visited, n ∈ d.visited := by
  induction fuel generalizing name s t c with
  | zero => cases h
  | succ fuel ih =>
    rw [visit] at h
    rw [actionGpuBindings.visit]
    split_ifs at h with hvisited hvisiting
    · cases h
      rw [if_pos ((hsim.visited name).2 (.inr hvisited))]
      exact ⟨c, rfl, hsim, fun _ hn => hn⟩
    · cases h
    · obtain ⟨service, hservice, hrow⟩ := bind_eq_ok.1 h
      obtain ⟨u, hu, ht⟩ := bind_eq_ok.1 hrow
      cases ht
      have hnew : name ∉ c.visited := by
        rw [hsim.visited, not_or]
        exact ⟨hvisiting, hvisited⟩
      have henter : Simulates { s with visiting := s.visiting.insert name } { c with visited := c.visited.insert name } := by
        refine ⟨hsim.output, ?_⟩
        intro n
        rw [Std.ExtTreeSet.mem_insert, Std.ExtTreeSet.mem_insert, hsim.visited, or_assoc]
      have hstep : ∀ s name t c, visit services fuel name s = .ok t → Simulates s c →
          ∃ d, actionGpuBindings.visit services fuel name c = .ok d ∧ Simulates t d ∧ ∀ n ∈ c.visited, n ∈ d.visited :=
        fun s name t c h hs => ih h hs
      obtain ⟨d, hd, hsim', hkept⟩ := foldlM_simulated hstep hu henter
      have hname : name ∈ d.visited := hkept name Std.ExtTreeSet.mem_insert_self
      rw [if_neg hnew, hservice, ok_bind, hd, ok_bind]
      refine ⟨_, rfl, ⟨congrArg (· ++ [name]) hsim'.output, ?_⟩, ?_⟩
      · intro n
        rw [Std.ExtTreeSet.mem_erase, Std.ExtTreeSet.mem_insert, Ne, Std.LawfulEqCmp.compare_eq_iff_eq]
        by_cases hn : name = n
        · rw [← hn]
          exact iff_of_true hname (.inr (.inl rfl))
        · rw [hsim'.visited]
          simp [hn]
      · exact fun n hn => hkept n (Std.ExtTreeSet.mem_insert.2 (.inr hn))

/-! ## The closure -/

/-- the services that one comes to, each once, after what it depends on, and the one itself last -/
structure ClosureOf (services : BTreeMap Service) (root : String) (closure : List String) : Prop where
  nodup : closure.Nodup
  reachable : ∀ n, n ∈ closure ↔ Reachable services root n
  deps_first : DepsFirst (DependsOn services) closure
  root_last : closure.getLast? = some root

theorem visit_root_last {services : BTreeMap Service} {fuel : ℕ} {name : String} {s t : OrderState}
    (h : visit services fuel name s = .ok t) (hname : name ∉ s.visited) : t.output.getLast? = some name := by
  cases fuel with
  | zero => cases h
  | succ fuel =>
    rw [visit, if_neg hname] at h
    split_ifs at h
    · cases h
    · obtain ⟨service, -, hrow⟩ := bind_eq_ok.1 h
      obtain ⟨u, -, ht⟩ := bind_eq_ok.1 hrow
      cases ht
      exact List.getLast?_concat

/-- in a closed graph without cycles, enough fuel finds the closure -/
theorem closure_found {services : BTreeMap Service} (hc : Closed services)
    (hacyclic : ∀ n, ¬TransGen (DependsOn services) n n) {root : String} (hroot : root ∈ services) {fuel : ℕ}
    (hfuel : services.size < fuel) :
    ∃ c, actionGpuBindings.visit services fuel root ⟨∅, []⟩ = .ok c ∧ ClosureOf services root c.output := by
  have hspec := visit_spec hc fuel (inv_init services) hroot (by simp) hfuel
  rcases hspec with ⟨t, ht, hinv, -, -, hmem⟩ | ⟨n, -, hcycle⟩
  swap
  · exact absurd hcycle (hacyclic n)
  obtain ⟨c, hfound, hsim, -⟩ := visit_simulated ht (c := ⟨∅, []⟩) ⟨rfl, by simp⟩
  obtain ⟨w, hw, hreach⟩ := visit_outputs ht
  rw [List.nil_append] at hw
  refine ⟨c, hfound, ?_⟩
  rw [hsim.output]
  refine ⟨hinv.nodup, ?_, hinv.deps_first, visit_root_last ht (by simp)⟩
  intro n
  refine ⟨fun hn => hreach n (hw ▸ hn), ?_⟩
  intro hn
  induction hn with
  | refl => exact hmem root (List.mem_singleton_self _)
  | tail _ hd ih => exact (hinv.deps_first _ ih _ hd).left_mem

/-! ## Collecting the GPUs -/

variable (lib : Externals)

/-- the GPUs a service asks for -/
def GpuOf (manifest : CompositionManifest) (name : String) (gpu : GpuRequirements) : Prop :=
  ∃ service, manifest.services[name]? = some service ∧ service.gpu = some gpu

/-- a selector of the service stands for this UUID -/
def Selected (manifest : CompositionManifest) (name uuid : String) : Prop :=
  ∃ gpu, GpuOf manifest name gpu ∧ ∃ selector ∈ gpu.uuids, canonicalGpuUuid selector = some uuid

def IsCuda (toolkit : Toolkit) : Prop := eqIgnoreAsciiCase toolkit.name "cuda" = true ∧ trim toolkit.version ≠ ""

def selectors (manifest : CompositionManifest) (name : String) : List String :=
  ((manifest.services[name]?).map Service.gpuUuids).getD []

/-- the set with the canonical forms of these selectors -/
def withCanonical (uuids : BTreeSet) (selectors : List String) : BTreeSet :=
  selectors.foldl (fun uuids selector => uuids.insert (canonicalOrSelf selector)) uuids

theorem mem_withCanonical {uuids : BTreeSet} {selectors : List String} {uuid : String} :
    uuid ∈ withCanonical uuids selectors ↔ uuid ∈ uuids ∨ ∃ selector ∈ selectors, canonicalOrSelf selector = uuid := by
  induction selectors generalizing uuids with
  | nil => simp [withCanonical]
  | cons selector selectors ih =>
    have hcons : withCanonical uuids (selector :: selectors) =
        withCanonical (uuids.insert (canonicalOrSelf selector)) selectors := rfl
    rw [hcons, ih, Std.ExtTreeSet.mem_insert, Std.LawfulEqCmp.compare_eq_iff_eq, List.exists_mem_cons_iff]
    tauto

theorem insertUuid_ok_iff (name : String) (uuids : BTreeSet) (uuid : String) (found : BTreeSet) :
    insertUuid lib name uuids uuid = .ok found ↔
      canonicalGpuUuid uuid ≠ none ∧ found = uuids.insert (canonicalOrSelf uuid) := by
  unfold insertUuid canonicalOrSelf
  cases canonicalGpuUuid uuid <;> simp [Err, eq_comm]

/-- what lets the GPUs of a service be collected -/
structure Collectable (manifest : CompositionManifest) (name : String) : Prop where
  known : name ∈ manifest.services
  nvidia : ∀ gpu, GpuOf manifest name gpu → gpu.vendor = .nvidia
  cuda : ∀ gpu, GpuOf manifest name gpu → IsCuda manifest.environment.toolkit
  canonical : ∀ gpu, GpuOf manifest name gpu → ∀ selector ∈ gpu.uuids, canonicalGpuUuid selector ≠ none

theorem collectUuids_ok_iff (manifest : CompositionManifest) (uuids : BTreeSet) (name : String) (found : BTreeSet) :
    collectUuids lib manifest uuids name = .ok found ↔
      Collectable manifest name ∧ found = withCanonical uuids (selectors manifest name) := by
  cases hs : manifest.services[name]? with
  | none =>
    refine iff_of_false ?_ fun h => ?_
    · intro h
      rw [collectUuids, index, hs] at h
      cases h
    · obtain ⟨service, hservice⟩ := exists_of_mem h.1.known
      rw [hs] at hservice
      cases hservice
  | some service =>
    have hgpu : ∀ gpu, GpuOf manifest name gpu ↔ service.gpu = some gpu := by
      intro gpu
      rw [GpuOf, hs]
      simp
    have hselectors : selectors manifest name = (service.gpu.map (·.uuids)).getD [] := by
      rw [selectors, hs]
      rfl
    rw [collectUuids, index_ok_iff.2 hs, ok_bind, hselectors]
    cases hg : service.gpu with
    | none =>
      have hnone : ∀ gpu, ¬GpuOf manifest name gpu := by simp [hgpu, hg]
      refine ⟨fun h => ?_, fun h => ?_⟩
      · cases h
        exact ⟨⟨mem_of_getElem? hs, fun gpu h => absurd h (hnone gpu), fun gpu h => absurd h (hnone gpu),
          fun gpu h => absurd h (hnone gpu)⟩, rfl⟩
      · rw [h.2]
        rfl
    | some gpu =>
      have hone : ∀ {p : GpuRequirements → Prop}, (∀ g, GpuOf manifest name g → p g) ↔ p gpu := by
        intro p
        simp [hgpu, hg]
      have hfold : gpu.uuids.foldlM (insertUuid lib name) uuids = .ok found ↔
          (∀ selector ∈ gpu.uuids, canonicalGpuUuid selector ≠ none) ∧ found = withCanonical uuids gpu.uuids :=
        foldlM_eq_ok (insertUuid_ok_iff lib name)
      simp only [bind_eq_ok, refuseIf_ok, not_or, not_not, hfold]
      refine ⟨?_, ?_⟩
      · rintro ⟨-, hvendor, -, ⟨hname, hversion⟩, hcanonical, hfound⟩
        exact ⟨⟨mem_of_getElem? hs, hone.2 hvendor, fun _ _ => ⟨hname, hversion⟩, hone.2 hcanonical⟩, hfound⟩
      · rintro ⟨h, hfound⟩
        obtain ⟨hname, hversion⟩ := hone.1 h.cuda
        exact ⟨(), hone.1 h.nvidia, (), ⟨hname, hversion⟩, hone.1 h.canonical, hfound⟩

theorem collect_closure_ok_iff {manifest : CompositionManifest} {closure : List String} {found : BTreeSet} :
    closure.foldlM (collectUuids lib manifest) ∅ = .ok found ↔
      (∀ name ∈ closure, Collectable manifest name) ∧ found = withCanonical ∅ (closure.flatMap (selectors manifest)) := by
  rw [foldlM_eq_ok (collectUuids_ok_iff lib manifest), withCanonical, List.foldl_flatMap]
  rfl

/-- what a service of an accepted manifest selects -/
theorem mem_selectors {manifest : CompositionManifest} (hvalid : Valid manifest) {name uuid : String} :
    (∃ selector ∈ selectors manifest name, canonicalOrSelf selector = uuid) ↔ Selected manifest name uuid := by
  have hgpus : ∀ gpu, GpuOf manifest name gpu → selectors manifest name = gpu.uuids := by
    rintro gpu ⟨service, hs, hg⟩
    rw [selectors, hs, Option.map_some, Option.getD_some, Service.gpuUuids, hg]
    rfl
  have hself : ∀ gpu, GpuOf manifest name gpu → ∀ selector ∈ gpu.uuids,
      canonicalGpuUuid selector = some (canonicalOrSelf selector) := by
    rintro gpu ⟨service, hs, hg⟩ selector hselector
    obtain ⟨canonical, hcanonical⟩ :=
      Option.ne_none_iff_exists'.1 (((hvalid.services name service hs).gpu gpu hg).2 selector hselector)
    rw [canonicalOrSelf, hcanonical]
    rfl
  refine ⟨?_, ?_⟩
  · rintro ⟨selector, hselector, rfl⟩
    obtain ⟨gpu, hgpu⟩ : ∃ gpu, GpuOf manifest name gpu := by
      unfold selectors Service.gpuUuids at hselector
      cases hs : manifest.services[name]? with
      | none => simp [hs] at hselector
      | some service =>
        cases hg : service.gpu with
        | none => simp [hs, hg] at hselector
        | some gpu => exact ⟨gpu, service, hs, hg⟩
    rw [hgpus gpu hgpu] at hselector
    exact ⟨gpu, hgpu, selector, hselector, hself gpu hgpu selector hselector⟩
  · rintro ⟨gpu, hgpu, selector, hselector, hcanonical⟩
    refine ⟨selector, (hgpus gpu hgpu).symm ▸ hselector, ?_⟩
    exact Option.some.inj ((hself gpu hgpu selector hselector).symm.trans hcanonical)

/-! ## The bindings -/

/-- some service of the closure asks for GPUs, and all that do can have them -/
structure Bindable (manifest : CompositionManifest) (root : String) : Prop where
  some_gpu : ∃ name gpu, Reachable manifest.services root name ∧ GpuOf manifest name gpu
  nvidia : ∀ name gpu, Reachable manifest.services root name → GpuOf manifest name gpu → gpu.vendor = .nvidia
  cuda : IsCuda manifest.environment.toolkit

/-- one binding for each UUID selected in the closure, in the order of the UUIDs -/
structure BindingsOf (manifest : CompositionManifest) (root : String) (bindings : List GpuBinding) : Prop where
  sorted : (bindings.map (·.uuid)).Pairwise (· < ·)
  selected : ∀ uuid, uuid ∈ bindings.map (·.uuid) ↔
    ∃ name, Reachable manifest.services root name ∧ Selected manifest name uuid
  bound : ∀ binding ∈ bindings, binding = gpuBinding manifest.environment.toolkit binding.uuid

/-- two manifests with the same services, dependencies, toolkit and GPUs, however these are written -/
structure SameGpus (manifest other : CompositionManifest) : Prop where
  names : ∀ name, name ∈ manifest.services ↔ name ∈ other.services
  dependsOn : ∀ a b, DependsOn manifest.services a b ↔ DependsOn other.services a b
  toolkit : manifest.environment.toolkit = other.environment.toolkit
  vendors : ∀ name vendor, (∃ gpu, GpuOf manifest name gpu ∧ gpu.vendor = vendor) ↔
    ∃ gpu, GpuOf other name gpu ∧ gpu.vendor = vendor
  selected : ∀ name uuid, Selected manifest name uuid ↔ Selected other name uuid

theorem strictly_sorted_toList (s : BTreeSet) : s.toList.Pairwise (· < ·) := by
  have h : s.toList.Pairwise fun a b => compare a b = .lt := Std.ExtTreeSet.ordered_toList
  exact h.imp fun h => compareOfLessAndEq_eq_lt.1 h

theorem map_gpuBinding (toolkit : Toolkit) (uuids : List String) :
    (uuids.map (gpuBinding toolkit)).map (·.uuid) = uuids := by
  rw [List.map_map]
  exact List.map_id uuids

theorem BindingsOf.eq_map {manifest : CompositionManifest} {root : String} {bindings : List GpuBinding}
    (h : BindingsOf manifest root bindings) :
    bindings = (bindings.map (·.uuid)).map (gpuBinding manifest.environment.toolkit) := by
  rw [List.map_map]
  exact (List.map_id bindings).symm.trans (List.map_congr_left h.bound)

/-- the bindings are determined by what they say -/
theorem BindingsOf.unique {manifest other : CompositionManifest} {root : String} {bindings bindings' : List GpuBinding}
    (h : BindingsOf manifest root bindings) (h' : BindingsOf other root bindings')
    (htoolkit : manifest.environment.toolkit = other.environment.toolkit)
    (hsame : ∀ uuid, uuid ∈ bindings.map (·.uuid) ↔ uuid ∈ bindings'.map (·.uuid)) : bindings = bindings' := by
  have hperm : (bindings.map (·.uuid)).Perm (bindings'.map (·.uuid)) :=
    (List.perm_ext_iff_of_nodup (h.sorted.imp fun hlt => hlt.ne) (h'.sorted.imp fun hlt => hlt.ne)).2 hsame
  have huuids : bindings.map (·.uuid) = bindings'.map (·.uuid) :=
    hperm.eq_of_pairwise (fun a b _ _ hab hba => absurd (hab.trans hba) (lt_irrefl a)) h.sorted h'.sorted
  rw [h.eq_map, h'.eq_map, huuids, htoolkit]

theorem Valid.acyclic {manifest : CompositionManifest} (h : Valid manifest) (n : String) :
    ¬TransGen (DependsOn manifest.services) n n := by
  obtain ⟨order, horder⟩ := h.order
  exact fun hcycle => acyclic_of_order h.closed horder ⟨n, hcycle⟩

/-- more fuel than the services call for finds the same closure -/
theorem closure_with_fuel {manifest : CompositionManifest} (hvalid : Valid manifest) {root : String}
    (hroot : root ∈ manifest.services) : ∃ closure, actionClosure manifest root = .ok closure ∧
      ClosureOf manifest.services root closure ∧ ∀ fuel > manifest.services.size,
        ∃ c, actionGpuBindings.visit manifest.services fuel root ⟨∅, []⟩ = .ok c ∧ c.output = closure := by
  have hfound := fun fuel => @visit_spec _ hvalid.closed fuel root _ (inv_init _) hroot (by simp)
  have hsame : ∀ fuel > manifest.services.size, visit manifest.services fuel root ⟨∅, ∅, []⟩ =
      visit manifest.services (manifest.services.size + 1) root ⟨∅, ∅, []⟩ := by
    intro fuel hfuel
    induction fuel, Nat.succ_le_of_lt hfuel using Nat.le_induction with
    | base => rfl
    | succ fuel hle ih =>
      rw [visit_more_fuel, ih hle]
      rcases hfound fuel hle with ⟨t, ht, -⟩ | ⟨n, -, hcycle⟩
      · rw [ht]
        exact nofun
      · exact absurd hcycle (hvalid.acyclic n)
  obtain ⟨c, hc, hof⟩ := closure_found hvalid.closed hvalid.acyclic hroot (Nat.lt_succ_self _)
  refine ⟨c.output, by rw [actionClosure, hc, ok_bind], hof, ?_⟩
  intro fuel hfuel
  rcases hfound fuel hfuel with ⟨t, ht, -⟩ | ⟨n, -, hcycle⟩
  · obtain ⟨d, hd, hsim, -⟩ := visit_simulated ht (c := ⟨∅, []⟩) ⟨rfl, by simp⟩
    rw [hsame fuel hfuel] at ht
    obtain ⟨d', hd', hsim', -⟩ := visit_simulated ht (c := ⟨∅, []⟩) ⟨rfl, by simp⟩
    rw [hc] at hd'
    cases hd'
    exact ⟨d, hd, by rw [hsim.output, hsim'.output]⟩
  · exact absurd hcycle (hvalid.acyclic n)

theorem mem_found {manifest : CompositionManifest} (hvalid : Valid manifest) {root : String} {closure : List String}
    (h : ClosureOf manifest.services root closure) {uuid : String} :
    uuid ∈ withCanonical ∅ (closure.flatMap (selectors manifest)) ↔
      ∃ name, Reachable manifest.services root name ∧ Selected manifest name uuid := by
  rw [mem_withCanonical]
  simp only [Std.ExtTreeSet.not_mem_empty, false_or, List.mem_flatMap, h.reachable, ← mem_selectors hvalid]
  refine ⟨?_, ?_⟩
  · rintro ⟨selector, ⟨name, hname, hselector⟩, hcanonical⟩
    exact ⟨name, hname, selector, hselector, hcanonical⟩
  · rintro ⟨name, hname, selector, hselector, hcanonical⟩
    exact ⟨selector, ⟨name, hname, hselector⟩, hcanonical⟩

/-- the GPUs of the closure can be collected, and there are some, exactly when they are bindable -/
theorem bindable_iff {manifest : CompositionManifest} (hvalid : Valid manifest) {root : String} {closure : List String}
    (h : ClosureOf manifest.services root closure) (hknown : ∀ name ∈ closure, name ∈ manifest.services) :
    (∀ name ∈ closure, Collectable manifest name) ∧ withCanonical ∅ (closure.flatMap (selectors manifest)) ≠ ∅ ↔
      Bindable manifest root := by
  refine ⟨?_, ?_⟩
  · rintro ⟨hcollect, hne⟩
    obtain ⟨uuid, huuid⟩ : ∃ uuid, uuid ∈ withCanonical ∅ (closure.flatMap (selectors manifest)) := by
      by_contra hnone
      exact hne (Std.ExtTreeSet.ext_mem fun uuid => iff_of_false (fun hm => hnone ⟨uuid, hm⟩) Std.ExtTreeSet.not_mem_empty)
    obtain ⟨name, hname, gpu, hgpu, -⟩ := (mem_found hvalid h).1 huuid
    refine ⟨⟨name, gpu, hname, hgpu⟩, ?_, (hcollect name ((h.reachable name).2 hname)).cuda gpu hgpu⟩
    intro other gpu' hother
    exact (hcollect other ((h.reachable other).2 hother)).nvidia gpu'
  · intro hbind
    refine ⟨?_, ?_⟩
    · intro name hname
      refine ⟨hknown name hname, fun gpu => hbind.nvidia name gpu ((h.reachable name).1 hname), fun _ _ => hbind.cuda, ?_⟩
      rintro gpu ⟨service, hs, hg⟩
      exact ((hvalid.services name service hs).gpu gpu hg).2
    · obtain ⟨name, gpu, hname, service, hs, hg⟩ := hbind.some_gpu
      obtain ⟨hsome, hcanonical⟩ := (hvalid.services name service hs).gpu gpu hg
      obtain ⟨selector, rest, huuids⟩ := List.exists_cons_of_ne_nil hsome
      have hmem : selector ∈ gpu.uuids := huuids ▸ List.mem_cons_self
      obtain ⟨uuid, huuid⟩ := Option.ne_none_iff_exists'.1 (hcanonical selector hmem)
      have hfound := (mem_found hvalid h).2 ⟨name, hname, gpu, ⟨service, hs, hg⟩, selector, hmem, huuid⟩
      intro he
      rw [he] at hfound
      exact Std.ExtTreeSet.not_mem_empty hfound

theorem closure_known {manifest : CompositionManifest} (hvalid : Valid manifest) {root : String}
    (hroot : root ∈ manifest.services) {name : String} (h : Reachable manifest.services root name) :
    name ∈ manifest.services := by
  induction h with
  | refl => exact hroot
  | tail _ hd _ => exact hvalid.closed _ _ hd

/-- the canonical selectors collected from the closure give the bindings -/
theorem bindings_of_closure {manifest : CompositionManifest} (hvalid : Valid manifest) {root : String}
    {closure : List String} (h : ClosureOf manifest.services root closure) :
    BindingsOf manifest root ((withCanonical ∅ (closure.flatMap (selectors manifest))).toList.map
      (gpuBinding manifest.environment.toolkit)) := by
  refine ⟨by rw [map_gpuBinding]; exact strictly_sorted_toList _, ?_, ?_⟩
  · intro uuid
    rw [map_gpuBinding, Std.ExtTreeSet.mem_toList, mem_found hvalid h]
  · intro binding hbinding
    obtain ⟨uuid, -, rfl⟩ := List.mem_map.1 hbinding
    rfl

/-- what `actionGpuBindings` returns -/
theorem actionGpuBindings_ok_iff {manifest : CompositionManifest} (hvalid : Valid manifest) {root : String}
    (hroot : root ∈ manifest.services) {closure : List String} (hclosure : actionClosure manifest root = .ok closure)
    (h : ClosureOf manifest.services root closure) {found : List String} {bindings : List GpuBinding} :
    actionGpuBindings lib manifest root = .ok (found, bindings) ↔
      Bindable manifest root ∧ found = closure ∧ BindingsOf manifest root bindings := by
  have hknown : ∀ name ∈ closure, name ∈ manifest.services := fun name hname =>
    closure_known hvalid hroot ((h.reachable name).1 hname)
  have hbindings := bindings_of_closure hvalid h
  simp only [actionGpuBindings, hclosure, ok_bind, bind_eq_ok, collect_closure_ok_iff, refuseIf_ok, Except.ok.injEq,
    Prod.mk.injEq]
  refine ⟨?_, ?_⟩
  · rintro ⟨_, ⟨hcollect, rfl⟩, -, hne, rfl, rfl⟩
    exact ⟨(bindable_iff hvalid h hknown).1 ⟨hcollect, hne⟩, rfl, hbindings⟩
  · rintro ⟨hbind, rfl, hof⟩
    obtain ⟨hcollect, hne⟩ := (bindable_iff hvalid h hknown).2 hbind
    refine ⟨_, ⟨hcollect, rfl⟩, (), hne, rfl, ?_⟩
    exact hbindings.unique hof rfl fun uuid => by rw [hbindings.selected, hof.selected]

theorem SameGpus.symm {manifest other : CompositionManifest} (h : SameGpus manifest other) : SameGpus other manifest where
  names name := (h.names name).symm
  dependsOn a b := (h.dependsOn a b).symm
  toolkit := h.toolkit.symm
  vendors name vendor := (h.vendors name vendor).symm
  selected name uuid := (h.selected name uuid).symm

theorem SameGpus.reachable {manifest other : CompositionManifest} (h : SameGpus manifest other) {root name : String} :
    Reachable manifest.services root name ↔ Reachable other.services root name := by
  have hdep : DependsOn manifest.services = DependsOn other.services :=
    funext fun a => funext fun b => propext (h.dependsOn a b)
  rw [Reachable, hdep, Reachable]

theorem SameGpus.bindable {manifest other : CompositionManifest} (h : SameGpus manifest other) {root : String}
    (hbind : Bindable manifest root) : Bindable other root := by
  obtain ⟨⟨name, gpu, hname, hgpu⟩, hnvidia, hcuda⟩ := hbind
  obtain ⟨gpu', hgpu', -⟩ := (h.vendors name gpu.vendor).1 ⟨gpu, hgpu, rfl⟩
  refine ⟨⟨name, gpu', h.reachable.1 hname, hgpu'⟩, ?_, h.toolkit ▸ hcuda⟩
  intro name gpu hname hgpu
  obtain ⟨gpu', hgpu', hvendor⟩ := (h.vendors name gpu.vendor).2 ⟨gpu, hgpu, rfl⟩
  rw [← hvendor]
  exact hnvidia name gpu' (h.reachable.2 hname) hgpu'

theorem SameGpus.bindings {manifest other : CompositionManifest} (h : SameGpus manifest other) {root : String}
    {bindings : List GpuBinding} (hof : BindingsOf manifest root bindings) : BindingsOf other root bindings where
  sorted := hof.sorted
  selected uuid := by simp only [hof.selected, h.reachable, h.selected]
  bound := h.toolkit ▸ hof.bound

/-- what is known of the GPUs of an action on the service `root` -/
structure GpusOf (manifest : CompositionManifest) (root : String) (closure : List String) : Prop where
  closure_of : ClosureOf manifest.services root closure
  terminates : ∀ fuel > manifest.services.size,
    ∃ c, actionGpuBindings.visit manifest.services fuel root ⟨∅, []⟩ = .ok c ∧ c.output = closure
  found_iff : (∃ bindings, actionGpuBindings lib manifest root = .ok (closure, bindings)) ↔ Bindable manifest root
  refused : ¬Bindable manifest root → ∃ error, actionGpuBindings lib manifest root = Err error
  bindings_of : ∀ found bindings, actionGpuBindings lib manifest root = .ok (found, bindings) →
    found = closure ∧ BindingsOf manifest root bindings
  independent : ∀ other : CompositionManifest, other.validate lib = .ok () → SameGpus manifest other → ∀ bindings,
    (∃ found, actionGpuBindings lib manifest root = .ok (found, bindings)) ↔
      ∃ found, actionGpuBindings lib other root = .ok (found, bindings)

/-- **The GPUs of an action are those of its closure.** For every accepted manifest and every service, the search ends with
the closure, the bindings are found exactly when they are bindable, and they do not depend on how the manifest is written. -/
theorem action_gpu_bindings_spec {manifest : CompositionManifest} (hvalid : manifest.validate lib = .ok ()) {root : String}
    (hroot : root ∈ manifest.services) : ∃ closure, GpusOf lib manifest root closure := by
  rw [validate_ok_iff] at hvalid
  obtain ⟨closure, hclosure, hof, hfuel⟩ := closure_with_fuel hvalid hroot
  have hok : ∀ found bindings, actionGpuBindings lib manifest root = .ok (found, bindings) ↔
      Bindable manifest root ∧ found = closure ∧ BindingsOf manifest root bindings :=
    fun _ _ => actionGpuBindings_ok_iff lib hvalid hroot hclosure hof
  refine ⟨closure, hof, hfuel, ⟨?_, ?_⟩, ?_, fun found bindings h => ((hok found bindings).1 h).2, ?_⟩
  · rintro ⟨bindings, h⟩
    exact ((hok _ _).1 h).1
  · intro hbind
    exact ⟨_, (hok _ _).2 ⟨hbind, rfl, bindings_of_closure hvalid hof⟩⟩
  · intro hbind
    have hraises := actionGpuBindings_raises lib fun _ h => closure_known hvalid hroot h
    cases hresult : actionGpuBindings lib manifest root with
    | ok result => exact absurd ((hok _ _).1 hresult).1 hbind
    | error e =>
      obtain ⟨error, rfl⟩ := hraises e hresult
      exact ⟨error, rfl⟩
  · intro other hother hsame bindings
    rw [validate_ok_iff] at hother
    obtain ⟨closure', hclosure', hof', -⟩ := closure_with_fuel hother ((hsame.names root).1 hroot)
    have hok' : ∀ found, actionGpuBindings lib other root = .ok (found, bindings) ↔
        Bindable other root ∧ found = closure' ∧ BindingsOf other root bindings :=
      fun _ => actionGpuBindings_ok_iff lib hother ((hsame.names root).1 hroot) hclosure' hof'
    simp only [hok, hok']
    refine ⟨?_, ?_⟩
    · rintro ⟨-, hbind, -, hb⟩
      exact ⟨closure', hsame.bindable hbind, rfl, hsame.bindings hb⟩
    · rintro ⟨-, hbind, -, hb⟩
      exact ⟨closure, hsame.symm.bindable hbind, rfl, hsame.symm.bindings hb⟩

theorem action_gpu_bindings_example : ClosureOf demo.services "api" ["db", "api"] ∧ Bindable demo "api" := by
  obtain ⟨closure, h⟩ := action_gpu_bindings_spec .standard demo_valid (by decide : "api" ∈ demo.services)
  obtain ⟨bindings, hfound⟩ : ∃ bindings, actionGpuBindings .standard demo "api" = .ok (["db", "api"], bindings) :=
    ⟨_, rfl⟩
  obtain ⟨rfl, -⟩ := h.bindings_of _ _ hfound
  exact ⟨h.closure_of, h.found_iff.1 ⟨bindings, hfound⟩⟩

end PhenoCompose
