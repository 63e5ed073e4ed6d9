/-
The two gates of a mutating apply, over manifests that may declare one capability more than once.

`ensureApplyCapabilities` leaves the lifecycle declarations to `ensureServiceLifecycleCapability`, and that gate
looks at the first of them only, in the order of the keys of `providers`.

- `applicable_iff`: the gates are open exactly when nothing else is in the way and the first lifecycle declaration is
  available.
- `gates_closed_iff`: open gates mean what they are documented to mean, under any names, exactly for the manifests
  whose lifecycle declarations agree or that are refused for another reason.
- `second_declaration_missed`: a manifest that declares the capability twice, once as a placeholder.
-/
import PhenoCompose.Apply

namespace PhenoCompose

open Core.Collections Core.Process

/-! ## What the gates are for -/

/-- what open gates are documented to mean -/
structure Supported (manifest : CompositionManifest) : Prop where
  runtime : manifest.runtime.provider = .podman
  providers : ∀ provider ∈ values manifest.providers, provider.status = .available
  lifecycle : ∃ provider ∈ values manifest.providers, provider.capability = serviceLifecycleCapability
  health_checks : ∀ service ∈ values manifest.services, service.healthCheck = none
  artifacts : manifest.artifacts = []
  volumes : manifest.teardown.removeVolumes = false
  gpus : ∀ service ∈ values manifest.services, ∀ gpu ∈ service.gpu, gpu.vendor = .nvidia

def CompositionManifest.renameProviders (manifest : CompositionManifest) (rename : String → String) :
    CompositionManifest :=
  { manifest with providers := renameKeys rename manifest.providers }

/-- no renaming of the provider declarations opens or closes the gates -/
def NameIndependent (manifest : CompositionManifest) : Prop :=
  ∀ rename : String → String, Set.InjOn rename {name | name ∈ manifest.providers} →
    (Applicable (manifest.renameProviders rename) ↔ Applicable manifest)

/-- nothing but the lifecycle capability stands in the way of an apply -/
structure Unobstructed (manifest : CompositionManifest) : Prop where
  runtime : manifest.runtime.provider = .podman
  others : ∀ provider ∈ values manifest.providers,
    provider.capability ≠ serviceLifecycleCapability → provider.status = .available
  health_checks : ∀ service ∈ values manifest.services, service.healthCheck = none
  artifacts : manifest.artifacts = []
  volumes : manifest.teardown.removeVolumes = false
  gpus : ∀ service ∈ values manifest.services, ∀ gpu ∈ service.gpu, gpu.vendor = .nvidia

/-- the lifecycle capability is declared with this status -/
def DeclaresLifecycle (manifest : CompositionManifest) (status : ProviderStatus) : Prop :=
  ∃ provider ∈ values manifest.providers, provider.capability = serviceLifecycleCapability ∧ provider.status = status

/-- the lifecycle capability is declared as available, and again as something else -/
def LifecycleDisputed (manifest : CompositionManifest) : Prop :=
  DeclaresLifecycle manifest .available ∧ ∃ status ≠ ProviderStatus.available, DeclaresLifecycle manifest status

/-! ## When the gates are open -/

/-- the declaration that the lifecycle gate looks at -/
def firstDeclaration (manifest : CompositionManifest) : Option ProviderDeclaration :=
  (values manifest.providers).find? fun provider => provider.capability == serviceLifecycleCapability

theorem ensureRuntimeProvider_ok {manifest : CompositionManifest} {u : Unit} :
    ensureRuntimeProvider manifest = .ok u ↔ manifest.runtime.provider = .podman := by
  unfold ensureRuntimeProvider
  cases manifest.runtime.provider <;> simp [Err]

theorem any_available_iff {manifest : CompositionManifest} :
    ((values manifest.providers).any fun provider =>
        provider.capability == serviceLifecycleCapability && provider.status == .available) = true ↔
      DeclaresLifecycle manifest .available := by
  simp only [List.any_eq_true, Bool.and_eq_true, beq_iff_eq, DeclaresLifecycle]

theorem any_healthCheck_iff {manifest : CompositionManifest} :
    (values manifest.services).any (·.healthCheck.isSome) = true ↔
      ¬∀ service ∈ values manifest.services, service.healthCheck = none := by
  simp only [List.any_eq_true, Option.isSome_iff_ne_none, not_forall, exists_prop, ne_eq]

theorem ensureApplyCapabilities_ok {manifest : CompositionManifest} :
    ensureApplyCapabilities manifest = .ok () ↔
      manifest.runtime.provider = .podman ∧
      (∀ provider ∈ values manifest.providers,
        provider.capability ≠ serviceLifecycleCapability → provider.status = .available) ∧
      (DeclaresLifecycle manifest .available → ∀ service ∈ values manifest.services, service.healthCheck = none) ∧
      manifest.artifacts = [] ∧ manifest.teardown.removeVolumes = false ∧
      ∀ service ∈ values manifest.services, ∀ gpu ∈ service.gpu, gpu.vendor = .nvidia := by
  have hothers : (∀ e ∈ manifest.providers.toList,
        e.2.capability ≠ serviceLifecycleCapability → e.2.status = .available) ↔
      ∀ provider ∈ values manifest.providers,
        provider.capability ≠ serviceLifecycleCapability → provider.status = .available := by
    rw [values, List.forall_mem_map]
  simp only [ensureApplyCapabilities, bind_eq_ok, forM_eq_ok, refuseIf_ok, ensureRuntimeProvider_ok,
    any_available_iff, any_healthCheck_iff, hothers, not_and, not_not, Bool.not_eq_true, not_exists, exists_const]

theorem ensureServiceLifecycleCapability_ok {manifest : CompositionManifest} :
    ensureServiceLifecycleCapability manifest = .ok () ↔
      ∃ provider, firstDeclaration manifest = some provider ∧ provider.status = .available := by
  unfold ensureServiceLifecycleCapability firstDeclaration
  cases (values manifest.providers).find? fun provider => provider.capability == serviceLifecycleCapability with
  | none => simp [Err]
  | some provider => cases hs : provider.status <;> simp [Err, hs]

/-- a lifecycle declaration is first when it is under the least name -/
theorem firstDeclaration_eq {manifest : CompositionManifest} {provider : ProviderDeclaration} :
    firstDeclaration manifest = some provider ↔
      ∃ name : String, manifest.providers[name]? = some provider ∧
        provider.capability = serviceLifecycleCapability ∧
        ∀ (other : String) declared, manifest.providers[other]? = some declared →
          declared.capability = serviceLifecycleCapability → name ≤ other := by
  rw [firstDeclaration, find?_values_eq_some]
  simp only [beq_iff_eq]

theorem firstDeclaration_mem {manifest : CompositionManifest} {provider : ProviderDeclaration}
    (h : firstDeclaration manifest = some provider) :
    provider ∈ values manifest.providers ∧ provider.capability = serviceLifecycleCapability := by
  obtain ⟨name, hname, hcapability, -⟩ := firstDeclaration_eq.1 h
  exact ⟨mem_values.2 ⟨name, hname⟩, hcapability⟩

theorem firstDeclaration_isSome {manifest : CompositionManifest} {status : ProviderStatus}
    (h : DeclaresLifecycle manifest status) : ∃ provider, firstDeclaration manifest = some provider := by
  obtain ⟨provider, hm, hcapability, -⟩ := h
  exact Option.isSome_iff_exists.1 (List.find?_isSome.2 ⟨provider, hm, beq_iff_eq.2 hcapability⟩)

theorem applicable_iff {manifest : CompositionManifest} :
    Applicable manifest ↔ Unobstructed manifest ∧
      ∃ provider, firstDeclaration manifest = some provider ∧ provider.status = .available := by
  rw [Applicable, ensureApplyCapabilities_ok, ensureServiceLifecycleCapability_ok]
  refine ⟨?_, ?_⟩
  · intro hx
    obtain ⟨⟨hruntime, hothers, hhealth, hartifacts, hvolumes, hgpus⟩, provider, hfirst, hstatus⟩ := hx
    obtain ⟨hm, hcapability⟩ := firstDeclaration_mem hfirst
    have hnone := hhealth ⟨provider, hm, hcapability, hstatus⟩
    exact ⟨⟨hruntime, hothers, hnone, hartifacts, hvolumes, hgpus⟩, provider, hfirst, hstatus⟩
  · intro hx
    obtain ⟨h, hfirst⟩ := hx
    exact ⟨⟨h.runtime, h.others, fun _ => h.health_checks, h.artifacts, h.volumes, h.gpus⟩, hfirst⟩

/-- where the lifecycle declarations agree, the first one speaks for all -/
theorem first_available_iff {manifest : CompositionManifest} (h : ¬LifecycleDisputed manifest) :
    (∃ provider, firstDeclaration manifest = some provider ∧ provider.status = .available) ↔
      DeclaresLifecycle manifest .available := by
  refine ⟨?_, ?_⟩
  · intro hx
    obtain ⟨provider, hfirst, hstatus⟩ := hx
    obtain ⟨hm, hcapability⟩ := firstDeclaration_mem hfirst
    exact ⟨provider, hm, hcapability, hstatus⟩
  · intro havailable
    obtain ⟨provider, hfirst⟩ := firstDeclaration_isSome havailable
    obtain ⟨hm, hcapability⟩ := firstDeclaration_mem hfirst
    refine ⟨provider, hfirst, ?_⟩
    by_contra hstatus
    exact h ⟨havailable, provider.status, hstatus, provider, hm, hcapability, rfl⟩

/-! ## Names -/

section Rename

variable {manifest : CompositionManifest} {rename : String → String}
  (hrename : Set.InjOn rename {name | name ∈ manifest.providers})

include hrename

theorem declares_rename {status : ProviderStatus} :
    DeclaresLifecycle (manifest.renameProviders rename) status ↔ DeclaresLifecycle manifest status := by
  simp only [DeclaresLifecycle, CompositionManifest.renameProviders, mem_values_renameKeys hrename]

theorem disputed_rename : LifecycleDisputed (manifest.renameProviders rename) ↔ LifecycleDisputed manifest := by
  simp only [LifecycleDisputed, declares_rename hrename]

theorem unobstructed_rename : Unobstructed (manifest.renameProviders rename) ↔ Unobstructed manifest := by
  have hvalues : ∀ provider, provider ∈ values (manifest.renameProviders rename).providers ↔
      provider ∈ values manifest.providers := fun _ => mem_values_renameKeys hrename
  refine ⟨?_, ?_⟩
  · intro h
    exact ⟨h.runtime, fun provider hm => h.others provider ((hvalues provider).2 hm), h.health_checks, h.artifacts,
      h.volumes, h.gpus⟩
  · intro h
    exact ⟨h.runtime, fun provider hm => h.others provider ((hvalues provider).1 hm), h.health_checks, h.artifacts,
      h.volumes, h.gpus⟩

end Rename

/-- some names put an available declaration of the lifecycle capability first -/
theorem available_can_be_first {manifest : CompositionManifest} (h : DeclaresLifecycle manifest .available) :
    ∃ rename : String → String, Set.InjOn rename {name | name ∈ manifest.providers} ∧
      ∃ provider, firstDeclaration (manifest.renameProviders rename) = some provider ∧
        provider.status = .available := by
  obtain ⟨first, hfirst⟩ := firstDeclaration_isSome h
  obtain ⟨least, hleast, hcapability₀, hmin⟩ := firstDeclaration_eq.1 hfirst
  obtain ⟨provider, hm, hcapability, hstatus⟩ := h
  obtain ⟨name, hname⟩ := mem_values.1 hm
  -- the two declarations exchange their names
  have hinj : Set.InjOn (Equiv.swap least name) {name | name ∈ manifest.providers} :=
    (Equiv.swap least name).injective.injOn
  refine ⟨Equiv.swap least name, hinj, provider, firstDeclaration_eq.2 ⟨least, ?_, hcapability, ?_⟩, hstatus⟩
  · exact (getElem?_renameKeys hinj).2 ⟨name, hname, Equiv.swap_apply_right least name⟩
  · intro other declared hother hdeclared
    obtain ⟨before, hbefore, rfl⟩ := (getElem?_renameKeys hinj).1 hother
    have hle := hmin before declared hbefore hdeclared
    by_cases hl : before = least
    · rw [hl, Equiv.swap_apply_left]
      exact hmin name provider hname hcapability
    · by_cases hn : before = name
      · rw [hn, Equiv.swap_apply_right]
      · rwa [Equiv.swap_apply_of_ne_of_ne hl hn]

/-! ## Two declarations of one capability -/

/-- open gates mean what they should, and the names of the declarations do not matter, unless the lifecycle capability
is disputed in a manifest that has nothing else against it -/
theorem gates_closed_iff (manifest : CompositionManifest) :
    ((Applicable manifest → Supported manifest) ∧ NameIndependent manifest) ↔
      ¬(Unobstructed manifest ∧ LifecycleDisputed manifest) := by
  refine ⟨?_, ?_⟩
  · intro hx hdefect
    obtain ⟨hclosed, hnames⟩ := hx
    obtain ⟨hopen, havailable, status, hne, provider, hm, -, hstatus⟩ := hdefect
    obtain ⟨rename, hinj, hfirst⟩ := available_can_be_first havailable
    have happlicable := (hnames rename hinj).1 (applicable_iff.2 ⟨(unobstructed_rename hinj).2 hopen, hfirst⟩)
    exact hne (hstatus.symm.trans ((hclosed happlicable).providers provider hm))
  · intro hx
    refine ⟨?_, ?_⟩
    · intro happlicable
      obtain ⟨hopen, hfirst⟩ := applicable_iff.1 happlicable
      have hagreed : ¬LifecycleDisputed manifest := fun hdisputed => hx ⟨hopen, hdisputed⟩
      have havailable := (first_available_iff hagreed).1 hfirst
      obtain ⟨declared, hm, hcapability, -⟩ := id havailable
      refine ⟨hopen.runtime, ?_, ⟨declared, hm, hcapability⟩, hopen.health_checks, hopen.artifacts, hopen.volumes,
        hopen.gpus⟩
      intro provider hm
      by_cases hcapability : provider.capability = serviceLifecycleCapability
      · by_contra hstatus
        exact hagreed ⟨havailable, provider.status, hstatus, provider, hm, hcapability, rfl⟩
      · exact hopen.others provider hm hcapability
    · intro rename hinj
      rw [applicable_iff, applicable_iff, unobstructed_rename hinj, and_congr_right_iff]
      intro hopen
      have hagreed : ¬LifecycleDisputed manifest := fun hdisputed => hx ⟨hopen, hdisputed⟩
      rw [first_available_iff hagreed, first_available_iff fun h => hagreed ((disputed_rename hinj).1 h),
        declares_rename hinj]

/-- `demo`, with the lifecycle capability declared once more, as a placeholder -/
def demoDisputed : CompositionManifest :=
  { demo with
    providers := .ofList
      [("nanovms", { capability := "runtime.service_lifecycle", status := .available, implementation := none }),
       ("spare", { capability := "runtime.service_lifecycle", status := .placeholder, implementation := none })]
      compare }

/-- under these names the gates are open although a declaration is a placeholder; with the names exchanged they are
closed -/
theorem second_declaration_missed :
    Applicable demoDisputed ∧ ¬Supported demoDisputed ∧
      ¬Applicable (demoDisputed.renameProviders (Equiv.swap "nanovms" "spare")) := by
  have hspare : ⟨"runtime.service_lifecycle", .placeholder, none⟩ ∈ values demoDisputed.providers :=
    mem_values.2 ⟨"spare", rfl⟩
  refine ⟨⟨rfl, rfl⟩, ?_, ?_⟩
  · intro h
    cases h.providers _ hspare
  · intro h
    cases h.2

end PhenoCompose
