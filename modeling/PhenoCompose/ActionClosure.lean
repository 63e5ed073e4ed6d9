/-
`actionGpuBindings`: the services an action depends on, in the order a depth-first search leaves them, and the GPUs they
select.

The search looks services up by indexing and trusts that they are there. `visit_closure_spec`: it ends (a name is entered
once), and it either comes back with everything reachable or panics because something reachable is missing.
-/
import PhenoCompose.Evaluation

namespace PhenoCompose

open Core.Collections Core.Process Core.Text Relation

/-! ## Model -/

structure ClosureState where
  visited : BTreeSet
  output : List String

def actionGpuBindings.visit (services : BTreeMap Service) : ℕ → String → ClosureState → Result ClosureState
  | 0, _, _ => .error .outOfFuel
  | fuel + 1, name, s =>
    if name ∈ s.visited then .ok s
    else do
      let service ← index services name
      let s ← service.dependsOn.foldlM (fun s dependency => visit services fuel dependency s)
        { s with visited := s.visited.insert name }
      .ok { s with output := s.output ++ [name] }

/-- the dependency closure of a service; a search enters each service once, so the fuel is enough -/
def actionClosure (manifest : CompositionManifest) (rootService : String) : Result (List String) := do
  let s ← actionGpuBindings.visit manifest.services (manifest.services.size + 1) rootService ⟨∅, []⟩
  .ok s.output

variable (lib : Externals)

def insertUuid (name : String) (uuids : BTreeSet) (uuid : String) : Result BTreeSet :=
  match canonicalGpuUuid uuid with
  | some canonical => .ok (uuids.insert canonical)
  | none =>
    Err (.validation "gpu_selector_invalid"
      ("action dependency " ++ name ++ " has invalid GPU UUID " ++ lib.debugStr uuid))

def collectUuids (manifest : CompositionManifest) (uuids : BTreeSet) (name : String) : Result BTreeSet := do
  let service ← index manifest.services name
  let toolkit := manifest.environment.toolkit
  match service.gpu with
  | none => .ok uuids
  | some gpu => do
    refuseIf (gpu.vendor ≠ .nvidia) <|
      .unsupported "gpu_vendor_unsupported" ("action dependency " ++ name ++ " requires a non-NVIDIA GPU")
        "evaluation.gpu_uuid" "nanovms"
    refuseIf (¬eqIgnoreAsciiCase toolkit.name "cuda" ∨ trim toolkit.version = "") <|
      .validation "toolkit_missing"
        ("GPU-bearing action dependency " ++ name ++ " requires an explicit CUDA toolkit")
    gpu.uuids.foldlM (insertUuid lib name) uuids

def gpuBinding (toolkit : Toolkit) (uuid : String) : GpuBinding where
  uuid := uuid
  cudaToolkit := toolkit.version
  cdiDevice := "nvidia.com/gpu=" ++ uuid

def actionGpuBindings (manifest : CompositionManifest) (rootService : String) :
    Result (List String × List GpuBinding) := do
  let closure ← actionClosure manifest rootService
  let uuids ← closure.foldlM (collectUuids lib manifest) ∅
  refuseIf (uuids = ∅) <|
    .validation "gpu_binding_missing"
      "NanoVMS evaluation actions require at least one GPU in the service dependency closure"
  .ok (closure, uuids.toList.map (gpuBinding manifest.environment.toolkit))

/-! ## The search -/

/-- everything an action on this service can come to -/
def Reachable (services : BTreeMap Service) (root name : String) : Prop := ReflTransGen (DependsOn services) root name

/-- services not entered yet -/
def unvisited (services : BTreeMap Service) (visited : BTreeSet) : ℕ := (services.keys.filter (· ∉ visited)).length

/-- what entering these names from `s` may come to: all of it is there and its dependencies are entered too, or something
reachable is missing -/
def Searches (services : BTreeMap Service) (s : ClosureState) (names : List String) (r : Result ClosureState) : Prop :=
  (∃ u, r = .ok u ∧ (∀ x ∈ s.visited, x ∈ u.visited) ∧ (∀ x ∈ names, x ∈ u.visited) ∧
      (∀ x ∈ u.visited, x ∉ s.visited → x ∈ services ∧ ∀ d, DependsOn services x d → d ∈ u.visited) ∧
      ∀ x ∈ u.output, x ∈ s.output ∨ x ∈ services) ∨
    ((∃ message, r = .error (.panic message)) ∧ ∃ root ∈ names, ∃ x, Reachable services root x ∧ x ∉ services)

theorem unvisited_mono {services : BTreeMap Service} {visited visited' : BTreeSet}
    (h : ∀ x ∈ visited, x ∈ visited') : unvisited services visited' ≤ unvisited services visited := by
  refine (List.monotone_filter_right _ fun x hx => ?_).length_le
  simp only [decide_eq_true_eq] at hx ⊢
  exact fun hv => hx (h x hv)

theorem unvisited_insert {services : BTreeMap Service} {visited : BTreeSet} {name : String} (hs : name ∈ services)
    (hv : name ∉ visited) : unvisited services (visited.insert name) < unvisited services visited := by
  have hsub : ∀ x, decide (x ∉ visited.insert name) = true → decide (x ∉ visited) = true := by
    intro x hx
    simp only [decide_eq_true_eq, Std.ExtTreeSet.mem_insert, not_or] at hx ⊢
    exact hx.2
  have hsublist := List.monotone_filter_right services.keys hsub
  apply hsublist.length_le.lt_of_ne
  intro he
  have hmem : name ∈ services.keys.filter (· ∉ visited) :=
    List.mem_filter.2 ⟨Std.ExtTreeMap.mem_keys.2 hs, by simpa using hv⟩
  rw [← hsublist.eq_of_length he] at hmem
  simpa using (List.mem_filter.1 hmem).2

/-- a name entered before the search, or found by it, is where its dependencies are -/
theorem searches_foldlM {services : BTreeMap Service} {f : ClosureState → String → Result ClosureState}
    {n : ℕ} (hf : ∀ name s, unvisited services s.visited ≤ n → Searches services s [name] (f s name))
    (names : List String) {s : ClosureState} (hs : unvisited services s.visited ≤ n) :
    Searches services s names (names.foldlM f s) := by
  induction names generalizing s with
  | nil => 
    exact .inl ⟨s, rfl, fun _ h => h, List.forall_mem_nil _, fun x hx hn => absurd hx hn, fun x hx => .inl hx⟩
  | cons name names ih =>
    rw [List.foldlM_cons]
    rcases hf name s hs with ⟨u, hu, hsub, hname, hnew, hout⟩ | ⟨⟨message, hp⟩, root, hroot, x, hx, hmissing⟩
    · rw [hu, ok_bind]
      rcases ih ((unvisited_mono hsub).trans hs) with ⟨w, hw, hsub', hnames, hnew', hout'⟩ |
        ⟨hpanic, root, hroot, hmissing⟩
      · refine .inl ⟨w, hw, fun x hx => hsub' x (hsub x hx), ?_, fun x hx hn => ?_, fun x hx => ?_⟩
        · exact List.forall_mem_cons.2 ⟨hsub' _ (hname _ (List.mem_singleton_self _)), hnames⟩
        · by_cases hxu : x ∈ u.visited
          · obtain ⟨hin, hdeps⟩ := hnew x hxu hn
            exact ⟨hin, fun d hd => hsub' d (hdeps d hd)⟩
          · exact hnew' x hx hxu
        · rcases hout' x hx with hx | hx
          · exact hout x hx
          · exact .inr hx
      · exact .inr ⟨hpanic, root, List.mem_cons_of_mem _ hroot, hmissing⟩
    · rw [hp, error_bind]
      obtain rfl := List.mem_singleton.1 hroot
      exact .inr ⟨⟨message, rfl⟩, root, List.mem_cons_self, x, hx, hmissing⟩

theorem visit_closure_spec (services : BTreeMap Service) (fuel : ℕ) {name : String} {s : ClosureState}
    (hfuel : unvisited services s.visited < fuel) :
    Searches services s [name] (actionGpuBindings.visit services fuel name s) := by
  induction fuel generalizing name s with
  | zero => exact absurd hfuel (Nat.not_lt_zero _)
  | succ fuel ih =>
    rw [actionGpuBindings.visit]
    split_ifs with hv
    · refine .inl ⟨s, rfl, fun _ h => h, ?_, fun x hx hn => absurd hx hn, fun x hx => .inl hx⟩
      simpa using hv
    · cases hi : services[name]? with
      | none =>
        have hmissing : name ∉ services := fun hm => by
          obtain ⟨v, hv⟩ := exists_of_mem hm
          rw [hi] at hv
          cases hv
        refine .inr ⟨⟨"no entry found for key", ?_⟩, name, List.mem_singleton_self _, name, .refl, hmissing⟩
        rw [index, hi]
        rfl
      | some service =>
        have hlt := unvisited_insert (mem_of_getElem? hi) hv
        rw [index_ok_iff.2 hi, ok_bind]
        rcases searches_foldlM (n := unvisited services (s.visited.insert name))
            (fun d u hu => @ih d u (by omega)) service.dependsOn
            (s := { s with visited := s.visited.insert name }) le_rfl with
          ⟨u, hu, hsub, hdeps, hnew, hout⟩ | ⟨⟨message, hp⟩, root, hroot, x, hx, hmissing⟩
        · have hname : name ∈ u.visited := hsub name (by simp)
          rw [hu, ok_bind]
          refine .inl ⟨_, rfl, fun x hx => hsub x (by simp [hx]), by simpa using hname, fun x hx hn => ?_, fun x hx => ?_⟩
          · by_cases hxn : x = name
            · subst hxn
              refine ⟨mem_of_getElem? hi, ?_⟩
              intro d hx
              obtain ⟨service', hs', hd⟩ := hx
              obtain rfl : service = service' := Option.some.inj (hi.symm.trans hs')
              exact hdeps d hd
            · exact hnew x hx (by simp [Ne.symm hxn, hn])
          · rcases List.mem_append.1 hx with hx | hx
            · exact hout x hx
            · rw [List.mem_singleton.1 hx]
              exact .inr (mem_of_getElem? hi)
        · rw [hp, error_bind]
          exact .inr ⟨⟨message, rfl⟩, name, List.mem_singleton_self _, x, .head ⟨service, hi, hroot⟩ hx, hmissing⟩

/-- **The closure is there, or the search panics.** It comes back, with services only, exactly when everything reachable
from the root is a service; otherwise it panics, and it never runs out of fuel. -/
theorem actionClosure_spec (manifest : CompositionManifest) (root : String) :
    ((∀ x, Reachable manifest.services root x → x ∈ manifest.services) ∧
      ∃ closure, actionClosure manifest root = .ok closure ∧ ∀ x ∈ closure, x ∈ manifest.services) ∨
    ((∃ x, Reachable manifest.services root x ∧ x ∉ manifest.services) ∧
      ∃ message, actionClosure manifest root = .error (.panic message)) := by
  have hfuel : unvisited manifest.services ∅ < manifest.services.size + 1 := by
    have := (List.filter_sublist (p := fun x => decide (x ∉ (∅ : BTreeSet))) (l := manifest.services.keys)).length_le
    rw [Std.ExtTreeMap.length_keys] at this
    exact Nat.lt_succ_of_le this
  rw [actionClosure]
  rcases visit_closure_spec manifest.services _ (s := ⟨∅, []⟩) hfuel with
    ⟨u, hu, -, hroot, hnew, hout⟩ | ⟨⟨message, hp⟩, r, hr, x, hx, hmissing⟩
  · left
    have hclosed : ∀ x, Reachable manifest.services root x → x ∈ u.visited := by
      intro x hx
      induction hx with
      | refl => exact hroot root (List.mem_singleton_self _)
      | tail _ hd ih => exact (hnew _ ih (by simp)).2 _ hd
    refine ⟨fun x hx => (hnew x (hclosed x hx) (by simp)).1, u.output, by rw [hu, ok_bind], fun x hx => ?_⟩
    rcases hout x hx with h | h
    · exact absurd h (by simp)
    · exact h
  · right
    rw [List.mem_singleton.1 hr] at hx
    exact ⟨⟨x, hx, hmissing⟩, message, by rw [hp, error_bind]⟩

/-! ## The bindings -/

theorem insertUuid_raises (name : String) (uuids : BTreeSet) (uuid : String) :
    Raises (insertUuid lib name uuids uuid) := by
  unfold insertUuid
  split
  · exact .ok _
  · exact .err _

theorem collectUuids_raises {manifest : CompositionManifest} {name : String} (h : name ∈ manifest.services)
    (uuids : BTreeSet) : Raises (collectUuids lib manifest uuids name) := by
  obtain ⟨service, hs⟩ := exists_of_mem h
  rw [collectUuids, index_ok_iff.2 hs, ok_bind]
  dsimp only
  split
  · exact .ok _
  · exact .bind (refuseIf_raises _ _) fun _ _ => .bind (refuseIf_raises _ _) fun _ _ =>
      .foldlM _ (fun uuid _ uuids => insertUuid_raises lib name uuids uuid) _

/-- with a complete closure, the bindings are found or refused -/
theorem actionGpuBindings_raises {manifest : CompositionManifest} {root : String}
    (h : ∀ x, Reachable manifest.services root x → x ∈ manifest.services) :
    Raises (actionGpuBindings lib manifest root) := by
  rcases actionClosure_spec manifest root with ⟨-, closure, hc, hin⟩ | ⟨⟨x, hx, hmissing⟩, -⟩
  · rw [actionGpuBindings, hc, ok_bind]
    exact .bind (.foldlM _ (fun name hn uuids => collectUuids_raises lib (hin name hn) uuids) _) fun _ _ =>
      .bind (refuseIf_raises _ _) fun _ _ => .ok _
  · exact absurd (h x hx) hmissing

/-- bindings that were found are at least one, each of a different GPU -/
theorem actionGpuBindings_ok {manifest : CompositionManifest} {root : String} {closure : List String}
    {bindings : List GpuBinding} (h : actionGpuBindings lib manifest root = .ok (closure, bindings)) :
    bindings ≠ [] ∧ (bindings.map (·.uuid)).Nodup := by
  obtain ⟨closure', hc, h₁⟩ := bind_eq_ok.1 h
  obtain ⟨uuids, hu, h₂⟩ := bind_eq_ok.1 h₁
  obtain ⟨⟨⟩, hne, h₃⟩ := bind_eq_ok.1 h₂
  cases h₃
  rw [refuseIf_ok] at hne
  refine ⟨?_, ?_⟩
  · rw [ne_eq, List.map_eq_nil_iff]
    exact fun he => hne (Std.ExtTreeSet.ext_mem fun x => by
      rw [← Std.ExtTreeSet.mem_toList, he]
      simp)
  · rw [List.map_map]
    exact (List.map_id uuids.toList).symm ▸ set_toList_nodup uuids

end PhenoCompose
