/-
`CompositionManifest::service_order`: depth-first search over `dependsOn`, roots in key order, each service put out after
everything it depends on.

The recursion threads three pieces of state: the services on the current path (`visiting`), those finished (`visited`),
and the order so far (`output`). Fuel stands for the depth of the recursion; `Inv` is what holds between calls, and
`visit_spec` says once what a call does: it keeps `Inv` and the path and finishes its service, or it reports a service
that depends on itself.

Results, for manifests whose dependencies all exist:
- the order is a permutation of the services with dependencies first;
- the search never runs out of fuel, fails with `dependency_cycle` when there is a cycle, and succeeds when there is none.
-/
import PhenoCompose.Manifest
import PhenoCompose.Core.Topology

namespace PhenoCompose

open Core.Collections Core.Process Core.Topology Relation

/-! ## Model -/

structure OrderState where
  visiting : BTreeSet
  visited : BTreeSet
  output : List String

def cycleError (name : String) : CliError :=
  .validation "dependency_cycle" ("service dependency cycle includes " ++ name)

def visit (services : BTreeMap Service) : ℕ → String → OrderState → Result OrderState
  | 0, _, _ => .error .outOfFuel
  | fuel + 1, name, s =>
    if name ∈ s.visited then .ok s
    else if name ∈ s.visiting then Err (cycleError name)
    else do
      let service ← index services name
      let t ← service.dependsOn.foldlM (fun t dependency => visit services fuel dependency t)
        { s with visiting := s.visiting.insert name }
      .ok { visiting := t.visiting.erase name, visited := t.visited.insert name, output := t.output ++ [name] }

/-- the search with a bound on the depth of the recursion -/
def serviceOrderWithin (fuel : ℕ) (services : BTreeMap Service) : Result (List String) := do
  let s ← services.keys.foldlM (fun s name => visit services fuel name s) ⟨∅, ∅, []⟩
  .ok s.output

/-- no path visits more services than there are -/
def CompositionManifest.serviceOrder (manifest : CompositionManifest) : Result (List String) :=
  serviceOrderWithin (manifest.services.size + 1) manifest.services

/-! ## The dependency relation -/

/-- service `a` names `b` in its `dependsOn` -/
def DependsOn (services : BTreeMap Service) (a b : String) : Prop :=
  ∃ service, services[a]? = some service ∧ b ∈ service.dependsOn

/-- every dependency names a service -/
def Closed (services : BTreeMap Service) : Prop := ∀ a b, DependsOn services a b → b ∈ services

/-! ## What a visit does -/

structure Inv (services : BTreeMap Service) (s : OrderState) : Prop where
  nodup : s.output.Nodup
  visited : ∀ n, n ∈ s.visited ↔ n ∈ s.output
  known : ∀ n ∈ s.output, n ∈ services
  path_known : ∀ n ∈ s.visiting, n ∈ services
  apart : ∀ n ∈ s.visiting, n ∉ s.output
  deps_first : DepsFirst (DependsOn services) s.output

theorem inv_init (services : BTreeMap Service) : Inv services ⟨∅, ∅, []⟩ where
  nodup := List.nodup_nil
  visited := by simp
  known := by simp
  path_known := by simp
  apart := by simp
  deps_first := .nil

/-- the service joins the path -/
theorem Inv.enter {services : BTreeMap Service} {s : OrderState} (h : Inv services s) {name : String}
    (hn : name ∈ services) (hv : name ∉ s.visited) : Inv services { s with visiting := s.visiting.insert name } := by
  refine { h with path_known := ?_, apart := ?_ }
  · intro n hm
    rcases Std.ExtTreeSet.mem_insert.1 hm with he | hm
    · exact Std.LawfulEqCmp.eq_of_compare he ▸ hn
    · exact h.path_known n hm
  · intro n hm
    rcases Std.ExtTreeSet.mem_insert.1 hm with he | hm
    · rw [← Std.LawfulEqCmp.eq_of_compare he, ← h.visited]; exact hv
    · exact h.apart n hm

/-- the service leaves the path and is put out -/
theorem Inv.leave {services : BTreeMap Service} {t : OrderState} (h : Inv services t) {name : String}
    (hpath : name ∈ t.visiting) (hdeps : ∀ b, DependsOn services name b → b ∈ t.output) :
    Inv services ⟨t.visiting.erase name, t.visited.insert name, t.output ++ [name]⟩ where
  nodup := by
    rw [List.nodup_append]
    refine ⟨h.nodup, List.nodup_singleton name, ?_⟩
    rintro a ha b hb rfl
    exact h.apart a (by rwa [List.mem_singleton.1 hb]) ha
  visited n := by
    rw [Std.ExtTreeSet.mem_insert, h.visited, List.mem_append, List.mem_singleton, Std.LawfulEqCmp.compare_eq_iff_eq]
    tauto
  known n hn := by
    rcases List.mem_append.1 hn with hn | hn
    · exact h.known n hn
    · rw [List.mem_singleton.1 hn]; exact h.path_known name hpath
  path_known n hn := h.path_known n (Std.ExtTreeSet.mem_of_mem_erase hn)
  apart n hn := by
    obtain ⟨hne, hn⟩ := Std.ExtTreeSet.mem_erase.1 hn
    rw [List.mem_append, List.mem_singleton, not_or]
    exact ⟨h.apart n hn, fun e => hne (by rw [e]; exact Std.ReflOrd.compare_self)⟩
  deps_first := h.deps_first.concat hdeps

/-- a visit, or a row of them, from `s`: it ends well in a state that keeps `s`'s path, extends its order and has put out
`names`; or it reports a service that depends on itself -/
def Visits (services : BTreeMap Service) (s : OrderState) (names : List String) (r : Result OrderState) : Prop :=
  (∃ t, r = .ok t ∧ Inv services t ∧ t.visiting = s.visiting ∧ s.output <+: t.output ∧ ∀ n ∈ names, n ∈ t.output) ∨
    ∃ n, r = Err (cycleError n) ∧ TransGen (DependsOn services) n n

theorem visits_foldlM {services : BTreeMap Service} {f : OrderState → String → Result OrderState}
    (names : List String) (s : OrderState) (hs : Inv services s)
    (hf : ∀ name ∈ names, ∀ t, Inv services t → t.visiting = s.visiting → Visits services t [name] (f t name)) :
    Visits services s names (names.foldlM f s) := by
  induction names generalizing s with
  | nil => exact .inl ⟨s, rfl, hs, rfl, List.prefix_rfl, by simp⟩
  | cons name names ih =>
    rw [List.foldlM_cons]
    rcases hf name List.mem_cons_self s hs rfl with ⟨t, ht, hti, htv, hto, htn⟩ | ⟨n, hn, hc⟩
    · rw [ht]
      have hrest := ih t hti fun m hm u hu huv => hf m (List.mem_cons_of_mem name hm) u hu (huv.trans htv)
      rcases hrest with ⟨u, hu, hui, huv, huo, hun⟩ | hc
      · refine .inl ⟨u, hu, hui, huv.trans htv, hto.trans huo, ?_⟩
        intro m hm
        rcases List.mem_cons.1 hm with rfl | hm
        · exact huo.subset (htn m (by simp))
        · exact hun m hm
      · exact .inr hc
    · rw [hn]; exact .inr ⟨n, rfl, hc⟩

/-- a path has at most as many services as there are -/
theorem Inv.path_size_le {services : BTreeMap Service} {s : OrderState} (h : Inv services s) :
    s.visiting.size ≤ services.size := by
  have hsub : s.visiting.toList ⊆ services.keys := fun n hm =>
    Std.ExtTreeMap.mem_keys.2 (h.path_known n (Std.ExtTreeSet.mem_toList.1 hm))
  have := ((set_toList_nodup s.visiting).subperm hsub).length_le
  rwa [Std.ExtTreeSet.length_toList, Std.ExtTreeMap.length_keys] at this

/-- **What a visit does.** The services on the path are those that lead to `name`, so meeting one of them again closes a
cycle; and the path, which never holds all services, bounds the depth. -/
theorem visit_spec {services : BTreeMap Service} (hc : Closed services) (fuel : ℕ) {name : String} {s : OrderState}
    (hs : Inv services s) (hn : name ∈ services) (hpath : ∀ v ∈ s.visiting, TransGen (DependsOn services) v name)
    (hfuel : services.size < fuel + s.visiting.size) : Visits services s [name] (visit services fuel name s) := by
  induction fuel generalizing name s with
  | zero =>
    have := hs.path_size_le
    omega
  | succ fuel ih =>
    rw [visit]
    split_ifs with hvd hvg
    · exact .inl ⟨s, rfl, hs, rfl, List.prefix_rfl, by simpa using (hs.visited name).1 hvd⟩
    · exact .inr ⟨name, rfl, hpath name hvg⟩
    · obtain ⟨service, hservice⟩ := exists_of_mem hn
      have hdep : ∀ b ∈ service.dependsOn, DependsOn services name b := fun b hb => ⟨service, hservice, hb⟩
      have hin : Inv services { s with visiting := s.visiting.insert name } := hs.enter hn hvd
      have hsize : (s.visiting.insert name).size = s.visiting.size + 1 := by
        rw [Std.ExtTreeSet.size_insert, if_neg (by simpa using hvg)]
      have hrow : Visits services { s with visiting := s.visiting.insert name } service.dependsOn
          (service.dependsOn.foldlM (fun t dependency => visit services fuel dependency t)
            { s with visiting := s.visiting.insert name }) := by
        apply visits_foldlM service.dependsOn _ hin
        intro b hb t ht htv
        refine ih ht (hc name b (hdep b hb)) ?_ (by rw [htv]; dsimp only; omega)
        intro v hv
        rw [htv] at hv
        rcases Std.ExtTreeSet.mem_insert.1 hv with he | hv
        · exact Std.LawfulEqCmp.eq_of_compare he ▸ .single (hdep b hb)
        · exact (hpath v hv).tail (hdep b hb)
      have hindex : index services name = .ok service := by rw [index, hservice]
      rw [hindex]
      rcases hrow with ⟨t, ht, hti, htv, hto, htn⟩ | ⟨n, he, hcyc⟩
      · show Visits services s [name] ((service.dependsOn.foldlM _ _) >>= _)
        rw [ht]
        have hmem : name ∈ t.visiting := by rw [htv]; exact Std.ExtTreeSet.mem_insert_self
        have hdeps : ∀ b, DependsOn services name b → b ∈ t.output := by
          intro b hx
          obtain ⟨service', hservice', hb⟩ := hx
          rw [hservice] at hservice'
          exact htn b (by rwa [Option.some.inj hservice'])
        refine .inl ⟨_, rfl, hti.leave hmem hdeps, ?_, hto.trans (List.prefix_append _ _), by simp⟩
        -- taking the service off the path again leaves the path it was put on
        apply Std.ExtTreeSet.ext_mem
        intro n
        rw [Std.ExtTreeSet.mem_erase, htv, Std.ExtTreeSet.mem_insert, Ne, Std.LawfulEqCmp.compare_eq_iff_eq]
        refine ⟨?_, ?_⟩
        · intro hx
          rcases hx with ⟨hne, he | hm⟩
          · exact absurd he hne
          · exact hm
        · intro hm
          exact ⟨fun e => hvg (e ▸ hm), .inr hm⟩
      · show Visits services s [name] ((service.dependsOn.foldlM _ _) >>= _)
        rw [he]; exact .inr ⟨n, rfl, hcyc⟩

/-- a row of roots is visited, or a service that depends on itself is reported -/
theorem visits_roots {services : BTreeMap Service} (hc : Closed services) {fuel : ℕ} (hfuel : services.size < fuel)
    {names : List String} (hnames : ∀ n ∈ names, n ∈ services) {s : OrderState} (hs : Inv services s)
    (hpath : s.visiting = ∅) :
    Visits services s names (names.foldlM (fun s name => visit services fuel name s) s) := by
  apply visits_foldlM names _ hs
  intro name hname t ht htv
  refine visit_spec hc fuel ht (hnames name hname) ?_ (by omega)
  rw [htv, hpath]
  simp

/-- the whole search: it visits every service, or it reports a service that depends on itself -/
theorem serviceOrderWithin_spec {services : BTreeMap Service} (hc : Closed services) {fuel : ℕ}
    (hfuel : services.size < fuel) :
    (∃ order, serviceOrderWithin fuel services = .ok order ∧ order.Perm services.keys ∧
        DepsFirst (DependsOn services) order) ∨
      ∃ n, serviceOrderWithin fuel services = Err (cycleError n) ∧ TransGen (DependsOn services) n n := by
  have hrow := visits_roots hc hfuel (fun _ => Std.ExtTreeMap.mem_keys.1) (inv_init services) rfl
  rw [serviceOrderWithin]
  rcases hrow with ⟨t, ht, hti, -, -, hall⟩ | ⟨n, hn, hcyc⟩
  · refine .inl ⟨t.output, by rw [ht]; rfl, ?_, hti.deps_first⟩
    refine (List.perm_ext_iff_of_nodup hti.nodup Std.ExtTreeMap.nodup_keys).2 fun n => ⟨fun h => ?_, hall n⟩
    exact Std.ExtTreeMap.mem_keys.2 (hti.known n h)
  · exact .inr ⟨n, by rw [hn]; rfl, hcyc⟩

/-- an order that came out is a permutation of the services with dependencies first -/
theorem serviceOrder_ok {manifest : CompositionManifest} (hc : Closed manifest.services) {order : List String}
    (h : manifest.serviceOrder = .ok order) :
    order.Perm manifest.services.keys ∧ DepsFirst (DependsOn manifest.services) order := by
  rcases serviceOrderWithin_spec hc (Nat.lt_succ_self _) with ⟨o, ho, hp, hd⟩ | ⟨n, hn, -⟩
  · rw [CompositionManifest.serviceOrder, ho] at h
    cases h; exact ⟨hp, hd⟩
  · rw [CompositionManifest.serviceOrder, hn] at h; cases h

theorem serviceOrder_nodup {manifest : CompositionManifest} (hc : Closed manifest.services) {order : List String}
    (h : manifest.serviceOrder = .ok order) : order.Nodup :=
  (serviceOrder_ok hc h).1.nodup_iff.2 Std.ExtTreeMap.nodup_keys

/-- an order that came out leaves no room for a cycle -/
theorem acyclic_of_order {manifest : CompositionManifest} (hc : Closed manifest.services) {order : List String}
    (h : manifest.serviceOrder = .ok order) : ¬∃ n, TransGen (DependsOn manifest.services) n n := by
  intro hcycle
  obtain ⟨n, hn⟩ := hcycle
  obtain ⟨hp, hd⟩ := serviceOrder_ok hc h
  have hmem : n ∈ order := by
    obtain ⟨b, ⟨service, hs, -⟩, -⟩ := TransGen.head'_iff.1 hn
    exact hp.mem_iff.2 (Std.ExtTreeMap.mem_keys.2 (mem_of_getElem? hs))
  exact hd.acyclic (serviceOrder_nodup hc h) hmem hn

theorem order_of_acyclic {manifest : CompositionManifest} (hc : Closed manifest.services)
    (h : ¬∃ n, TransGen (DependsOn manifest.services) n n) : ∃ order, manifest.serviceOrder = .ok order := by
  rcases serviceOrderWithin_spec hc (Nat.lt_succ_self _) with ⟨order, ho, -, -⟩ | ⟨n, -, hn⟩
  · exact ⟨order, ho⟩
  · exact absurd ⟨n, hn⟩ h

/-! ## What a visit puts out -/

/-- a row of visits appends what is needed by one of its names -/
theorem foldlM_outputs {services : BTreeMap Service} {f : OrderState → String → Result OrderState}
    (hf : ∀ s name t, f s name = .ok t →
      ∃ w, t.output = s.output ++ w ∧ ∀ n ∈ w, ReflTransGen (DependsOn services) name n)
    {names : List String} {s t : OrderState} (h : names.foldlM f s = .ok t) :
    ∃ w, t.output = s.output ++ w ∧ ∀ n ∈ w, ∃ name ∈ names, ReflTransGen (DependsOn services) name n := by
  induction names generalizing s with
  | nil =>
    cases h
    exact ⟨[], (List.append_nil _).symm, List.forall_mem_nil _⟩
  | cons name names ih =>
    rw [List.foldlM_cons] at h
    obtain ⟨u, hu, hrest⟩ := bind_eq_ok.1 h
    obtain ⟨w, hw, hreach⟩ := hf s name u hu
    obtain ⟨w', hw', hreach'⟩ := ih hrest
    refine ⟨w ++ w', by rw [hw', hw, List.append_assoc], ?_⟩
    intro n hn
    rcases List.mem_append.1 hn with hn | hn
    · exact ⟨name, List.mem_cons_self, hreach n hn⟩
    · obtain ⟨m, hm, hr⟩ := hreach' n hn
      exact ⟨m, List.mem_cons_of_mem _ hm, hr⟩

/-- a visit appends services that its name needs -/
theorem visit_outputs {services : BTreeMap Service} {fuel : ℕ} {name : String} {s t : OrderState}
    (h : visit services fuel name s = .ok t) :
    ∃ w, t.output = s.output ++ w ∧ ∀ n ∈ w, ReflTransGen (DependsOn services) name n := by
  induction fuel generalizing name s t with
  | zero => cases h
  | succ fuel ih =>
    rw [visit] at h
    split_ifs at h with hvisited hvisiting
    · cases h
      exact ⟨[], (List.append_nil _).symm, List.forall_mem_nil _⟩
    · cases h
    · obtain ⟨service, hservice, hrow⟩ := bind_eq_ok.1 h
      obtain ⟨u, hu, ht⟩ := bind_eq_ok.1 hrow
      cases ht
      obtain ⟨w, hw, hreach⟩ := foldlM_outputs (fun s name t => ih) hu
      refine ⟨w ++ [name], by rw [hw, List.append_assoc], ?_⟩
      intro n hn
      rcases List.mem_append.1 hn with hn | hn
      · obtain ⟨d, hd, hr⟩ := hreach n hn
        exact .head ⟨service, index_ok_iff.1 hservice, hd⟩ hr
      · rw [List.mem_singleton.1 hn]

/-! ## Fuel -/

theorem visit_more_fuel (services : BTreeMap Service) (fuel : ℕ) (name : String) (s : OrderState)
    (h : visit services fuel name s ≠ .error .outOfFuel) :
    visit services (fuel + 1) name s = visit services fuel name s := by
  induction fuel generalizing name s with
  | zero => exact absurd rfl h
  | succ fuel ih =>
    rw [visit] at h ⊢
    rw [visit]
    split_ifs at h ⊢ with hvd hvg
    · rfl
    · rfl
    · cases hi : index services name with
      | error e => rfl
      | ok service =>
        rw [hi, ok_bind] at h
        rw [ok_bind, ok_bind, foldlM_more_fuel (fun t d hd => ih d t hd)]
        exact fun he => h (by rw [he]; rfl)

theorem serviceOrderWithin_more_fuel (services : BTreeMap Service) (fuel : ℕ)
    (h : serviceOrderWithin fuel services ≠ .error .outOfFuel) :
    serviceOrderWithin (fuel + 1) services = serviceOrderWithin fuel services := by
  rw [serviceOrderWithin] at h ⊢
  rw [serviceOrderWithin, foldlM_more_fuel (fun t n hn => visit_more_fuel services fuel n t hn)]
  exact fun he => h (by rw [he]; rfl)

/-! ## Soundness and exactness -/

/-- **The order is sound.** Each service exactly once, and everything it names in `dependsOn` strictly before it. -/
theorem service_order_sound (manifest : CompositionManifest) (hc : Closed manifest.services) (order : List String)
    (h : manifest.serviceOrder = .ok order) :
    order.Perm manifest.services.keys ∧ order.Nodup ∧
      ∀ name service dependency, manifest.services[name]? = some service → dependency ∈ service.dependsOn →
        order.idxOf dependency < order.idxOf name := by
  obtain ⟨hp, hd⟩ := serviceOrder_ok hc h
  have hnd := serviceOrder_nodup hc h
  refine ⟨hp, hnd, fun name service dependency hs hdep => ?_⟩
  have hname : name ∈ order := hp.mem_iff.2 (Std.ExtTreeMap.mem_keys.2 (mem_of_getElem? hs))
  exact ((before_iff_idxOf hnd).1 (hd name hname dependency ⟨service, hs, hdep⟩)).2

theorem closed_of_entries {services : BTreeMap Service}
    (h : ∀ e ∈ services.toList, ∀ dependency ∈ e.2.dependsOn, dependency ∈ services) : Closed services := by
  intro a b hx
  obtain ⟨service, hs, hb⟩ := hx
  exact h (a, service) (mem_toList.2 hs) b hb

theorem service_order_example :
    demo.serviceOrder = .ok ["db", "api"] ∧ ["db", "api"].Perm demo.services.keys ∧ ["db", "api"].Nodup ∧
      ∀ name service dependency, demo.services[name]? = some service → dependency ∈ service.dependsOn →
        ["db", "api"].idxOf dependency < ["db", "api"].idxOf name :=
  ⟨rfl, service_order_sound demo (closed_of_entries (by decide)) ["db", "api"] rfl⟩

/-- **Cycle detection is exact.** The recursion ends (more fuel changes nothing), a cycle anywhere is reported as
`dependency_cycle`, and without one there is an order. -/
theorem service_order_exact (manifest : CompositionManifest) (hc : Closed manifest.services) :
    manifest.serviceOrder ≠ .error .outOfFuel ∧
      (∀ fuel > manifest.services.size, serviceOrderWithin fuel manifest.services = manifest.serviceOrder) ∧
      ((∃ n, TransGen (DependsOn manifest.services) n n) →
        ∃ error, manifest.serviceOrder = Err error ∧ error.code = "dependency_cycle") ∧
      ((¬∃ n, TransGen (DependsOn manifest.services) n n) → ∃ order, manifest.serviceOrder = .ok order) := by
  have hspec := fun fuel => @serviceOrderWithin_spec manifest.services hc fuel
  have hends : ∀ fuel > manifest.services.size, serviceOrderWithin fuel manifest.services ≠ .error .outOfFuel := by
    intro fuel hfuel
    rcases hspec fuel hfuel with ⟨order, ho, -, -⟩ | ⟨n, hn, -⟩
    · rw [ho]; exact nofun
    · rw [hn, Err]; simp
  refine ⟨hends _ (Nat.lt_succ_self _), fun fuel hfuel => ?_, fun ⟨n, hn⟩ => ?_, fun hno => ?_⟩
  · induction fuel, (Nat.succ_le_of_lt hfuel) using Nat.le_induction with
    | base => rfl
    | succ fuel hle ih =>
      rw [serviceOrderWithin_more_fuel _ _ (hends fuel (by omega)), ih (by omega)]
  · rcases hspec _ (Nat.lt_succ_self _) with ⟨order, ho, -, -⟩ | ⟨m, hm, -⟩
    · exact absurd ⟨n, hn⟩ (acyclic_of_order hc ho)
    · exact ⟨cycleError m, hm, rfl⟩
  · exact order_of_acyclic hc hno

/-- `api` and `db` need each other -/
def ring : CompositionManifest :=
  { demo with services := .ofList [("api", gpuService ["db"] uuidA), ("db", gpuService ["api"] uuidA)] compare }

theorem cycle_example : ∃ error, ring.serviceOrder = Err error ∧ error.code = "dependency_cycle" := by
  have hdb : DependsOn ring.services "api" "db" := ⟨gpuService ["db"] uuidA, rfl, List.mem_singleton_self _⟩
  have hapi : DependsOn ring.services "db" "api" := ⟨gpuService ["api"] uuidA, rfl, List.mem_singleton_self _⟩
  exact (service_order_exact ring (closed_of_entries (by decide))).2.2.1 ⟨"api", .tail (.single hdb) hapi⟩

end PhenoCompose
