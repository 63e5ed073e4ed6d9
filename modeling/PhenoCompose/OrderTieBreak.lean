/-
The tie-break of the dependency order.

The order is documented as a topological sort with a lexicographic tie-break on service names: of the services that could come
next, the smallest. The search instead takes the roots in key order and each service's dependencies as they are written, so the
services come in stages, one for each root: first the services whose first user is the smallest name, and so on.

- `serviceOrder_staged`: the stages, for every manifest.
- `service_order_tie_break_iff`: the tie-break holds exactly when two services of one stage always depend on each other, and a
  smaller service of a later stage is held back by something it needs.
- `tie_break_missed`: it does not hold in general.
-/
import PhenoCompose.ServiceOrder
import PhenoCompose.Core.SmallestFirst

namespace PhenoCompose

open Core.Collections Core.Process Core.Topology Relation

/-! ## Stages -/

/-- `a` is `b` or needs it, however far -/
abbrev Needs (services : BTreeMap Service) (a b : String) : Prop := ReflTransGen (DependsOn services) a b

/-- a service that needs `x` comes before all that need `y` -/
def Sooner (services : BTreeMap Service) (x y : String) : Prop :=
  ∃ user, Needs services user x ∧ ∀ other, Needs services other y → user < other

theorem user_known {services : BTreeMap Service} {user x : String} (h : Needs services user x) (hx : x ∈ services) :
    user ∈ services := by
  rcases ReflTransGen.cases_head h with rfl | ⟨d, ⟨service, hs, -⟩, -⟩
  · exact hx
  · exact mem_of_getElem? hs

/-- what a service needs is put out with it -/
theorem Inv.needs {services : BTreeMap Service} {s : OrderState} (h : Inv services s) {a b : String} (ha : a ∈ s.output)
    (hab : Needs services a b) : b ∈ s.output := by
  induction hab with
  | refl => exact ha
  | tail _ hd ih => exact (h.deps_first _ ih _ hd).left_mem

/-- the search up to a root and from it on -/
theorem roots_split {services : BTreeMap Service} (hc : Closed services) {fuel : ℕ} (hfuel : services.size < fuel)
    {order : List String} (h : serviceOrderWithin fuel services = .ok order) {root : String} (hroot : root ∈ services) :
    ∃ s t rest, Inv services s ∧ Inv services t ∧ (∀ n ∈ s.output, ∃ user < root, Needs services user n) ∧
      visit services fuel root s = .ok t ∧ root ∈ t.output ∧ order = t.output ++ rest := by
  obtain ⟨front, back, hkeys⟩ := List.append_of_mem (Std.ExtTreeMap.mem_keys.2 hroot)
  have hknown : ∀ n ∈ front ++ root :: back, n ∈ services := fun n hn => Std.ExtTreeMap.mem_keys.1 (hkeys ▸ hn)
  have hsorted := keys_sorted services
  rw [serviceOrderWithin, hkeys, List.foldlM_append] at h
  obtain ⟨u, hu, horder⟩ := bind_eq_ok.1 h
  cases horder
  obtain ⟨s, hs, hrest⟩ := bind_eq_ok.1 hu
  rw [List.foldlM_cons] at hrest
  obtain ⟨t, ht, hback⟩ := bind_eq_ok.1 hrest
  obtain ⟨hsi, hsv⟩ : Inv services s ∧ s.visiting = ∅ := by
    rcases visits_roots hc hfuel (fun n hn => hknown n (List.mem_append_left _ hn)) (inv_init services) rfl with
      ⟨s', hs', hi, hv, -⟩ | ⟨n, hn, -⟩
    · rw [hs] at hs'
      cases hs'
      exact ⟨hi, hv⟩
    · rw [hs] at hn
      cases hn
  obtain ⟨hti, hmem⟩ : Inv services t ∧ root ∈ t.output := by
    rcases visit_spec hc fuel hsi hroot (by simp [hsv]) (by omega) with ⟨t', ht', hi, -, -, hm⟩ | ⟨n, hn, -⟩
    · rw [ht] at ht'
      cases ht'
      exact ⟨hi, hm root (List.mem_singleton_self _)⟩
    · rw [ht] at hn
      cases hn
  obtain ⟨w, hw, hreach⟩ := foldlM_outputs (fun _ _ _ => visit_outputs) hs
  obtain ⟨rest, hrest', -⟩ := foldlM_outputs (fun _ _ _ => visit_outputs) hback
  refine ⟨s, t, rest, hsi, hti, ?_, ht, hmem, hrest'⟩
  intro n hn
  rw [hw, List.nil_append] at hn
  obtain ⟨user, huser, hneeds⟩ := hreach n hn
  rw [hkeys, List.pairwise_append] at hsorted
  exact ⟨user, hsorted.2.2 user huser root List.mem_cons_self, hneeds⟩

/-- **The search leaves stages.** Dependencies come first, and services whose first user is smaller come sooner. -/
theorem serviceOrder_staged {manifest : CompositionManifest} (hc : Closed manifest.services) {order : List String}
    (h : manifest.serviceOrder = .ok order) :
    Staged (DependsOn manifest.services) (Sooner manifest.services) order := by
  obtain ⟨hperm, hdeps⟩ := serviceOrder_ok hc h
  refine ⟨serviceOrder_nodup hc h, hdeps, ?_⟩
  intro x hx y hy hsooner
  obtain ⟨user, huser, hothers⟩ := hsooner
  have hknown : user ∈ manifest.services := user_known huser (Std.ExtTreeMap.mem_keys.1 (hperm.subset hx))
  obtain ⟨s, t, rest, hs, ht, hearlier, hvisit, hroot, rfl⟩ := roots_split hc (Nat.lt_succ_self _) h hknown
  have hnot : y ∉ t.output := by
    intro hm
    obtain ⟨w, hw, hreach⟩ := visit_outputs hvisit
    rw [hw] at hm
    rcases List.mem_append.1 hm with hm | hm
    · obtain ⟨other, hlt, hneeds⟩ := hearlier y hm
      exact absurd hlt (hothers other hneeds).asymm
    · exact lt_irrefl user (hothers user (hreach y hm))
  exact before_append (ht.needs hroot huser) ((List.mem_append.1 hy).resolve_left hnot)

/-! ## Rewriting a manifest -/

/-- the manifest with the dependencies that satisfy `p` written first -/
def CompositionManifest.prefer (p : String → Bool) (manifest : CompositionManifest) : CompositionManifest :=
  { manifest with services := manifest.services.map fun _ service =>
      { service with dependsOn := service.dependsOn.filter p ++ service.dependsOn.filter fun d => !p d } }

/-- the same services with the same dependencies, however their lists are written -/
structure SameGraph (manifest other : CompositionManifest) : Prop where
  names : ∀ name, name ∈ manifest.services ↔ name ∈ other.services
  dependsOn : ∀ a b, DependsOn manifest.services a b ↔ DependsOn other.services a b

theorem dependsOn_prefer (p : String → Bool) (manifest : CompositionManifest) (a b : String) :
    DependsOn (manifest.prefer p).services a b ↔ DependsOn manifest.services a b := by
  have hmem : ∀ l : List String, b ∈ l.filter p ++ l.filter (fun d => !p d) ↔ b ∈ l := by
    intro l
    rw [List.mem_append, List.mem_filter, List.mem_filter]
    cases p b <;> simp
  rw [DependsOn, DependsOn, CompositionManifest.prefer]
  simp only [Std.ExtTreeMap.getElem?_map, Option.map_eq_some_iff]
  refine ⟨?_, ?_⟩
  · rintro ⟨-, ⟨service, hs, rfl⟩, hb⟩
    exact ⟨service, hs, (hmem _).1 hb⟩
  · rintro ⟨service, hs, hb⟩
    exact ⟨_, ⟨service, hs, rfl⟩, (hmem _).2 hb⟩

theorem sameGraph_prefer (p : String → Bool) (manifest : CompositionManifest) : SameGraph manifest (manifest.prefer p) where
  names name := by rw [CompositionManifest.prefer, Std.ExtTreeMap.mem_map]
  dependsOn a b := (dependsOn_prefer p manifest a b).symm

theorem SameGraph.dependsOn_eq {manifest other : CompositionManifest} (h : SameGraph manifest other) :
    DependsOn other.services = DependsOn manifest.services :=
  funext fun a => funext fun b => propext (h.dependsOn a b).symm

theorem sooner_same {manifest other : CompositionManifest} (h : SameGraph manifest other) :
    Sooner other.services = Sooner manifest.services := by
  unfold Sooner Needs
  rw [h.dependsOn_eq]

theorem SameGraph.closed {manifest other : CompositionManifest} (h : SameGraph manifest other)
    (hc : Closed manifest.services) : Closed other.services := by
  intro a b hab
  exact (h.names b).1 (hc a b ((h.dependsOn a b).2 hab))

/-- every service lists first what needs `x` -/
def Toward (services : BTreeMap Service) (x : String) : Prop :=
  ∀ (name : String) service, services[name]? = some service → ∃ front back, service.dependsOn = front ++ back ∧
    (∀ d ∈ front, Needs services d x) ∧ ∀ d ∈ back, ¬Needs services d x

/-- with the way to `x` listed first, a visit that comes to `x` puts it out after nothing but what it needs -/
theorem visit_toward {services : BTreeMap Service} (hc : Closed services) {x : String} (htoward : Toward services x)
    {fuel : ℕ} {name : String} {s t : OrderState} (hs : Inv services s) (hx : x ∉ s.output)
    (hneeds : Needs services name x) (hname : name ∈ services) (h : visit services fuel name s = .ok t) :
    ∃ w rest, t.output = s.output ++ w ++ x :: rest ∧ ∀ n ∈ w, TransGen (DependsOn services) x n := by
  induction fuel generalizing name s t with
  | zero => cases h
  | succ fuel ih =>
    have hnew : name ∉ s.visited := fun hv => hx (hs.needs ((hs.visited name).1 hv) hneeds)
    rw [visit, if_neg hnew] at h
    split_ifs at h
    · cases h
    obtain ⟨service, hservice, hrow⟩ := bind_eq_ok.1 h
    obtain ⟨u, hu, ht⟩ := bind_eq_ok.1 hrow
    cases ht
    rw [index_ok_iff] at hservice
    rcases ReflTransGen.cases_head hneeds with rfl | ⟨d, ⟨service', hs', hd⟩, hdx⟩
    · -- `x` itself: what was put out before it are its dependencies
      obtain ⟨w, hw, hreach⟩ := foldlM_outputs (fun _ _ _ => visit_outputs) hu
      refine ⟨w, [], congrArg (· ++ [name]) hw, ?_⟩
      intro n hn
      obtain ⟨d, hd, hr⟩ := hreach n hn
      exact TransGen.head' ⟨service, hservice, hd⟩ hr
    · obtain rfl : service = service' := Option.some.inj (hservice.symm.trans hs')
      obtain ⟨front, back, hlist, hfront, hback⟩ := htoward name service hservice
      rw [hlist] at hd hu
      have hdfront : d ∈ front := (List.mem_append.1 hd).resolve_right fun hm => hback d hm hdx
      obtain ⟨first, front, rfl⟩ := List.exists_cons_of_ne_nil (List.ne_nil_of_mem hdfront)
      rw [List.cons_append, List.foldlM_cons] at hu
      obtain ⟨v, hv, hrest⟩ := bind_eq_ok.1 hu
      have hdep : DependsOn services name first := ⟨service, hservice, by simp [hlist]⟩
      obtain ⟨w, rest, hw, hwx⟩ :=
        ih (hs.enter hname hnew) hx (hfront first List.mem_cons_self) (hc name first hdep) hv
      obtain ⟨after, hafter, -⟩ := foldlM_outputs (fun _ _ _ => visit_outputs) hrest
      refine ⟨w, rest ++ after ++ [name], ?_, hwx⟩
      dsimp only
      rw [hafter, hw]
      simp

theorem exists_first_user {services : BTreeMap Service} {x : String} (hx : x ∈ services) :
    ∃ user, Needs services user x ∧ ∀ other, Needs services other x → user ≤ other := by
  classical
  obtain ⟨user, huser, hleast⟩ := (services.keys.toFinset.filter (Needs services · x)).exists_min_image id
    ⟨x, by simp [hx, ReflTransGen.refl]⟩
  refine ⟨user, (Finset.mem_filter.1 huser).2, ?_⟩
  intro other hother
  exact hleast other (by simp [hother, user_known hother hx])

/-- with the way to `x` listed first, `x` comes before everything it does not need and that is not of an earlier stage -/
theorem toward_before {services : BTreeMap Service} (hc : Closed services) {fuel : ℕ} (hfuel : services.size < fuel)
    {order : List String} (h : serviceOrderWithin fuel services = .ok order) {x z : String}
    (htoward : Toward services x) (hx : x ∈ services) (hz : z ∈ order) (hne : x ≠ z) (hsooner : ¬Sooner services z x)
    (hfree : ¬TransGen (DependsOn services) x z) : Before order x z := by
  obtain ⟨user, huser, hleast⟩ := exists_first_user hx
  obtain ⟨s, t, after, hs, -, hearlier, hvisit, -, rfl⟩ := roots_split hc hfuel h (user_known huser hx)
  have hxs : x ∉ s.output := by
    intro hm
    obtain ⟨other, hlt, hneeds⟩ := hearlier x hm
    exact absurd hlt (not_lt.2 (hleast other hneeds))
  have hzs : z ∉ s.output := by
    intro hm
    obtain ⟨other, hlt, hneeds⟩ := hearlier z hm
    exact hsooner ⟨other, hneeds, fun o ho => hlt.trans_le (hleast o ho)⟩
  obtain ⟨w, rest, hw, hwx⟩ := visit_toward hc htoward hs hxs huser (user_known huser hx) hvisit
  have hsplit : t.output ++ after = (s.output ++ w) ++ x :: (rest ++ after) := by
    rw [hw]
    simp
  rw [hsplit] at hz ⊢
  rcases List.mem_append.1 hz with hm | hm
  · rcases List.mem_append.1 hm with hm | hm
    · exact absurd hm hzs
    · exact absurd (hwx z hm) hfree
  · exact before_of_split ((List.mem_cons.1 hm).resolve_left hne.symm)

/-- the way to a service can be written first in every list -/
theorem exists_toward (manifest : CompositionManifest) (x : String) :
    ∃ other : CompositionManifest, SameGraph manifest other ∧ Toward other.services x := by
  classical
  have hsame := sameGraph_prefer (fun d => Needs manifest.services d x) manifest
  refine ⟨_, hsame, ?_⟩
  intro name service hs
  rw [CompositionManifest.prefer, Std.ExtTreeMap.getElem?_map, Option.map_eq_some_iff] at hs
  obtain ⟨original, -, rfl⟩ := hs
  refine ⟨_, _, rfl, ?_, ?_⟩
  · intro d hd
    rw [Needs, hsame.dependsOn_eq]
    exact of_decide_eq_true (List.mem_filter.1 hd).2
  · intro d hd
    rw [Needs, hsame.dependsOn_eq]
    simpa using (List.mem_filter.1 hd).2

/-! ## The tie-break -/

/-- the documented tie-break: each service is the smallest that could come next, so the way the lists of dependencies are
written does not matter -/
structure TieBreak (manifest : CompositionManifest) (order : List String) : Prop where
  smallest : ∀ front name back, order = front ++ name :: back → Ready (DependsOn manifest.services) front name ∧
    ∀ other ∈ manifest.services, other ∉ front → Ready (DependsOn manifest.services) front other → name ≤ other
  independent : ∀ other : CompositionManifest, SameGraph manifest other → other.serviceOrder = .ok order

theorem smallest_first_iff {manifest : CompositionManifest} (hc : Closed manifest.services) {order : List String}
    (h : manifest.serviceOrder = .ok order) :
    SmallestFirst (DependsOn manifest.services) order ↔
      ∀ front name back, order = front ++ name :: back → Ready (DependsOn manifest.services) front name ∧
        ∀ other ∈ manifest.services, other ∉ front → Ready (DependsOn manifest.services) front other → name ≤ other := by
  have hleft : ∀ {front name back}, order = front ++ name :: back → ∀ other,
      other ∈ name :: back ↔ other ∈ manifest.services ∧ other ∉ front := by
    intro front name back hsplit other
    have hnodup := serviceOrder_nodup hc h
    rw [← Std.ExtTreeMap.mem_keys, ← (serviceOrder_ok hc h).1.mem_iff, hsplit, List.mem_append]
    rw [hsplit, List.nodup_append] at hnodup
    refine ⟨fun hm => ⟨.inr hm, fun hf => hnodup.2.2 other hf other hm rfl⟩, ?_⟩
    rintro ⟨hm | hm, hf⟩
    · exact absurd hm hf
    · exact hm
  refine forall₃_congr fun front name back => forall_congr' fun hsplit => and_congr_right fun _ => ?_
  simp only [hleft hsplit, and_imp]

/-- the order of a graph without cycles, however its lists are written -/
theorem order_of_same {manifest other : CompositionManifest} (hc : Closed manifest.services)
    (hacyclic : ¬∃ n, TransGen (DependsOn manifest.services) n n) (hsame : SameGraph manifest other) :
    ∃ order, other.serviceOrder = .ok order ∧
      Staged (DependsOn manifest.services) (Sooner manifest.services) order ∧ order.Perm manifest.services.keys := by
  have hdep := hsame.dependsOn_eq
  obtain ⟨order, horder⟩ := order_of_acyclic (hsame.closed hc) (hdep ▸ hacyclic)
  have hstaged := serviceOrder_staged (hsame.closed hc) horder
  rw [hdep, sooner_same hsame] at hstaged
  refine ⟨order, horder, hstaged, (serviceOrder_ok (hsame.closed hc) horder).1.trans ?_⟩
  apply (List.perm_ext_iff_of_nodup Std.ExtTreeMap.nodup_keys Std.ExtTreeMap.nodup_keys).2
  intro name
  rw [Std.ExtTreeMap.mem_keys, Std.ExtTreeMap.mem_keys, hsame.names]

/-- if the lists do not matter, services of one stage depend on each other: otherwise either could be made to come first -/
theorem chained_of_independent {manifest : CompositionManifest} (hc : Closed manifest.services) {order : List String}
    (hperm : order.Perm manifest.services.keys) (hnodup : order.Nodup)
    (h : ∀ other : CompositionManifest, SameGraph manifest other → other.serviceOrder = .ok order) :
    Chained (DependsOn manifest.services) (Sooner manifest.services) manifest.services.keys := by
  have hbefore : ∀ x ∈ manifest.services, ∀ z ∈ manifest.services, x ≠ z → ¬Sooner manifest.services z x →
      ¬TransGen (DependsOn manifest.services) x z → Before order x z := by
    intro x hx z hz hne hsooner hfree
    obtain ⟨other, hsame, htoward⟩ := exists_toward manifest x
    rw [← hsame.dependsOn_eq] at hfree
    rw [← sooner_same hsame] at hsooner
    exact toward_before (hsame.closed hc) (Nat.lt_succ_self _) (h other hsame) htoward ((hsame.names x).1 hx)
      (hperm.symm.subset (Std.ExtTreeMap.mem_keys.2 hz)) hne hsooner hfree
  intro x hx z hz hne hxz hzx
  rw [Std.ExtTreeMap.mem_keys] at hx hz
  by_contra hnone
  rw [not_or] at hnone
  exact before_asymm hnodup (hbefore x hx z hz hne hzx hnone.1) (hbefore z hz x hx hne.symm hxz hnone.2)

/-- **The tie-break.** The services come in the documented order, for every way to write the lists of dependencies, exactly
when two services with the same first user depend on each other, and a smaller service with a later first user needs the
greater one or a service with a later first user than that. -/
theorem service_order_tie_break_iff {manifest : CompositionManifest} (hc : Closed manifest.services)
    (hacyclic : ¬∃ n, TransGen (DependsOn manifest.services) n n) :
    ∃ order, manifest.serviceOrder = .ok order ∧
      (TieBreak manifest order ↔
        Chained (DependsOn manifest.services) (Sooner manifest.services) manifest.services.keys ∧
          Covered (DependsOn manifest.services) (Sooner manifest.services) manifest.services.keys) := by
  have hself : SameGraph manifest manifest := ⟨fun _ => .rfl, fun _ _ => .rfl⟩
  obtain ⟨order, horder, hstaged, hperm⟩ := order_of_same hc hacyclic hself
  have hchained : Chained (DependsOn manifest.services) (Sooner manifest.services) manifest.services.keys ↔
      Chained (DependsOn manifest.services) (Sooner manifest.services) order := by
    simp only [Chained, hperm.mem_iff]
  have hcovered : Covered (DependsOn manifest.services) (Sooner manifest.services) manifest.services.keys ↔
      Covered (DependsOn manifest.services) (Sooner manifest.services) order := by
    simp only [Covered, hperm.mem_iff]
  refine ⟨order, horder, ?_, ?_⟩
  · intro h
    have hchain := chained_of_independent hc hperm hstaged.nodup h.independent
    refine ⟨hchain, ?_⟩
    rw [hcovered, ← hstaged.smallest_first_iff (hchained.1 hchain), smallest_first_iff hc horder]
    exact h.smallest
  · rintro ⟨hchain, hcover⟩
    rw [hchained] at hchain
    rw [hcovered, ← hstaged.smallest_first_iff hchain, smallest_first_iff hc horder] at hcover
    refine ⟨hcover, ?_⟩
    intro other hsame
    obtain ⟨order', horder', hstaged', hperm'⟩ := order_of_same hc hacyclic hsame
    rw [horder', hstaged.unique hstaged' (hperm.trans hperm'.symm) hchain]

section
variable {services : BTreeMap Service} {x y : String}

theorem needs_smaller (hsmaller : ∀ a b, DependsOn services a b → b < a) (h : Needs services x y) : y ≤ x := by
  induction h with
  | refl => exact le_rfl
  | tail _ hd ih => exact (hsmaller _ _ hd).le.trans ih

/-- where services depend on smaller ones only, each is its own first user -/
theorem sooner_of_smaller (hsmaller : ∀ a b, DependsOn services a b → b < a) : Sooner services x y ↔ x < y := by
  refine ⟨?_, ?_⟩
  · intro h
    obtain ⟨user, huser, hothers⟩ := h
    exact (needs_smaller hsmaller huser).trans_lt (hothers y .refl)
  · intro h
    exact ⟨x, .refl, fun other hother => h.trans_le (needs_smaller hsmaller hother)⟩

theorem chained_of_smaller (hsmaller : ∀ a b, DependsOn services a b → b < a) (names : List String) :
    Chained (DependsOn services) (Sooner services) names := by
  intro a _ b _ hne hab hba
  rw [sooner_of_smaller hsmaller] at hab hba
  exact absurd (le_antisymm (not_lt.1 hba) (not_lt.1 hab)) hne

theorem covered_of_smaller (hsmaller : ∀ a b, DependsOn services a b → b < a) (names : List String) :
    Covered (DependsOn services) (Sooner services) names := by
  intro a _ b _ hab hlt
  rw [sooner_of_smaller hsmaller] at hab
  exact absurd hab hlt.asymm

end

/-- `auth` and `db` need nothing, and `web` needs both -/
def twoReady : CompositionManifest :=
  { demo with services := .ofList [("auth", gpuService [] uuidA), ("db", gpuService [] uuidA),
      ("web", gpuService ["db", "auth"] uuidA)] compare }

/-- of `auth` and `db`, which could both come first, the smaller one does -/
theorem tie_break_example : twoReady.serviceOrder = .ok ["auth", "db", "web"] ∧
    TieBreak twoReady ["auth", "db", "web"] := by
  have hc : Closed twoReady.services := closed_of_entries (by decide)
  have horder : twoReady.serviceOrder = .ok ["auth", "db", "web"] := rfl
  have hentries : ∀ e ∈ twoReady.services.toList, ∀ d ∈ e.2.dependsOn, d < e.1 := by decide
  have hsmaller : ∀ a b, DependsOn twoReady.services a b → b < a := by
    intro a b hab
    obtain ⟨service, hs, hb⟩ := hab
    exact hentries (a, service) (mem_toList.2 hs) b hb
  obtain ⟨order, horder', hiff⟩ := service_order_tie_break_iff hc (acyclic_of_order hc horder)
  obtain rfl := Except.ok.inj (horder.symm.trans horder')
  exact ⟨horder, hiff.2 ⟨chained_of_smaller hsmaller _, covered_of_smaller hsmaller _⟩⟩

/-- `a` needs `z`, and `b` nothing -/
def tiedServices : BTreeMap Service :=
  .ofList [("a", gpuService ["z"] uuidA), ("b", gpuService [] uuidA), ("z", gpuService [] uuidA)] compare

def tied : CompositionManifest := { demo with services := tiedServices }

/-- `z` comes first, though `b` is smaller and needs nothing -/
theorem tie_break_missed : Closed tied.services ∧ (¬∃ n, TransGen (DependsOn tied.services) n n) ∧
    tied.serviceOrder = .ok ["z", "a", "b"] ∧ ¬TieBreak tied ["z", "a", "b"] := by
  have hc : Closed tied.services := closed_of_entries (by decide)
  refine ⟨hc, acyclic_of_order hc rfl, rfl, ?_⟩
  intro h
  have hready : Ready (DependsOn tied.services) [] "b" := by
    rintro d ⟨service, hs, hd⟩
    obtain rfl : gpuService [] uuidA = service := Option.some.inj hs
    exact hd
  exact absurd ((h.smallest [] "z" ["a", "b"] rfl).2 "b" (by decide) List.not_mem_nil hready) (by decide)

end PhenoCompose
