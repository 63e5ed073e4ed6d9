/-
JSON values up to the order of the members of their objects.

`Distinct v`: no object in `v`, at any depth, has a repeated key. `Reordered v w`: `w` is `v` with the members of its
objects, at every depth, in another order; elements of arrays stay where they are and scalars are equal.

Results, for values without repeated keys: `canonicalize_eq_iff` (sorting the members tells values apart exactly up to their
order), `canonicalize_idem`, `reordered_canonicalize` (the sorted value is one of the orders).
-/
import PhenoCompose.Core.Json

namespace Core.Json

open Core.Collections

/-- no object has a repeated key -/
inductive Distinct : Value → Prop where
  | scalar {v : Value} (h : v.isScalar = true) : Distinct v
  | array {values : List Value} (h : ∀ v ∈ values, Distinct v) : Distinct (.array values)
  | object {members : List (String × Value)} (keys : (members.map Prod.fst).Nodup) (h : ∀ m ∈ members, Distinct m.2) :
    Distinct (.object members)

/-- the same value, but for the order of members -/
inductive Reordered : Value → Value → Prop where
  | scalar {v : Value} (h : v.isScalar = true) : Reordered v v
  | array {pairs : List (Value × Value)} (h : ∀ p ∈ pairs, Reordered p.1 p.2) :
    Reordered (.array (pairs.map Prod.fst)) (.array (pairs.map Prod.snd))
  /-- each key with the two values it has -/
  | object {members : List (String × Value × Value)} {members' : List (String × Value)}
    (h : ∀ m ∈ members, Reordered m.2.1 m.2.2) (order : members'.Perm (members.map fun m => (m.1, m.2.2))) :
    Reordered (.object (members.map fun m => (m.1, m.2.1))) (.object members')

theorem canonicalize_scalar {v : Value} (h : v.isScalar = true) : canonicalize v = v := rearranges_canonicalize.scalar v h

theorem canonicalize_array (values : List Value) : canonicalize (.array values) = .array (values.map canonicalize) :=
  rearranges_canonicalize.array values

/-- the member with its value in canonical form -/
def canonicalMember (m : String × Value) : String × Value := (m.1, canonicalize m.2)

theorem canonicalize_object (members : List (String × Value)) :
    canonicalize (.object members) = .object (Std.ExtTreeMap.ofList (members.map canonicalMember) compare).toList := by
  rw [canonicalize, canonicalizeMembers_eq]
  rfl

theorem keys_canonical (members : List (String × Value)) :
    (members.map canonicalMember).map Prod.fst = members.map Prod.fst := by
  rw [List.map_map]
  rfl

/-- the order of members makes no difference to the canonical form -/
theorem Reordered.canonicalize_eq {v w : Value} (h : Reordered v w) (hv : Distinct v) : canonicalize v = canonicalize w := by
  induction h with
  | scalar => rfl
  | @array pairs _ ih =>
    cases hv with
    | array hvalues =>
      rw [canonicalize_array, canonicalize_array, List.map_map, List.map_map]
      refine congrArg Value.array (List.map_congr_left ?_)
      exact fun p hp => ih p hp (hvalues _ (List.mem_map_of_mem hp))
    | scalar h => cases h
  | @object members members' _ order ih =>
    cases hv with
    | object hkeys hvalues =>
      have hsame : (members.map fun m => (m.1, m.2.1)).map canonicalMember =
          (members.map fun m => (m.1, m.2.2)).map canonicalMember := by
        rw [List.map_map, List.map_map]
        refine List.map_congr_left fun m hm => Prod.ext rfl ?_
        exact ih m hm (hvalues (m.1, m.2.1) (List.mem_map_of_mem hm))
      rw [canonicalize_object, canonicalize_object, hsame, ofList_perm (order.map canonicalMember) ?_]
      rwa [← hsame, keys_canonical]
    | scalar h => cases h

/-- only a scalar, an array or an object has a scalar, an array or an object as its canonical form -/
theorem canonicalize_shape {v w : Value} (h : canonicalize v = canonicalize w) :
    (v.isScalar = true ∧ v = w) ∨ (∃ vs ws, v = .array vs ∧ w = .array ws ∧ vs.map canonicalize = ws.map canonicalize) ∨
      ∃ ms ns, v = .object ms ∧ w = .object ns := by
  cases v with
  | array vs =>
    cases w with
    | array ws =>
      rw [canonicalize_array, canonicalize_array] at h
      exact .inr (.inl ⟨vs, ws, rfl, rfl, Value.array.inj h⟩)
    | _ => cases h
  | object ms =>
    cases w with
    | object ns => exact .inr (.inr ⟨ms, ns, rfl, rfl⟩)
    | _ => cases h
  | _ =>
    cases w with
    | array | object => cases h
    | _ => exact .inl ⟨rfl, h⟩

/-- **Values with one canonical form differ in the order of members only** -/
theorem reordered_of_canonicalize_eq {v w : Value} (hv : Distinct v) (hw : Distinct w)
    (h : canonicalize v = canonicalize w) : Reordered v w := by
  induction hv generalizing w with
  | scalar hscalar =>
    rcases canonicalize_shape h with ⟨-, rfl⟩ | ⟨_, _, rfl, -⟩ | ⟨_, _, rfl, -⟩
    · exact .scalar hscalar
    · cases hscalar
    · cases hscalar
  | @array vs _ ih =>
    rcases canonicalize_shape h with ⟨hscalar, -⟩ | ⟨_, ws, he, rfl, hmap⟩ | ⟨_, _, he, -⟩
    · cases hscalar
    · cases he
      cases hw with
      | array hws =>
        obtain ⟨pairs, rfl, rfl, hpairs⟩ := pairs_of_map_eq hmap
        refine .array fun p hp => ?_
        exact ih p.1 (List.mem_map_of_mem hp) (hws p.2 (List.mem_map_of_mem hp)) (hpairs p hp)
      | scalar h => cases h
    · cases he
  | @object ms hkeys _ ih =>
    rcases canonicalize_shape h with ⟨hscalar, -⟩ | ⟨_, _, he, -⟩ | ⟨_, ns, he, rfl⟩
    · cases hscalar
    · cases he
    · cases he
      cases hw with
      | object hkeys' hvalues' =>
        rw [canonicalize_object, canonicalize_object] at h
        -- both lists of members, in canonical form, are the same entries
        have hperm : (ms.map canonicalMember).Perm (ns.map canonicalMember) := by
          have hms := toList_ofList_perm (by rwa [keys_canonical] : ((ms.map canonicalMember).map Prod.fst).Nodup)
          have hns := toList_ofList_perm (by rwa [keys_canonical] : ((ns.map canonicalMember).map Prod.fst).Nodup)
          rw [Value.object.inj h] at hms
          exact hms.symm.trans hns
        obtain ⟨ns', horder, hmap⟩ := perm_map_exists hperm
        obtain ⟨pairs, rfl, rfl, hpairs⟩ := pairs_of_map_eq hmap
        have hms : pairs.map Prod.fst = (pairs.map fun p => (p.1.1, p.1.2, p.2.2)).map fun m => (m.1, m.2.1) := by
          rw [List.map_map]
          rfl
        have hns : pairs.map Prod.snd = (pairs.map fun p => (p.1.1, p.1.2, p.2.2)).map fun m => (m.1, m.2.2) := by
          rw [List.map_map]
          refine List.map_congr_left fun p hp => Prod.ext (congrArg Prod.fst (hpairs p hp)).symm rfl
        rw [hms]
        refine .object ?_ (hns ▸ horder.symm)
        intro m hm
        obtain ⟨p, hp, rfl⟩ := List.mem_map.1 hm
        exact ih p.1 (List.mem_map_of_mem hp) (hvalues' p.2 (horder.subset (List.mem_map_of_mem hp)))
          (congrArg Prod.snd (hpairs p hp))
      | scalar h => cases h

/-- the members of a canonical object are members in canonical form -/
theorem mem_canonical {members : List (String × Value)} {m : String × Value}
    (h : m ∈ (Std.ExtTreeMap.ofList (members.map canonicalMember) compare).toList)
    (hkeys : (members.map Prod.fst).Nodup) : ∃ n ∈ members, canonicalMember n = m := by
  have hperm := toList_ofList_perm (by rwa [keys_canonical] : ((members.map canonicalMember).map Prod.fst).Nodup)
  exact List.mem_map.1 (hperm.subset h)

theorem distinct_canonicalize {v : Value} (h : Distinct v) : Distinct (canonicalize v) := by
  induction h with
  | scalar h =>
    rw [canonicalize_scalar h]
    exact .scalar h
  | array _ ih =>
    rw [canonicalize_array]
    refine .array fun v hv => ?_
    obtain ⟨w, hw, rfl⟩ := List.mem_map.1 hv
    exact ih w hw
  | object hkeys _ ih =>
    rw [canonicalize_object]
    refine .object (toList_keys_nodup _) fun m hm => ?_
    obtain ⟨n, hn, rfl⟩ := mem_canonical hm hkeys
    exact ih n hn

theorem canonicalize_idem {v : Value} (h : Distinct v) : canonicalize (canonicalize v) = canonicalize v := by
  induction h with
  | scalar h => rw [canonicalize_scalar h, canonicalize_scalar h]
  | array _ ih =>
    rw [canonicalize_array, canonicalize_array, List.map_map]
    exact congrArg Value.array (List.map_congr_left ih)
  | object hkeys _ ih =>
    rw [canonicalize_object, canonicalize_object]
    have hself : ∀ {l : List (String × Value)}, (∀ m ∈ l, canonicalMember m = m) → l.map canonicalMember = l :=
      fun hl => (List.map_congr_left hl).trans (List.map_id _)
    rw [hself, ofList_of_perm (List.Perm.refl _)]
    intro m hm
    obtain ⟨n, hn, rfl⟩ := mem_canonical hm hkeys
    exact Prod.ext rfl (ih n hn)

theorem canonicalize_eq_iff {v w : Value} (hv : Distinct v) (hw : Distinct w) :
    canonicalize v = canonicalize w ↔ Reordered v w :=
  ⟨reordered_of_canonicalize_eq hv hw, fun h => h.canonicalize_eq hv⟩

theorem reordered_canonicalize {v : Value} (h : Distinct v) : Reordered v (canonicalize v) :=
  reordered_of_canonicalize_eq h (distinct_canonicalize h) (canonicalize_idem h).symm

end Core.Json
