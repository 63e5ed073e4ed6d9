/-
`std::collections`: maps and sets ordered by key. Two of them are equal when they answer every lookup alike, and they are
iterated in key order.

Results: `toList_ofList_perm` and `ofList_of_perm` (collecting distinct entries loses nothing, in any order),
`lookup_eq_some` (looking a key up in a list of entries), `keys_sorted`.
-/
import Mathlib

namespace Core.Collections

abbrev BTreeMap (V : Type) := Std.ExtTreeMap String V

abbrev BTreeSet := Std.ExtTreeSet String

variable {V W : Type}

theorem mem_toList {m : BTreeMap V} {k : String} {v : V} : (k, v) ∈ m.toList ↔ m[k]? = some v :=
  Std.ExtTreeMap.mem_toList_iff_getElem?_eq_some

theorem mem_of_getElem? {m : BTreeMap V} {k : String} {v : V} (h : m[k]? = some v) : k ∈ m := by
  rw [Std.ExtTreeMap.mem_iff_isSome_getElem?, h]; rfl

theorem exists_of_mem {m : BTreeMap V} {k : String} (h : k ∈ m) : ∃ v, m[k]? = some v :=
  Option.isSome_iff_exists.1 (Std.ExtTreeMap.mem_iff_isSome_getElem?.1 h)

theorem toList_keys (m : BTreeMap V) : m.toList.map Prod.fst = m.keys := Std.ExtTreeMap.map_fst_toList_eq_keys

theorem get_insert (m : BTreeMap V) (k : String) (v : V) (k' : String) :
    (m.insert k v)[k']? = if k = k' then some v else m[k']? := by
  rw [Std.ExtTreeMap.getElem?_insert]
  by_cases hk : k = k'
  · rw [if_pos (by rw [hk]; exact Std.ReflOrd.compare_self), if_pos hk]
  · rw [if_neg fun hc => hk (Std.LawfulEqOrd.eq_of_compare hc), if_neg hk]

theorem get_erase (m : BTreeMap V) (k k' : String) : (m.erase k)[k']? = if k = k' then none else m[k']? := by
  rw [Std.ExtTreeMap.getElem?_erase]
  by_cases hk : k = k'
  · rw [if_pos (by rw [hk]; exact Std.ReflOrd.compare_self), if_pos hk]
  · rw [if_neg fun hc => hk (Std.LawfulEqOrd.eq_of_compare hc), if_neg hk]

/-- the values, in the order of their keys -/
def values (m : BTreeMap V) : List V := m.toList.map Prod.snd

theorem mem_values {m : BTreeMap V} {v : V} : v ∈ values m ↔ ∃ k : String, m[k]? = some v := by
  refine ⟨?_, ?_⟩
  · intro h
    obtain ⟨⟨k, v⟩, hm, rfl⟩ := List.mem_map.1 h
    exact ⟨k, mem_toList.1 hm⟩
  · intro hx
    obtain ⟨k, hk⟩ := hx
    exact List.mem_map.2 ⟨(k, v), mem_toList.2 hk, rfl⟩

/-- the values are what the keys are looked up as -/
theorem values_eq_filterMap (m : BTreeMap V) : values m = m.keys.filterMap fun k => m[k]? := by
  rw [← toList_keys, List.filterMap_map, values, ← List.filterMap_eq_map]
  exact List.filterMap_congr fun e he => (mem_toList.1 he).symm

theorem toList_keys_nodup (m : BTreeMap V) : (m.toList.map Prod.fst).Nodup := by
  rw [toList_keys]; exact Std.ExtTreeMap.nodup_keys

theorem keys_sorted (m : BTreeMap V) : m.keys.Pairwise (· < ·) := by
  have h : m.keys.Pairwise fun a b => compare a b = .lt := Std.ExtTreeMap.ordered_keys
  exact h.imp fun h => compareOfLessAndEq_eq_lt.1 h

/-- entries with distinct keys: no two compare as equal -/
theorem pairwise_keys {l : List (String × V)} (h : (l.map Prod.fst).Nodup) :
    l.Pairwise fun a b => ¬compare a.1 b.1 = .eq := by
  rw [List.Nodup, List.pairwise_map] at h
  exact h.imp fun hne heq => hne (Std.LawfulEqOrd.eq_of_compare heq)

theorem getElem?_ofList {l : List (String × V)} (h : (l.map Prod.fst).Nodup) {k : String} {v : V} :
    (Std.ExtTreeMap.ofList l compare)[k]? = some v ↔ (k, v) ∈ l := by
  refine ⟨?_, ?_⟩
  · intro hk
    have hmem : k ∈ Std.ExtTreeMap.ofList l compare := mem_of_getElem? hk
    rw [Std.ExtTreeMap.mem_ofList, List.contains_iff_mem, List.mem_map] at hmem
    obtain ⟨⟨k', v'⟩, hm, rfl⟩ := hmem
    have := Std.ExtTreeMap.getElem?_ofList_of_mem Std.ReflOrd.compare_self (pairwise_keys h) hm
    rw [this] at hk
    rwa [← Option.some.inj hk]
  · exact Std.ExtTreeMap.getElem?_ofList_of_mem Std.ReflOrd.compare_self (pairwise_keys h)

/-- collecting entries with distinct keys keeps exactly those entries -/
theorem toList_ofList_perm {l : List (String × V)} (h : (l.map Prod.fst).Nodup) :
    (Std.ExtTreeMap.ofList l compare).toList.Perm l := by
  refine (List.perm_ext_iff_of_nodup (List.Nodup.of_map _ (toList_keys_nodup _)) (List.Nodup.of_map _ h)).2 ?_
  intro hx
  obtain ⟨k, v⟩ := hx
  rw [mem_toList, getElem?_ofList h]

/-- collecting distinct entries in another order gives the same map -/
theorem ofList_perm {l l' : List (String × V)} (hp : l.Perm l') (h : (l'.map Prod.fst).Nodup) :
    Std.ExtTreeMap.ofList l compare = Std.ExtTreeMap.ofList l' compare := by
  have hl : (l.map Prod.fst).Nodup := (hp.map Prod.fst).nodup_iff.2 h
  exact Std.ExtTreeMap.ext_toList ((toList_ofList_perm hl).trans (hp.trans (toList_ofList_perm h).symm))

/-- collecting the entries of a map, in any order, gives the map back -/
theorem ofList_of_perm {m : BTreeMap V} {l : List (String × V)} (h : l.Perm m.toList) :
    Std.ExtTreeMap.ofList l compare = m := by
  have hl : (l.map Prod.fst).Nodup := (h.map Prod.fst).nodup_iff.2 (toList_keys_nodup m)
  exact Std.ExtTreeMap.ext_toList ((toList_ofList_perm hl).trans h)

/-- the map with its keys renamed -/
def renameKeys (rename : String → String) (m : BTreeMap V) : BTreeMap V :=
  Std.ExtTreeMap.ofList (m.toList.map fun e => (rename e.1, e.2)) compare

/-- a renaming that merges no two keys keeps every entry -/
theorem getElem?_renameKeys {rename : String → String} {m : BTreeMap V} (h : Set.InjOn rename {k | k ∈ m}) {k : String}
    {v : V} : (renameKeys rename m)[k]? = some v ↔ ∃ k', m[k']? = some v ∧ rename k' = k := by
  have hkeys : ((m.toList.map fun e => (rename e.1, e.2)).map Prod.fst).Nodup := by
    have hmap : (m.toList.map fun e => (rename e.1, e.2)).map Prod.fst = m.keys.map rename := by
      rw [← toList_keys, List.map_map, List.map_map]
      rfl
    rw [hmap]
    apply List.Nodup.map_on ?_ Std.ExtTreeMap.nodup_keys
    intro a ha b hb hab
    exact h (Std.ExtTreeMap.mem_keys.1 ha) (Std.ExtTreeMap.mem_keys.1 hb) hab
  rw [renameKeys, getElem?_ofList hkeys, List.mem_map]
  refine ⟨?_, ?_⟩
  · intro hx
    obtain ⟨⟨k', v'⟩, hm, he⟩ := hx
    cases he
    exact ⟨k', mem_toList.1 hm, rfl⟩
  · intro hx
    obtain ⟨k', hm, rfl⟩ := hx
    exact ⟨(k', v), mem_toList.2 hm, rfl⟩

theorem mem_values_renameKeys {rename : String → String} {m : BTreeMap V} (h : Set.InjOn rename {k | k ∈ m}) {v : V} :
    v ∈ values (renameKeys rename m) ↔ v ∈ values m := by
  rw [mem_values, mem_values]
  refine ⟨?_, ?_⟩
  · intro hx
    obtain ⟨k, hk⟩ := hx
    obtain ⟨k', hk', -⟩ := (getElem?_renameKeys h).1 hk
    exact ⟨k', hk'⟩
  · intro hx
    obtain ⟨k, hk⟩ := hx
    exact ⟨rename k, (getElem?_renameKeys h).2 ⟨k, hk, rfl⟩⟩

/-- the first value with a property is the one under the least key -/
theorem find?_values_eq_some {m : BTreeMap V} {p : V → Bool} {v : V} :
    (values m).find? p = some v ↔
      ∃ k : String, m[k]? = some v ∧ p v = true ∧ ∀ (k' : String) v', m[k']? = some v' → p v' = true → k ≤ k' := by
  have hsorted : m.toList.Pairwise fun a b => a.1 < b.1 := by
    rw [← List.pairwise_map, toList_keys]
    exact keys_sorted m
  rw [values, List.find?_map, Option.map_eq_some_iff]
  refine ⟨?_, ?_⟩
  · intro hx
    obtain ⟨⟨k, v⟩, hfind, rfl⟩ := hx
    obtain ⟨hp, as, bs, hl, has⟩ := List.find?_eq_some_iff_append.1 hfind
    refine ⟨k, mem_toList.1 (hl ▸ by simp), hp, ?_⟩
    intro k' v' hk' hp'
    rw [hl, List.pairwise_append, List.pairwise_cons] at hsorted
    have hm := mem_toList.2 hk'
    rw [hl, List.mem_append, List.mem_cons] at hm
    rcases hm with ha | he | hb
    · have := has _ ha
      simp [hp'] at this
    · cases he
      exact le_rfl
    · exact (hsorted.2.1.1 _ hb).le
  · intro hx
    obtain ⟨k, hk, hp, hleast⟩ := hx
    obtain ⟨⟨k₀, v₀⟩, hfind⟩ := Option.isSome_iff_exists.1
      (List.find?_isSome.2 ⟨(k, v), mem_toList.2 hk, hp⟩ : (m.toList.find? (p ∘ Prod.snd)).isSome = true)
    refine ⟨(k₀, v₀), hfind, ?_⟩
    obtain ⟨hp₀, as, bs, hl, has⟩ := List.find?_eq_some_iff_append.1 hfind
    have hk₀ : m[k₀]? = some v₀ := mem_toList.1 (hl ▸ by simp)
    have hm := mem_toList.2 hk
    rw [hl, List.pairwise_append, List.pairwise_cons] at hsorted
    rw [hl, List.mem_append, List.mem_cons] at hm
    rcases hm with ha | he | hb
    · have := has _ ha
      simp [hp] at this
    · cases he
      rfl
    · exact absurd (hleast k₀ v₀ hk₀ hp₀) (not_le.2 (hsorted.2.1.1 _ hb))

theorem set_ofList_of_mem_iff {s : BTreeSet} {l : List String} (h : ∀ x, x ∈ l ↔ x ∈ s) :
    Std.ExtTreeSet.ofList l compare = s := by
  apply Std.ExtTreeSet.ext_mem
  intro x
  rw [Std.ExtTreeSet.mem_ofList, List.contains_iff_mem, h]

theorem mem_set_ofList {l : List String} {x : String} : x ∈ Std.ExtTreeSet.ofList l compare ↔ x ∈ l := by
  rw [Std.ExtTreeSet.mem_ofList, List.contains_iff_mem]

theorem set_toList_nodup (s : BTreeSet) : s.toList.Nodup :=
  Std.ExtTreeSet.distinct_toList.imp fun hne e => hne (by rw [e]; exact Std.ReflOrd.compare_self)

theorem set_ofList_eq_iff {l l' : List String} :
    Std.ExtTreeSet.ofList l compare = Std.ExtTreeSet.ofList l' compare ↔ ∀ x, x ∈ l ↔ x ∈ l' := by
  refine ⟨?_, ?_⟩
  · intro h x
    rw [← mem_set_ofList, h, mem_set_ofList]
  · intro h
    exact set_ofList_of_mem_iff fun x => by rw [mem_set_ofList, h]

/-- collecting into a set keeps the number of elements exactly when there were no repetitions -/
theorem set_size_eq_length_iff {l : List String} : (Std.ExtTreeSet.ofList l compare).size = l.length ↔ l.Nodup := by
  have hperm : (Std.ExtTreeSet.ofList l compare).toList.Perm l.dedup := by
    apply (List.perm_ext_iff_of_nodup (set_toList_nodup _) l.nodup_dedup).2
    intro x
    rw [Std.ExtTreeSet.mem_toList, mem_set_ofList, List.mem_dedup]
  rw [← Std.ExtTreeSet.length_toList, hperm.length_eq]
  refine ⟨?_, ?_⟩
  · intro h
    rw [← (List.dedup_sublist l).eq_of_length h]
    exact l.nodup_dedup
  · intro h
    rw [h.dedup]

/-- the first entry with a key is the entry, when keys are distinct -/
theorem lookup_eq_some {l : List (String × V)} (h : (l.map Prod.fst).Nodup) {k : String} {v : V} :
    l.lookup k = some v ↔ (k, v) ∈ l := by
  induction l with
  | nil => simp
  | cons a l ih =>
    obtain ⟨k', v'⟩ := a
    rw [List.map_cons, List.nodup_cons] at h
    rw [List.lookup_cons]
    by_cases hk : k = k'
    · subst hk
      have : (k, v) ∉ l := fun hm => h.1 (List.mem_map.2 ⟨_, hm, rfl⟩)
      simp [this, eq_comm]
    · rw [beq_false_of_ne hk, ih h.2]
      simp [hk]

/-- a lookup does not depend on the order of entries with distinct keys -/
theorem lookup_of_perm {l l' : List (String × V)} (hp : l.Perm l') (h : (l'.map Prod.fst).Nodup) (k : String) :
    l.lookup k = l'.lookup k := by
  have hl : (l.map Prod.fst).Nodup := (hp.map Prod.fst).nodup_iff.2 h
  apply Option.ext
  intro v
  rw [lookup_eq_some hl, lookup_eq_some h, hp.mem_iff]

theorem lookup_map_snd (f : V → W) (l : List (String × V)) (k : String) :
    (l.map fun m => (m.1, f m.2)).lookup k = (l.lookup k).map f := by
  induction l with
  | nil => rfl
  | cons a l ih =>
    obtain ⟨k', v⟩ := a
    rw [List.map_cons, List.lookup_cons, List.lookup_cons, ih]
    cases k == k' <;> rfl

/-- entries left out by their keys are not missed under other keys -/
theorem lookup_filter {p : String → Bool} {k : String} (h : p k = true) (l : List (String × V)) :
    (l.filter fun e => p e.1).lookup k = l.lookup k := by
  induction l with
  | nil => rfl
  | cons e l ih =>
    rw [List.filter_cons, List.lookup_cons]
    by_cases hkey : k = e.1
    · rw [if_pos (hkey ▸ h), List.lookup_cons, hkey, beq_self_eq_true]
    · rw [beq_false_of_ne hkey]
      split_ifs
      · rw [List.lookup_cons, beq_false_of_ne hkey]
        exact ih
      · exact ih

theorem lookup_eq_none {l : List (String × V)} {k : String} (h : k ∉ l.map Prod.fst) : l.lookup k = none := by
  rw [List.lookup_eq_none_iff]
  intro p hp
  have : k ≠ p.1 := fun e => h (e ▸ List.mem_map_of_mem hp)
  simpa using this

/-- two lists with the same images are matched element by element -/
theorem pairs_of_map_eq {α β γ : Type} {f : α → γ} {g : β → γ} {l : List α} {l' : List β} (h : l.map f = l'.map g) :
    ∃ pairs : List (α × β), pairs.map Prod.fst = l ∧ pairs.map Prod.snd = l' ∧ ∀ p ∈ pairs, f p.1 = g p.2 := by
  induction l generalizing l' with
  | nil =>
    obtain rfl := List.map_eq_nil_iff.1 h.symm
    exact ⟨[], rfl, rfl, List.forall_mem_nil _⟩
  | cons a l ih =>
    obtain ⟨b, l', rfl, hb, hl⟩ := List.map_eq_cons_iff.1 h.symm
    obtain ⟨pairs, rfl, rfl, hpairs⟩ := ih hl.symm
    exact ⟨(a, b) :: pairs, rfl, rfl, List.forall_mem_cons.2 ⟨hb.symm, hpairs⟩⟩

/-- a list of images, in another order, is the image of the list in another order -/
theorem perm_map_exists {α β : Type} {f : α → β} {l : List α} {l' : List β} (h : l'.Perm (l.map f)) :
    ∃ m : List α, m.Perm l ∧ l' = m.map f := by
  have h' : Relation.Comp List.Perm (List.Forall₂ fun a b => b = f a) l l' := by
    rw [← List.forall₂_comp_perm_eq_perm_comp_forall₂]
    refine ⟨l.map f, ?_, h.symm⟩
    rw [List.forall₂_map_right_iff]
    exact List.forall₂_same.2 fun _ _ => rfl
  obtain ⟨m, hm, hf⟩ := h'
  refine ⟨m, hm.symm, ?_⟩
  rw [← List.forall₂_eq_eq_eq, List.forall₂_map_right_iff]
  exact hf.flip

end Core.Collections
