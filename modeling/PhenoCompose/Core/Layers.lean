/-
Layers of nested values, where a later one overrides an earlier one member by member.

`Overriding merge` is all that is asked of a merge: two objects are merged key by key, and anything else is replaced.

- `find_merge`: what a merge holds on a path: what the later layer holds there, or, where that layer passes the path,
  what the earlier one does.
- `overlay`: values put in at paths, one after the other; `find_overlay_filter`: those that pass a path can be left out.
- `find_overlay_last`: what is found on a path was put in by the last that does not pass it.
- `merge_overriding`: there is such a merge.
-/
import PhenoCompose.Core.Json

namespace Core.Json

open Core.Collections

variable {α : Type}

/-! ## Paths -/

/-- the value on a path of keys -/
def Value.find : Value → List String → Option Value
  | v, [] => some v
  | .object ms, key :: path => (ms.lookup key).bind (·.find path)
  | _, _ :: _ => none

theorem find_key (ms : List (String × Value)) (key : String) : (Value.object ms).find [key] = ms.lookup key := by
  rw [Value.find]
  cases ms.lookup key with
  | none => rfl
  | some v => cases v <;> rfl

/-- the value holds nothing on the path, nor anything in its way -/
def Value.passes : Value → List String → Bool
  | _, [] => false
  | .object ms, key :: path => match ms.lookup key with
    | none => true
    | some v => v.passes path
  | _, _ :: _ => false

def Value.isObject : Value → Bool
  | .object _ => true
  | _ => false

/-- the value, put under a path of keys -/
def nest : List String → Value → Value
  | [], v => v
  | key :: path, v => .object [(key, nest path v)]

theorem find_cons_of_not_object {v : Value} (h : v.isObject = false) (key : String) (path : List String) :
    v.find (key :: path) = none := by
  cases v with
  | object => cases h
  | _ => rfl

theorem passes_of_not_object {v : Value} (h : v.isObject = false) (path : List String) : v.passes path = false := by
  cases path with
  | nil => cases v <;> rfl
  | cons key path =>
    cases v with
    | object => cases h
    | _ => rfl

theorem find_of_passes {v : Value} {path : List String} (h : v.passes path = true) : v.find path = none := by
  induction path generalizing v with
  | nil => cases v <;> cases h
  | cons key path ih =>
    cases v with
    | object ms =>
      rw [Value.passes] at h
      rw [Value.find]
      cases hm : ms.lookup key with
      | none => rfl
      | some w =>
        rw [hm] at h
        exact ih h
    | _ => cases h

/-- nothing is in the way of a single key but a value under it -/
theorem passes_key {v : Value} (hv : v.isObject = true) {key : String} (h : v.find [key] = none) :
    v.passes [key] = true := by
  cases v with
  | object ms =>
    rw [find_key] at h
    rw [Value.passes, h]
  | _ => cases hv

/-- in the way of a second key may be a value under the first -/
theorem blocked_key {v : Value} (hv : v.isObject = true) {key key' : String} (h : v.find [key, key'] = none)
    (hpass : v.passes [key, key'] = false) : ∃ w, v.find [key] = some w ∧ w.isObject = false := by
  cases v with
  | object ms =>
    rw [find_key]
    rw [Value.find] at h
    rw [Value.passes] at hpass
    cases hw : ms.lookup key with
    | none =>
      rw [hw] at hpass
      cases hpass
    | some w =>
      rw [hw] at h hpass
      refine ⟨w, rfl, ?_⟩
      rw [← Bool.not_eq_true]
      intro hobject
      cases hpass.symm.trans (passes_key hobject h)
  | _ => cases hv

theorem find_nest_self (path : List String) (v : Value) : (nest path v).find path = some v := by
  induction path with
  | nil => cases v <;> rfl
  | cons key path ih =>
    rw [nest, Value.find, List.lookup_cons_self]
    exact ih

theorem passes_nest_self (path : List String) (v : Value) : (nest path v).passes path = false := by
  induction path with
  | nil => cases v <;> rfl
  | cons key path ih =>
    rw [nest, Value.passes, List.lookup_cons_self]
    exact ih

/-- a value put in elsewhere passes -/
theorem passes_nest {path other : List String} (h : ¬other <+: path) (h' : ¬path <+: other) (v : Value) :
    (nest other v).passes path = true := by
  induction other generalizing path with
  | nil => exact absurd (List.nil_prefix) h
  | cons key other ih =>
    cases path with
    | nil => exact absurd (List.nil_prefix) h'
    | cons key' path =>
      rw [nest, Value.passes]
      by_cases hkey : key' = key
      · subst hkey
        rw [List.lookup_cons_self]
        exact ih (fun hp => h (List.prefix_cons_inj _ |>.2 hp)) fun hp => h' (List.prefix_cons_inj _ |>.2 hp)
      · rw [List.lookup_cons, beq_false_of_ne hkey]
        rfl

/-- what is under a key, and no object, was put in there: a longer path leaves an object under its first key -/
theorem find_nest_key {path : List String} {key : String} {v w : Value} (hw : w.isObject = false) (hpath : path ≠ [])
    (h : (nest path v).find [key] = some w) : path = [key] ∧ v = w := by
  cases path with
  | nil => exact absurd rfl hpath
  | cons key' path =>
    rw [nest, find_key, List.lookup_cons] at h
    split at h
    · rename_i hkey
      cases path with
      | nil => exact ⟨by rw [eq_of_beq hkey], Option.some.inj h⟩
      | cons key'' path =>
        rw [← Option.some.inj h] at hw
        cases hw
    · cases h

/-! ## Merging -/

/-- a value over what was there before -/
def override (merge : Value → Value → Value) : Option Value → Value → Value
  | none, w => w
  | some v, w => merge v w

/-- what is in either, the second over the first -/
def overrideOpt (merge : Value → Value → Value) (earlier : Option Value) : Option Value → Option Value
  | none => earlier
  | some w => some (override merge earlier w)

/-- two objects are merged key by key; anything else is replaced -/
structure Overriding (merge : Value → Value → Value) : Prop where
  objects : ∀ a b, ∃ c, merge (.object a) (.object b) = .object c ∧
    ∀ key, c.lookup key = overrideOpt merge (a.lookup key) (b.lookup key)
  replaced : ∀ v w, v.isObject = false ∨ w.isObject = false → merge v w = w

section
variable {merge : Value → Value → Value}

theorem merge_not_object (h : Overriding merge) (v : Value) {w : Value} (hw : w.isObject = false) : merge v w = w :=
  h.replaced v w (.inr hw)

theorem override_not_object (h : Overriding merge) (o : Option Value) {w : Value} (hw : w.isObject = false) :
    override merge o w = w := by
  cases o with
  | none => rfl
  | some v => exact merge_not_object h v hw

theorem override_isObject (h : Overriding merge) (o : Option Value) {w : Value} (hw : w.isObject = true) :
    (override merge o w).isObject = true := by
  cases o with
  | none => exact hw
  | some v =>
    cases hv : v.isObject with
    | false => rwa [override, h.replaced v w (.inl hv)]
    | true =>
      cases v with
      | object a =>
        cases w with
        | object b =>
          obtain ⟨c, hc, -⟩ := h.objects a b
          rw [override, hc]
          rfl
        | _ => cases hw
      | _ => cases hv

/-- what a merge holds on a path -/
theorem find_merge (h : Overriding merge) (v w : Value) (path : List String) :
    (merge v w).find path =
      if w.passes path then v.find path else (w.find path).map (override merge (v.find path)) := by
  induction path generalizing v w with
  | nil =>
    have hfind : ∀ u : Value, u.find [] = some u := fun u => by cases u <;> rfl
    have hpass : w.passes [] = false := by cases w <;> rfl
    rw [hpass, hfind, hfind, hfind]
    rfl
  | cons key path ih =>
    cases hw : w.isObject with
    | false =>
      rw [merge_not_object h v hw, passes_of_not_object hw, find_cons_of_not_object hw]
      rfl
    | true =>
      cases hv : v.isObject with
      | false =>
        rw [h.replaced v w (.inl hv), find_cons_of_not_object hv]
        split_ifs with hpass
        · exact find_of_passes hpass
        · cases w.find (key :: path) <;> rfl
      | true =>
        cases v with
        | object a =>
          cases w with
          | object b =>
            obtain ⟨c, hc, hlook⟩ := h.objects a b
            rw [hc, Value.find, Value.passes, Value.find, Value.find, hlook]
            cases hb : b.lookup key with
            | none => rfl
            | some y =>
              cases ha : a.lookup key with
              | none =>
                show y.find path = if y.passes path then none else (y.find path).map (override merge none)
                split_ifs with hpass
                · exact find_of_passes hpass
                · cases y.find path <;> rfl
              | some x => exact ih x y
          | _ => cases hw
        | _ => cases hv

theorem find_merge_none (h : Overriding merge) {v w : Value} {path : List String} :
    (merge v w).find path = none ↔ w.find path = none ∧ (w.passes path = true → v.find path = none) := by
  rw [find_merge h]
  split_ifs with hpass
  · exact ⟨fun hv => ⟨find_of_passes hpass, fun _ => hv⟩, fun hx => hx.2 hpass⟩
  · rw [Option.map_eq_none_iff]
    exact ⟨fun hw => ⟨hw, fun hp => absurd hp hpass⟩, And.left⟩

/-- under a key the merge depends on what the second object has there, and on nothing else of it -/
theorem find_merge_key (h : Overriding merge) (v : Value) {w w' : Value} {key : String} (hw : w.isObject = true)
    (hw' : w'.isObject = true) (hsame : w'.find [key] = w.find [key]) :
    (merge v w').find [key] = (merge v w).find [key] := by
  have hpass : w'.passes [key] = w.passes [key] := by
    cases hfind : w.find [key] with
    | none => rw [passes_key hw hfind, passes_key hw' (hsame.trans hfind)]
    | some u =>
      have hblocked : ∀ w : Value, w.find [key] = some u → w.passes [key] = false := by
        intro w hu
        by_contra hp
        rw [find_of_passes (Bool.eq_true_of_not_eq_false hp)] at hu
        cases hu
      rw [hblocked w hfind, hblocked w' (hsame.trans hfind)]
  rw [find_merge h, find_merge h, hpass, hsame]

/-- what a merge holds on a path, and is no object, is from the later layer, or passed by it and from the earlier one -/
theorem find_merge_scalar (h : Overriding merge) {v w u : Value} {path : List String} (hu : u.isObject = false) :
    (merge v w).find path = some u ↔ w.find path = some u ∨ w.passes path = true ∧ v.find path = some u := by
  rw [find_merge h]
  split_ifs with hpass
  · rw [find_of_passes hpass]
    simp [hpass]
  · rw [Option.map_eq_some_iff]
    refine ⟨?_, ?_⟩
    · intro hx
      obtain ⟨x, hx, hover⟩ := hx
      have hscalar : x.isObject = false := by
        rw [← Bool.not_eq_true]
        intro hobject
        rw [← hover, override_isObject h _ hobject] at hu
        cases hu
      rw [override_not_object h _ hscalar] at hover
      exact .inl (hover ▸ hx)
    · intro hx
      rcases hx with hx | ⟨hp, -⟩
      · exact ⟨u, hx, override_not_object h _ hu⟩
      · exact absurd hp hpass

/-! ## Overlays -/

/-- what each element stands for, put in over what was there before -/
def overlay (merge : Value → Value → Value) (entry : α → Option (List String × Value)) (xs : List α) (base : Value) :
    Value :=
  xs.foldl (fun layer x => match entry x with
    | none => layer
    | some e => merge layer (nest e.1 e.2)) base

variable {entry : α → Option (List String × Value)} {xs : List α} {path : List String} {base : Value}

/-- on a path, the elements that pass it make no difference -/
theorem find_overlay_filter (h : Overriding merge) {keep : α → Bool}
    (hpass : ∀ x ∈ xs, keep x = false → ∀ e, entry x = some e → (nest e.1 e.2).passes path = true) {base' : Value}
    (hbase : base.find path = base'.find path) :
    (overlay merge entry xs base).find path = (overlay merge entry (xs.filter keep) base').find path := by
  induction xs generalizing base base' with
  | nil => exact hbase
  | cons x xs ih =>
    obtain ⟨hx, hrest⟩ := List.forall_mem_cons.1 hpass
    rw [overlay, List.foldl_cons]
    cases hkeep : keep x with
    | false =>
      rw [List.filter_cons_of_neg (by rw [hkeep]; exact Bool.false_ne_true)]
      cases he : entry x with
      | none => exact ih hrest hbase
      | some e =>
        refine ih hrest ?_
        rw [find_merge h, if_pos (hx hkeep e he), hbase]
    | true =>
      rw [List.filter_cons_of_pos hkeep, overlay, List.foldl_cons]
      cases he : entry x with
      | none => exact ih hrest hbase
      | some e =>
        refine ih hrest ?_
        rw [find_merge h, find_merge h, hbase]

/-- what is put in by the last element that does not pass the path -/
def lastWord (entry : α → Option (List String × Value)) (path : List String) (xs : List α) : Option Value :=
  (xs.reverse.filterMap fun x => (entry x).map fun e => nest e.1 e.2).find? fun w => !w.passes path

theorem lastWord_eq_none : lastWord entry path xs = none ↔
    ∀ x ∈ xs, ∀ e, entry x = some e → (nest e.1 e.2).passes path = true := by
  rw [lastWord, List.find?_eq_none]
  refine ⟨?_, ?_⟩
  · intro hall x hx e he
    have hmem : nest e.1 e.2 ∈ xs.reverse.filterMap fun x => (entry x).map fun e => nest e.1 e.2 :=
      List.mem_filterMap.2 ⟨x, List.mem_reverse.2 hx, by rw [he]; rfl⟩
    simpa using hall _ hmem
  · intro hall w hw
    obtain ⟨x, hx, hnest⟩ := List.mem_filterMap.1 hw
    obtain ⟨e, he, rfl⟩ := Option.map_eq_some_iff.1 hnest
    simpa using hall x (List.mem_reverse.1 hx) e he

theorem lastWord_eq_some {w : Value} (h : lastWord entry path xs = some w) :
    ∃ x ∈ xs, ∃ e, entry x = some e ∧ nest e.1 e.2 = w ∧ w.passes path = false := by
  obtain ⟨x, hx, hput⟩ := List.mem_filterMap.1 (List.mem_of_find?_eq_some h)
  obtain ⟨e, he, hnest⟩ := Option.map_eq_some_iff.1 hput
  exact ⟨x, List.mem_reverse.1 hx, e, he, hnest, by simpa using List.find?_some h⟩

/-- what is found on a path is what the last element that does not pass it put in there, over something earlier -/
theorem find_overlay_last (h : Overriding merge) (xs : List α) (base : Value) :
    (lastWord entry path xs = none → (overlay merge entry xs base).find path = base.find path) ∧
      ∀ w, lastWord entry path xs = some w →
        ∃ earlier, (overlay merge entry xs base).find path = (w.find path).map (override merge earlier) := by
  induction xs using List.reverseRecOn with
  | nil => exact ⟨fun _ => rfl, fun w hw => by cases hw⟩
  | append_singleton xs x ih =>
    rw [lastWord, overlay, List.foldl_append, List.foldl_cons, List.foldl_nil, List.reverse_append,
      List.reverse_singleton, List.singleton_append, List.filterMap_cons]
    cases he : entry x with
    | none => exact ih
    | some e =>
      dsimp only [Option.map_some]
      rw [find_merge h, List.find?_cons]
      cases hpass : (nest e.1 e.2).passes path with
      | true => exact ih
      | false =>
        refine ⟨fun hlast => ?_, fun w hlast => ?_⟩
        · cases hlast
        · cases hlast
          exact ⟨_, rfl⟩

theorem overlay_isObject (h : Overriding merge) (hpath : ∀ x ∈ xs, ∀ e, entry x = some e → e.1 ≠ [])
    (hbase : base.isObject = true) : (overlay merge entry xs base).isObject = true := by
  induction xs generalizing base with
  | nil => exact hbase
  | cons x xs ih =>
    obtain ⟨hx, hrest⟩ := List.forall_mem_cons.1 hpath
    rw [overlay, List.foldl_cons]
    refine ih hrest ?_
    cases he : entry x with
    | none => exact hbase
    | some e =>
      have hobject : (nest e.1 e.2).isObject = true := by
        cases hp : e.1 with
        | nil => exact absurd hp (hx e he)
        | cons key path => rfl
      exact override_isObject h (some base) hobject

/-- what is under a key, and no object, was there before or was put in under that key -/
theorem overlay_single (h : Overriding merge) (hpath : ∀ x ∈ xs, ∀ e, entry x = some e → e.1 ≠ []) {key : String}
    {v : Value} (hv : v.isObject = false) (hfind : (overlay merge entry xs base).find [key] = some v) :
    base.find [key] = some v ∨ ∃ x ∈ xs, entry x = some ([key], v) := by
  induction xs generalizing base with
  | nil => exact .inl hfind
  | cons x xs ih =>
    obtain ⟨hx, hrest⟩ := List.forall_mem_cons.1 hpath
    rw [overlay, List.foldl_cons] at hfind
    rcases ih hrest hfind with hbase | ⟨y, hy, he⟩
    swap
    · exact .inr ⟨y, List.mem_cons_of_mem x hy, he⟩
    cases he : entry x with
    | none =>
      rw [he] at hbase
      exact .inl hbase
    | some e =>
      rw [he] at hbase
      rcases (find_merge_scalar h hv).1 hbase with hw | ⟨-, hbase⟩
      swap
      · exact .inl hbase
      · obtain ⟨hkey, hvalue⟩ := find_nest_key hv (hx e he) hw
        exact .inr ⟨x, List.mem_cons_self, by rw [he, ← hkey, ← hvalue]⟩

end

/-! ## A merge -/

mutual

def merge : Value → Value → Value
  | .object a, .object b => .object (mergeMembers a b ++ b.filter fun m => (a.lookup m.1).isNone)
  | _, w => w

/-- the members of the first, each with what the second has over it -/
def mergeMembers : List (String × Value) → List (String × Value) → List (String × Value)
  | [], _ => []
  | (key, v) :: a, b =>
    (key, match b.lookup key with
      | none => v
      | some w => merge v w) :: mergeMembers a b

end

theorem lookup_mergeMembers (a b : List (String × Value)) (key : String) :
    (mergeMembers a b).lookup key = (a.lookup key).map fun v => (b.lookup key).elim v (merge v) := by
  induction a with
  | nil => rfl
  | cons m a ih =>
    obtain ⟨key', v⟩ := m
    rw [mergeMembers, List.lookup_cons, List.lookup_cons]
    by_cases hkey : key = key'
    · subst hkey
      rw [beq_self_eq_true]
      cases b.lookup key <;> rfl
    · rw [beq_false_of_ne hkey]
      exact ih

theorem merge_overriding : Overriding merge where
  objects a b := by
    refine ⟨_, by rw [merge], fun key => ?_⟩
    rw [List.lookup_append, lookup_mergeMembers]
    cases ha : a.lookup key with
    | none =>
      rw [lookup_filter (p := fun key => (a.lookup key).isNone) (by rw [ha]; rfl)]
      cases b.lookup key <;> rfl
    | some v => cases b.lookup key <;> rfl
  replaced v w h := by
    rcases h with h | h
    · cases v with
      | object => cases h
      | _ => rw [merge]; simp
    · cases w with
      | object => cases h
      | _ => cases v <;> rfl

end Core.Json
