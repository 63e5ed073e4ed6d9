/-
Maps keyed by what an address is rendered to.

What is meant is a map from addresses; what is built is keyed by `key address` and keeps the address with the value, so
that addresses with one key share an entry. Both are functions of the updates made so far, the most recent first.

- `rendered_eq_stored`, `intended_eq_stored`: an entry is what the last update at its key stored, a value what the last
  update of its address did.
- `rendered_agrees_iff`: the two answer an address alike exactly when it is not `Crossed` by an update of another.
- `putsSinceDelete`, `Interrupted`: what a counter kept with an entry counts, and when it starts again.
- `stored_iff_live`: an address is listed when it holds a value, unless it is crossed.
-/
import Mathlib

namespace Core.Rendered

variable {A K V : Type}

inductive Update (A V : Type) where
  | put (address : A) (value : V)
  | delete (address : A)
deriving DecidableEq, Repr

namespace Update

def address : Update A V → A
  | .put a _ | .delete a => a

/-- what an update leaves under its key -/
def stored : Update A V → Option (A × V)
  | .put a v => some (a, v)
  | .delete _ => none

theorem stored_address {u : Update A V} {e : A × V} (h : u.stored = some e) : u.address = e.1 := by
  cases u with
  | put a v => cases h; rfl
  | delete a => cases h

end Update

section
variable [DecidableEq K] (key : A → K)

/-- the map that is built -/
def rendered : List (Update A V) → K → Option (A × V)
  | [], _ => none
  | .put a v :: updates, k => if key a = k then some (a, v) else rendered updates k
  | .delete a :: updates, k => if key a = k then none else rendered updates k

/-- the last update under a key -/
def lastAt (updates : List (Update A V)) (k : K) : Option (Update A V) := updates.find? fun u => key u.address = k

theorem rendered_eq_stored (updates : List (Update A V)) (k : K) :
    rendered key updates k = (lastAt key updates k).bind Update.stored := by
  induction updates with
  | nil => rfl
  | cons u updates ih =>
    cases u with
    | put a v =>
      rw [rendered, lastAt, List.find?_cons]
      by_cases hk : key a = k
      · simp [hk, Update.address, Update.stored]
      · simp [hk, Update.address, ih, lastAt]
    | delete a =>
      rw [rendered, lastAt, List.find?_cons]
      by_cases hk : key a = k
      · simp [hk, Update.address, Update.stored]
      · simp [hk, Update.address, ih, lastAt]

theorem lastAt_key {updates : List (Update A V)} {k : K} {u : Update A V} (h : lastAt key updates k = some u) :
    key u.address = k := by
  simpa using List.find?_some h

/-- an entry is kept under the key of the address it is of -/
theorem rendered_key {updates : List (Update A V)} {k : K} {e : A × V} (h : rendered key updates k = some e) :
    key e.1 = k := by
  rw [rendered_eq_stored] at h
  obtain ⟨u, hu, he⟩ := Option.bind_eq_some_iff.1 h
  rw [← Update.stored_address he]
  exact lastAt_key key hu

/-- how many values have been put under a key since the last delete there -/
def putsSinceDelete : List (Update A V) → K → ℕ
  | [], _ => 0
  | .put a _ :: updates, k => if key a = k then putsSinceDelete updates k + 1 else putsSinceDelete updates k
  | .delete a :: updates, k => if key a = k then 0 else putsSinceDelete updates k

/-- a delete under the key of `a` came after a put of `a` -/
def Interrupted (a : A) : List (Update A V) → Prop
  | [] => False
  | .put _ _ :: updates => Interrupted a updates
  | .delete b :: updates => Interrupted a updates ∨ (key b = key a ∧ ∃ v, .put a v ∈ updates)

end

variable [DecidableEq A]

/-- the map that is meant -/
def intended : List (Update A V) → A → Option V
  | [], _ => none
  | .put a v :: updates, x => if a = x then some v else intended updates x
  | .delete a :: updates, x => if a = x then none else intended updates x

theorem intended_eq_stored (updates : List (Update A V)) (a : A) :
    intended updates a = ((updates.find? fun u => u.address = a).bind Update.stored).map Prod.snd := by
  induction updates with
  | nil => rfl
  | cons u updates ih =>
    cases u with
    | put b v =>
      rw [intended, List.find?_cons]
      by_cases hb : b = a
      · simp [hb, Update.address, Update.stored]
      · simp [hb, Update.address, ih]
    | delete b =>
      rw [intended, List.find?_cons]
      by_cases hb : b = a
      · simp [hb, Update.address, Update.stored]
      · simp [hb, Update.address, ih]

variable [DecidableEq K] (key : A → K)

/-- the last update under the key of `a` was of another address, and it put a value there or took that of `a` away -/
def Crossed (updates : List (Update A V)) (a : A) : Prop :=
  ∃ u, lastAt key updates (key a) = some u ∧ u.address ≠ a ∧ (u.stored ≠ none ∨ intended updates a ≠ none)

/-- where the last update under the key of `a` was of `a` itself, it was the last of `a` -/
theorem find?_of_lastAt {updates : List (Update A V)} {a : A} {u : Update A V}
    (h : lastAt key updates (key a) = some u) (hu : u.address = a) :
    (updates.find? fun u => u.address = a) = some u := by
  induction updates with
  | nil => cases h
  | cons w updates ih =>
    rw [lastAt, List.find?_cons] at h
    rw [List.find?_cons]
    by_cases hw : key w.address = key a
    · simp only [hw, decide_true, Option.some.injEq] at h
      subst h
      simp [hu]
    · have hne : w.address ≠ a := fun e => hw (by rw [e])
      simp only [hw, decide_false] at h
      simp only [hne, decide_false]
      exact ih h

theorem intended_none_of_lastAt_none {updates : List (Update A V)} {a : A} (h : lastAt key updates (key a) = none) :
    intended updates a = none := by
  have hfind : (updates.find? fun u => u.address = a) = none := by
    rw [lastAt, List.find?_eq_none] at h
    rw [List.find?_eq_none]
    intro u hu
    have := h u hu
    simp only [decide_eq_true_eq] at this ⊢
    exact fun e => this (by rw [e])
  rw [intended_eq_stored, hfind]
  rfl

/-- **The two maps answer an address alike** exactly when no other address has crossed it. -/
theorem rendered_agrees_iff (updates : List (Update A V)) (a : A) :
    rendered key updates (key a) = (intended updates a).map (a, ·) ↔ ¬Crossed key updates a := by
  rw [rendered_eq_stored]
  cases hlast : lastAt key updates (key a) with
  | none =>
    rw [intended_none_of_lastAt_none key hlast]
    refine ⟨?_, ?_⟩
    · intro _ hcrossed
      obtain ⟨u, hu, -⟩ := hcrossed
      rw [hlast] at hu
      cases hu
    · exact fun _ => rfl
  | some u =>
    by_cases hu : u.address = a
    · have hown : intended updates a = u.stored.map Prod.snd := by
        rw [intended_eq_stored, find?_of_lastAt key hlast hu]
        rfl
      refine ⟨?_, ?_⟩
      · intro _ hcrossed
        obtain ⟨w, hw, hne, -⟩ := hcrossed
        rw [hlast] at hw
        exact hne (Option.some.inj hw ▸ hu)
      · intro _
        rw [hown, Option.bind_some]
        cases hs : u.stored with
        | none => rfl
        | some e =>
          obtain ⟨b, v⟩ := e
          obtain rfl : b = a := (Update.stored_address hs).symm.trans hu
          rfl
    · rw [Option.bind_some]
      refine ⟨?_, ?_⟩
      · intro he hcrossed
        obtain ⟨w, hw, -, hchanged⟩ := hcrossed
        rw [hlast] at hw
        obtain rfl := Option.some.inj hw
        cases hi : intended updates a with
        | none =>
          rw [hi] at he hchanged
          exact hchanged.elim (fun h => h he) (fun h => h rfl)
        | some v =>
          rw [hi] at he
          exact hu (Update.stored_address he)
      · intro hclear
        have hkept : u.stored = none ∧ intended updates a = none := by
          by_contra hnot
          rw [not_and_or] at hnot
          exact hclear ⟨u, hlast, hu, hnot⟩
        rw [hkept.1, hkept.2]
        rfl

/-- the addresses that are listed are those that hold a value, less those that are crossed -/
theorem stored_iff_live (updates : List (Update A V)) (a : A) :
    (∃ v, rendered key updates (key a) = some (a, v)) ↔ intended updates a ≠ none ∧ ¬Crossed key updates a := by
  refine ⟨?_, ?_⟩
  · intro h
    obtain ⟨v, hv⟩ := h
    rw [rendered_eq_stored] at hv
    obtain ⟨u, hu, he⟩ := Option.bind_eq_some_iff.1 hv
    have hown := Update.stored_address he
    refine ⟨?_, ?_⟩
    · rw [intended_eq_stored, find?_of_lastAt key hu hown, Option.bind_some, he]
      exact Option.some_ne_none v
    · intro hcrossed
      obtain ⟨w, hw, hne, -⟩ := hcrossed
      rw [hu] at hw
      exact hne (Option.some.inj hw ▸ hown)
  · intro h
    obtain ⟨hlive, hclear⟩ := h
    obtain ⟨v, hv⟩ := Option.ne_none_iff_exists'.1 hlive
    refine ⟨v, ?_⟩
    rw [(rendered_agrees_iff key updates a).2 hclear, hv]
    rfl

end Core.Rendered
