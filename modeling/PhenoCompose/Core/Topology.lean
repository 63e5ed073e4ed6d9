/-
Lists that put dependencies first.

`Before l a b`: `a` occurs before `b` in `l`. `DepsFirst dep l`: everything an element of `l` depends on occurs before it.

Results: `DepsFirst.concat` (how such a list grows), `DepsFirst.before_of_trans` (transitive dependencies come first too),
`DepsFirst.acyclic` (nothing in such a list depends on itself), `Before.reverse` and `Before.filterMap` (what survives a
reversal or a selection), `Before.mem_front` (what has been gone through when an element's turn comes),
`DepsFirst.of_front` (stopping early keeps dependencies first).
-/
import Mathlib

namespace Core.Topology

open Relation

variable {α β : Type} {dep : α → α → Prop} {l l' : List α} {a b c : α}

def Before (l : List α) (a b : α) : Prop := [a, b].Sublist l

theorem Before.mono (h : Before l a b) (hl : l.Sublist l') : Before l' a b := h.trans hl

theorem Before.left_mem (h : Before l a b) : a ∈ l := h.subset (by simp)

theorem Before.reverse (h : Before l a b) : Before l.reverse b a := by
  have := List.Sublist.reverse h
  simpa [Before] using this

theorem Before.filterMap {f : α → Option β} {x y : β} (h : Before l a b) (ha : f a = some x) (hb : f b = some y) :
    Before (l.filterMap f) x y := by
  have := List.Sublist.filterMap f h
  simpa [Before, ha, hb] using this

theorem before_append (ha : a ∈ l) (hb : b ∈ l') : Before (l ++ l') a b :=
  List.Sublist.append (List.singleton_sublist.2 ha) (List.singleton_sublist.2 hb)

/-- without repetitions, coming before is having the smaller index -/
theorem before_iff_idxOf [DecidableEq α] (hl : l.Nodup) : Before l a b ↔ b ∈ l ∧ l.idxOf a < l.idxOf b := by
  unfold Before
  induction l with
  | nil => simp
  | cons x l ih =>
    obtain ⟨hx, hl⟩ := List.nodup_cons.1 hl
    by_cases hax : x = a
    · subst hax
      rw [List.cons_sublist_cons, List.singleton_sublist, List.idxOf_cons_self, List.mem_cons]
      refine ⟨?_, ?_⟩
      · intro hb
        have hne : x ≠ b := fun e => hx (e ▸ hb)
        rw [List.idxOf_cons_ne _ hne]
        exact ⟨.inr hb, Nat.succ_pos _⟩
      · intro hx
        rcases hx with ⟨rfl | hb, hlt⟩
        · simp at hlt
        · exact hb
    · have hskip : [a, b].Sublist (x :: l) ↔ [a, b].Sublist l := by
        rw [List.sublist_cons_iff]
        refine or_iff_left ?_
        intro hx
        obtain ⟨r, hr, -⟩ := hx
        exact hax (List.cons.inj hr).1.symm
      rw [hskip, ih hl, List.idxOf_cons_ne _ hax, List.mem_cons]
      by_cases hxb : x = b
      · subst hxb; simp [hx]
      · simp [List.idxOf_cons_ne _ hxb, Ne.symm hxb]

theorem Before.trans (hl : l.Nodup) (h₁ : Before l a b) (h₂ : Before l b c) : Before l a c := by
  classical
  rw [before_iff_idxOf hl] at h₁ h₂ ⊢
  exact ⟨h₂.1, h₁.2.trans h₂.2⟩

theorem Before.irrefl (hl : l.Nodup) : ¬Before l a a := by
  classical
  rw [before_iff_idxOf hl]
  exact fun h => lt_irrefl _ h.2

/-- what comes before an element stands in the part of the list that ends there -/
theorem Before.mem_front {xs ys : List α} (hl : (xs ++ b :: ys).Nodup) (h : Before (xs ++ b :: ys) a b) : a ∈ xs := by
  have hafter : ∀ c ∈ b :: ys, Before (xs ++ b :: ys) b c ∨ b = c := by
    intro c hc
    rcases List.mem_cons.1 hc with rfl | hc
    · exact .inr rfl
    · have hb : Before (b :: ys) b c := (List.singleton_sublist.2 hc).cons_cons b
      exact .inl (hb.mono (List.sublist_append_right xs (b :: ys)))
  rcases List.mem_append.1 h.left_mem with ha | ha
  · exact ha
  · rcases hafter a ha with hba | rfl
    · exact absurd (hba.trans hl h) (Before.irrefl hl)
    · exact absurd h (Before.irrefl hl)

/-- what comes before an element of a front part does so within that part -/
theorem Before.of_front {xs ys : List α} (hl : (xs ++ ys).Nodup) (hb : b ∈ xs) (h : Before (xs ++ ys) a b) :
    Before xs a b := by
  obtain ⟨front, back, rfl⟩ := List.append_of_mem hb
  rw [List.append_assoc, List.cons_append] at h hl
  exact before_append (h.mem_front hl) List.mem_cons_self

/-- what comes before is among the elements, when their keys are distinct -/
theorem Before.of_map {f : α → β} (hl : (l.map f).Nodup) (ha : a ∈ l) (hb : b ∈ l)
    (h : Before (l.map f) (f a) (f b)) : Before l a b := by
  obtain ⟨pair, hsub, hpair⟩ := List.sublist_map_iff.1 h
  obtain ⟨x, rest, rfl, hx, hrest⟩ := List.map_eq_cons_iff.1 hpair.symm
  obtain ⟨y, rest', rfl, hy, hnil⟩ := List.map_eq_cons_iff.1 hrest
  obtain rfl := List.map_eq_nil_iff.1 hnil
  have hinj := List.inj_on_of_nodup_map hl
  obtain rfl := hinj (hsub.subset List.mem_cons_self) ha hx
  obtain rfl := hinj (hsub.subset (List.mem_cons_of_mem _ List.mem_cons_self)) hb hy
  exact hsub

/-- everything an element depends on occurs before it -/
def DepsFirst (dep : α → α → Prop) (l : List α) : Prop := ∀ a ∈ l, ∀ b, dep a b → Before l b a

theorem DepsFirst.nil : DepsFirst dep [] := fun _ h => nomatch h

theorem DepsFirst.concat (h : DepsFirst dep l) (ha : ∀ b, dep a b → b ∈ l) : DepsFirst dep (l ++ [a]) := by
  intro x hx b hb
  rcases List.mem_append.1 hx with hx | hx
  · exact (h x hx b hb).mono (List.sublist_append_left l [a])
  · obtain rfl : x = a := by simpa using hx
    exact before_append (ha b hb) (by simp)

theorem DepsFirst.of_front {xs ys : List α} (hl : (xs ++ ys).Nodup) (h : DepsFirst dep (xs ++ ys)) : DepsFirst dep xs :=
  fun a ha b hab => (h a (List.mem_append_left ys ha) b hab).of_front hl ha

theorem DepsFirst.before_of_trans (h : DepsFirst dep l) (hl : l.Nodup) (ha : a ∈ l) (hab : TransGen dep a b) :
    Before l b a := by
  induction hab with
  | single hb => exact h a ha _ hb
  | tail _ hc ih => exact (h _ ih.left_mem _ hc).trans hl ih

theorem DepsFirst.acyclic (h : DepsFirst dep l) (hl : l.Nodup) (ha : a ∈ l) : ¬TransGen dep a a :=
  fun hc => (h.before_of_trans hl ha hc).irrefl hl

end Core.Topology
