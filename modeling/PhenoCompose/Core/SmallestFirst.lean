/-
Orders with dependencies first, and which of them always take the smallest element that could come next.

`SmallestFirst dep l`: each element of `l` is the smallest of the elements not yet listed whose dependencies are. `Staged`: an
order with dependencies first in which `sooner` elements come first, as a depth-first search leaves it, one root after the
other.

Results, for a staged order in which two elements of the same stage always depend on each other (`Chained`):
- `Staged.unique`: it is the only one of its elements;
- `Staged.smallest_first_iff`: it takes the smallest element first exactly when `Covered` holds: a smaller element of a later
  stage is held back by something it needs.
-/
import PhenoCompose.Core.Topology

namespace Core.Topology

open Relation

variable {α : Type} {dep sooner : α → α → Prop} {l l' : List α} {x y z : α}

/-- everything `x` depends on is done -/
def Ready (dep : α → α → Prop) (done : List α) (x : α) : Prop := ∀ d, dep x d → d ∈ done

/-- each element is the smallest of those not yet listed that are ready -/
def SmallestFirst [LE α] (dep : α → α → Prop) (l : List α) : Prop :=
  ∀ front x back, l = front ++ x :: back → Ready dep front x ∧ ∀ y ∈ x :: back, Ready dep front y → x ≤ y

structure Staged (dep sooner : α → α → Prop) (l : List α) : Prop where
  nodup : l.Nodup
  deps_first : DepsFirst dep l
  sooner_first : ∀ x ∈ l, ∀ y ∈ l, sooner x y → Before l x y

/-- two elements of the same stage depend on each other, one way or the other -/
def Chained (dep sooner : α → α → Prop) (l : List α) : Prop :=
  ∀ x ∈ l, ∀ y ∈ l, x ≠ y → ¬sooner x y → ¬sooner y x → TransGen dep x y ∨ TransGen dep y x

/-- a smaller element of a later stage needs the greater one, or something of a later stage than that -/
def Covered [LT α] (dep sooner : α → α → Prop) (l : List α) : Prop :=
  ∀ x ∈ l, ∀ y ∈ l, sooner x y → y < x → TransGen dep y x ∨ ∃ z, TransGen dep y z ∧ sooner x z

theorem before_asymm (hl : l.Nodup) (h : Before l x y) : ¬Before l y x := fun h' => (h.trans hl h').irrefl hl

theorem before_of_split {front back : List α} (hy : y ∈ back) : Before (front ++ x :: back) x y := by
  have h : Before (x :: back) x y := (List.singleton_sublist.2 hy).cons_cons x
  exact h.mono (List.sublist_append_right front (x :: back))

/-- what a ready element needs, however far, is done -/
theorem Ready.trans {front : List α} (hfront : DepsFirst dep front) (h : Ready dep front y) (hz : TransGen dep y z) :
    z ∈ front := by
  induction hz with
  | single hd => exact h _ hd
  | tail _ hd ih => exact (hfront _ ih _ hd).left_mem

/-! ## Uniqueness -/

/-- of two elements, the one that comes first does so in every staged order -/
theorem Staged.before_same (h : Staged dep sooner l) (h' : Staged dep sooner l') (hperm : l.Perm l')
    (hchained : Chained dep sooner l) (hxy : Before l x y) : Before l' x y := by
  have hx : x ∈ l := hxy.left_mem
  have hy : y ∈ l := hxy.subset (by simp)
  have hne : x ≠ y := by
    rintro rfl
    exact hxy.irrefl h.nodup
  by_cases hsooner : sooner x y
  · exact h'.sooner_first x (hperm.subset hx) y (hperm.subset hy) hsooner
  · have hlater : ¬sooner y x := fun hyx => before_asymm h.nodup hxy (h.sooner_first y hy x hx hyx)
    rcases hchained x hx y hy hne hsooner hlater with hdep | hdep
    · exact absurd (h.deps_first.before_of_trans h.nodup hx hdep) (before_asymm h.nodup hxy)
    · exact h'.deps_first.before_of_trans h'.nodup (hperm.subset hy) hdep

theorem Staged.unique (h : Staged dep sooner l) (h' : Staged dep sooner l') (hperm : l.Perm l')
    (hchained : Chained dep sooner l) : l = l' := by
  have hl : l.Pairwise (Before l') :=
    List.pairwise_iff_forall_sublist.2 fun hxy => h.before_same h' hperm hchained hxy
  have hl' : l'.Pairwise (Before l') := List.pairwise_iff_forall_sublist.2 fun hxy => hxy
  exact hperm.eq_of_pairwise (fun x y _ _ hxy hyx => absurd hyx (before_asymm h'.nodup hxy)) hl hl'

/-! ## The smallest first -/

variable [LinearOrder α]

theorem Staged.smallest_first (h : Staged dep sooner l) (hchained : Chained dep sooner l)
    (hcovered : Covered dep sooner l) : SmallestFirst dep l := by
  rintro front x back rfl
  have hx : x ∈ front ++ x :: back := List.mem_append_right _ List.mem_cons_self
  have hfront : DepsFirst dep front := h.deps_first.of_front h.nodup
  have hnot : x ∉ front := fun hm => (before_append hm List.mem_cons_self).irrefl h.nodup
  refine ⟨fun d hd => (h.deps_first x hx d hd).mem_front h.nodup, ?_⟩
  intro y hy hready
  rcases List.mem_cons.1 hy with rfl | hback
  · exact le_rfl
  have hyl : y ∈ front ++ x :: back := List.mem_append_right _ hy
  have hxy : Before (front ++ x :: back) x y := before_of_split hback
  by_contra hlt
  by_cases hsooner : sooner x y
  · rcases hcovered x hx y hyl hsooner (not_le.1 hlt) with hdep | ⟨z, hdep, hxz⟩
    · exact hnot (hready.trans hfront hdep)
    · -- what holds `y` back is done, though it belongs to a later stage than `x`
      have hz : z ∈ front := hready.trans hfront hdep
      have hzx : Before (front ++ x :: back) z x := before_append hz List.mem_cons_self
      exact before_asymm h.nodup hzx (h.sooner_first x hx z (List.mem_append_left _ hz) hxz)
  · have hlater : ¬sooner y x := fun hyx => before_asymm h.nodup hxy (h.sooner_first y hyl x hx hyx)
    have hne : x ≠ y := by
      rintro rfl
      exact hxy.irrefl h.nodup
    rcases hchained x hx y hyl hne hsooner hlater with hdep | hdep
    · exact before_asymm h.nodup hxy (h.deps_first.before_of_trans h.nodup hx hdep)
    · exact hnot (hready.trans hfront hdep)

/-- the first element after `x` among `y` and what it needs is ready when `x` is listed, so `x` is the smaller -/
theorem Staged.covered (h : Staged dep sooner l) (hchained : Chained dep sooner l) (hsmallest : SmallestFirst dep l) :
    Covered dep sooner l := by
  classical
  intro x hx y hy hsooner hlt
  by_contra hnone
  rw [not_or] at hnone
  obtain ⟨hfree, hlater⟩ := hnone
  have hxy : Before l x y := h.sooner_first x hx y hy hsooner
  obtain ⟨front, back, rfl⟩ := List.append_of_mem hx
  have hback : y ∈ back := by
    rcases List.mem_append.1 hy with hm | hm
    · exact absurd (before_append hm List.mem_cons_self) (before_asymm h.nodup hxy)
    · exact (List.mem_cons.1 hm).resolve_left hlt.ne
  obtain ⟨z, hfind⟩ : ∃ z, back.find? (fun z => z = y ∨ TransGen dep y z) = some z :=
    Option.isSome_iff_exists.1 (List.find?_isSome.2 ⟨y, hback, by simp⟩)
  obtain ⟨hz, before, after, rfl, hbefore⟩ := List.find?_eq_some_iff_append.1 hfind
  rw [decide_eq_true_eq] at hz
  have hzl : z ∈ front ++ x :: (before ++ z :: after) := by simp
  have hready : Ready dep front z := by
    intro d hd
    have hneeded : TransGen dep y d := by
      rcases hz with rfl | hz
      · exact .single hd
      · exact hz.tail hd
    have hfirst : d ∈ front ++ x :: before := by
      have hnodup : (front ++ x :: before ++ z :: after).Nodup := by simpa using h.nodup
      exact Before.mem_front hnodup (by simpa using h.deps_first z hzl d hd)
    rcases List.mem_append.1 hfirst with hm | hm
    · exact hm
    · rcases List.mem_cons.1 hm with rfl | hm
      · exact absurd hneeded hfree
      · have hskipped := hbefore d hm
        rw [Bool.not_eq_true', decide_eq_false_iff_not, not_or] at hskipped
        exact absurd hneeded hskipped.2
  have hxz : x ≤ z := (hsmallest front x _ rfl).2 z (by simp) hready
  have hneeds : TransGen dep y z := hz.resolve_left fun e => absurd (e ▸ hxz) (not_le.2 hlt)
  have hbeforez : Before (front ++ x :: (before ++ z :: after)) x z := before_of_split (by simp)
  have hne : x ≠ z := by
    rintro rfl
    exact hbeforez.irrefl h.nodup
  have hnotsooner : ¬sooner x z := fun hs => hlater ⟨z, hneeds, hs⟩
  have hnotlater : ¬sooner z x := fun hs => before_asymm h.nodup hbeforez (h.sooner_first z hzl x hx hs)
  rcases hchained x hx z hzl hne hnotsooner hnotlater with hdep | hdep
  · exact before_asymm h.nodup hbeforez (h.deps_first.before_of_trans h.nodup hx hdep)
  · exact hfree (hneeds.trans hdep)

theorem Staged.smallest_first_iff (h : Staged dep sooner l) (hchained : Chained dep sooner l) :
    SmallestFirst dep l ↔ Covered dep sooner l :=
  ⟨h.covered hchained, h.smallest_first hchained⟩

end Core.Topology
