/-
Linearizability: parties that take many turns for a call look, from outside, as if each call happened at one moment.

An `object` says what one operation may return in a state, and the state after. Parties over it make one event for a call,
which is `atomic`. What is seen from outside are the starts and the ends of calls, in their order.

- `Commits`: where a call decides its result it takes effect, and nowhere else.
- `linearized`: then every interleaving has the history of one where operations happen at once.
-/
import PhenoCompose.Core.Interleave

namespace Core.Linearize

open Core.Process Core.Transition Core.Interleave

variable {Op : Type} {Ans : Op → Type} {C R P σ α ι : Type}

/-! ## Histories -/

/-- what a turn shows to the outside -/
inductive Seen (ι C R : Type) where
  | invoke (i : ι) (c : C)
  | returns (i : ι) (c : C) (r : R)

def seen : Label Ans ι C R → Option (Seen ι C R)
  | .invoke i c => some (.invoke i c)
  | .event .. => none
  | .returns i c r => some (.returns i c r)

def interactions (t : List (Label Ans ι C R)) : List (Seen ι C R) := t.filterMap seen

@[simp] theorem interactions_append (t₁ t₂ : List (Label Ans ι C R)) :
    interactions (t₁ ++ t₂) = interactions t₁ ++ interactions t₂ :=
  List.filterMap_append

/-! ## Objects -/

/-- a call that happens at once: it waits, and then it has its result -/
def atomic : Behaviour (fun _ : C => R) C R (C ⊕ R) where
  start := .inl
  does q e q' := q = .inl e.1 ∧ q' = .inr e.2
  ends q r := q = .inr r

section
variable [DecidableEq ι]

/-- the parties take turns on an object -/
abbrev Happens (object : α → C → R → α → Prop) :
    Pool α ι C (C ⊕ R) → Label (fun _ : C => R) ι C R → Pool α ι C (C ⊕ R) → Prop :=
  Turn atomic fun _ => object

variable (b : Behaviour Ans C R P) (step : ι → σ → (op : Op) → Ans op → σ → Prop) (object : α → C → R → α → Prop)

/-- a call has its result once it has taken effect, in a state that is related to the object by what happened so far -/
structure Commits (ok : List (Label Ans ι C R) → Prop) (decided : P → Option R)
    (Abs : List (Label Ans ι C R) → Pool σ ι C P → α → Prop) : Prop where
  start : ∀ c, decided (b.start c) = none
  invoke : ∀ {t u a i} c, ok (t ++ [.invoke i c]) → Abs t u a → u.parties i = none →
    Abs (t ++ [.invoke i c]) ⟨u.shared, Function.update u.parties i (some (c, b.start c))⟩ a
  event : ∀ {t u a i c q q' e s}, ok (t ++ [.event i c e]) → Abs t u a → u.parties i = some (c, q) →
    b.does q e q' → step i u.shared e.1 e.2 s →
      decided q' = decided q ∧ Abs (t ++ [.event i c e]) ⟨s, Function.update u.parties i (some (c, q'))⟩ a ∨
      decided q = none ∧ ∃ r a', decided q' = some r ∧ object a c r a' ∧
        Abs (t ++ [.event i c e]) ⟨s, Function.update u.parties i (some (c, q'))⟩ a'
  returns : ∀ {t u a i c q r}, ok (t ++ [.returns i c r]) → Abs t u a → u.parties i = some (c, q) → b.ends q r →
    (decided q = some r ∨ decided q = none ∧ object a c r a) ∧
      Abs (t ++ [.returns i c r]) ⟨u.shared, Function.update u.parties i none⟩ a

end

section
variable [DecidableEq ι] {b : Behaviour Ans C R P} {step : ι → σ → (op : Op) → Ans op → σ → Prop}
  {object : α → C → R → α → Prop} {decided : P → Option R} {Abs : List (Label Ans ι C R) → Pool σ ι C P → α → Prop}
  {ok : List (Label Ans ι C R) → Prop} {t : List (Label Ans ι C R)} {u v : Pool σ ι C P} {w : Pool α ι C (C ⊕ R)}

/-- what a party of the object is in, while the party itself is in this -/
def shown (decided : P → Option R) : C × P → C × (C ⊕ R)
  | (c, q) => (c, (decided q).elim (.inl c) .inr)

/-- the object as it is, and its parties in the same calls, waiting or with the same results -/
structure Shows (decided : P → Option R) (Abs : List (Label Ans ι C R) → Pool σ ι C P → α → Prop)
    (t : List (Label Ans ι C R)) (u : Pool σ ι C P) (w : Pool α ι C (C ⊕ R)) : Prop where
  state : Abs t u w.shared
  parties : ∀ i, w.parties i = (u.parties i).map (shown decided)

/-- one party moves on both sides, and the others are as they were -/
theorem Shows.move (h : Shows decided Abs t u w) {t' : List (Label Ans ι C R)} {s : σ} {i : ι} {x : Option (C × P)}
    {a : α} (ha : Abs t' ⟨s, Function.update u.parties i x⟩ a) :
    Shows decided Abs t' ⟨s, Function.update u.parties i x⟩
      ⟨a, Function.update w.parties i (x.map (shown decided))⟩ := by
  refine ⟨ha, fun j => ?_⟩
  rcases eq_or_ne j i with rfl | hj
  · simp
  · simpa [hj] using h.parties j

/-- nothing moves on the side of the object -/
theorem Shows.stay (h : Shows decided Abs t u w) {t' : List (Label Ans ι C R)} {s : σ} {i : ι} {x : Option (C × P)}
    (ha : Abs t' ⟨s, Function.update u.parties i x⟩ w.shared) (hx : w.parties i = x.map (shown decided)) :
    Shows decided Abs t' ⟨s, Function.update u.parties i x⟩ w := by
  refine ⟨ha, fun j => ?_⟩
  rcases eq_or_ne j i with rfl | hj
  · simpa using hx
  · simpa [hj] using h.parties j

/-- every turn is followed on the object, by at most two turns that look the same -/
theorem Shows.turn (hc : Commits b step object ok decided Abs) (h : Shows decided Abs t u w) {l : Label Ans ι C R}
    (hl : Turn b step u l v) (hok : ok (t ++ [l])) :
    ∃ t' w', Runs (Happens object) w t' w' ∧ t'.filterMap seen = (seen l).toList ∧ Shows decided Abs (t ++ [l]) v w' := by
  cases hl with
  | @invoke i c hidle =>
    have hwaiting : w.parties i = none := by rw [h.parties i, hidle, Option.map_none]
    have hnext := h.move (hc.invoke c hok h.state hidle)
    rw [Option.map_some, shown, hc.start] at hnext
    exact ⟨[.invoke i c], _, runs_one.2 (.invoke hwaiting), rfl, hnext⟩
  | @event i c q q' e s hin hdoes hstep =>
    have hparty : w.parties i = some (shown decided (c, q)) := by rw [h.parties i, hin, Option.map_some]
    rcases hc.event hok h.state hin hdoes hstep with ⟨hsame, ha⟩ | ⟨hwaiting, r, a', hdecided, hobject, ha⟩
    · refine ⟨[], w, .nil, rfl, h.stay ha ?_⟩
      rw [hparty, Option.map_some, shown, shown, hsame]
    · -- the moment at which the operation happens
      rw [shown, hwaiting] at hparty
      have hnext := h.move ha
      rw [Option.map_some, shown, hdecided] at hnext
      exact ⟨[.event i c ⟨c, r⟩], _, runs_one.2 (.event hparty ⟨rfl, rfl⟩ hobject), rfl, hnext⟩
  | @returns i c q r hin hends =>
    have hparty : w.parties i = some (shown decided (c, q)) := by rw [h.parties i, hin, Option.map_some]
    obtain ⟨hresult, ha⟩ := hc.returns hok h.state hin hends
    have hnext := h.move ha
    rw [Option.map_none] at hnext
    rcases hresult with hdecided | ⟨hwaiting, hobject⟩
    · rw [shown, hdecided] at hparty
      exact ⟨[.returns i c r], _, runs_one.2 (.returns hparty rfl), rfl, hnext⟩
    · -- it happens as it returns
      rw [shown, hwaiting] at hparty
      obtain ⟨x, hevent, hx⟩ : ∃ x, Happens object w (.event i c ⟨c, r⟩) x ∧
          Moved w i w.shared (some (c, .inr r)) x := ⟨_, .event hparty ⟨rfl, rfl⟩ hobject, moved_update ..⟩
      refine ⟨[.event i c ⟨c, r⟩, .returns i c r], _, .cons hevent (runs_one.2 (.returns hx.self rfl)), rfl, ?_⟩
      refine ⟨hx.shared.symm ▸ ha, fun j => ?_⟩
      rcases eq_or_ne j i with rfl | hj
      · simp
      · simpa [hj, hx.others j hj] using h.parties j

/-- **Linearizability.** Where every call takes effect at the moment it decides its result, every interleaving has the
history of one in which the operations of the object happen at once. -/
theorem linearized (hc : Commits b step object ok decided Abs) (hclosed : ∀ t l, ok (t ++ [l]) → ok t) {s : σ} {a : α}
    (h : Runs (Turn b step) (.quiet s) t u) (hok : ok t) (hstart : Abs [] (.quiet s) a) :
    ∃ t' w, Runs (Happens object) (.quiet a) t' w ∧ interactions t' = interactions t ∧ Shows decided Abs t u w := by
  refine h.history (P := fun t u => ok t → ∃ t' w, Runs (Happens object) (.quiet a) t' w ∧
    interactions t' = interactions t ∧
    Shows decided Abs t u w) (fun _ => ?_) ?_ hok
  · exact ⟨[], _, .nil, rfl, hstart, fun _ => rfl⟩
  · intro t u l v _ ih hl hok
    obtain ⟨t', w, hrun, hhistory, hshows⟩ := ih (hclosed t l hok)
    obtain ⟨t'', w', hrun', hseen, hshows'⟩ := hshows.turn hc hl hok
    refine ⟨t' ++ t'', w', runs_append.2 ⟨w, hrun, hrun'⟩, ?_, hshows'⟩
    calc interactions (t' ++ t'') = interactions t' ++ t''.filterMap seen := interactions_append t' t''
      _ = interactions t ++ (seen l).toList := by rw [hhistory, hseen]
      _ = interactions t ++ interactions [l] := by cases l <;> rfl
      _ = interactions (t ++ [l]) := (interactions_append t [l]).symm

end

end Core.Linearize
