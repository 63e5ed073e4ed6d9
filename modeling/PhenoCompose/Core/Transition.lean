/-
Labelled transition systems: a relation `step` between states, and the runs it has, each with its list of labels.

- `runs_append`, `runs_cons`, `runs_snoc`: taking a run apart, and putting it together.
- `Runs.invariant`, `Runs.history`: what one step preserves holds after every run; with the labels so far, or without.
- `Runs.related`: a preorder that every step respects relates the two ends of a run.
- `Runs.deterministic`: what the labels leave open is decided when one step is.
- `Runs.simulated`: a forward simulation carries runs over, label by label.
-/
import Mathlib

namespace Core.Transition

variable {σ τ L : Type}

/-- from the first state to the last, one step a label -/
inductive Runs (step : σ → L → σ → Prop) : σ → List L → σ → Prop where
  | nil {s : σ} : Runs step s [] s
  | cons {s u v : σ} {l : L} {t : List L} (hstep : step s l u) (hrest : Runs step u t v) : Runs step s (l :: t) v

variable {step : σ → L → σ → Prop}

@[simp] theorem runs_nil {s v : σ} : Runs step s [] v ↔ v = s := by
  refine ⟨?_, ?_⟩
  · intro h
    cases h
    rfl
  · intro h
    rw [h]
    exact .nil

theorem runs_cons {s v : σ} {l : L} {t : List L} : Runs step s (l :: t) v ↔ ∃ u, step s l u ∧ Runs step u t v := by
  refine ⟨?_, ?_⟩
  · intro h
    cases h with
    | cons hstep hrest => exact ⟨_, hstep, hrest⟩
  · intro h
    obtain ⟨u, hstep, hrest⟩ := h
    exact .cons hstep hrest

theorem runs_append {s v : σ} {t₁ t₂ : List L} :
    Runs step s (t₁ ++ t₂) v ↔ ∃ u, Runs step s t₁ u ∧ Runs step u t₂ v := by
  induction t₁ generalizing s with
  | nil => simp
  | cons l t ih =>
    simp only [List.cons_append, runs_cons, ih]
    refine ⟨?_, ?_⟩
    · intro h
      obtain ⟨u, hl, w, ht, hrest⟩ := h
      exact ⟨w, ⟨u, hl, ht⟩, hrest⟩
    · intro h
      obtain ⟨w, ⟨u, hl, ht⟩, hrest⟩ := h
      exact ⟨u, hl, w, ht, hrest⟩

theorem runs_one {s v : σ} {l : L} : Runs step s [l] v ↔ step s l v := by
  simp [runs_cons]

theorem runs_snoc {s v : σ} {l : L} {t : List L} : Runs step s (t ++ [l]) v ↔ ∃ u, Runs step s t u ∧ step u l v := by
  simp only [runs_append, runs_one]

/-- every label of a run is that of a step -/
theorem Runs.step_of_mem {s v : σ} {t : List L} (h : Runs step s t v) {l : L} (hl : l ∈ t) : ∃ u w, step u l w := by
  induction h with
  | nil => cases hl
  | cons hstep _ ih =>
    rcases List.mem_cons.1 hl with rfl | hl
    · exact ⟨_, _, hstep⟩
    · exact ih hl

/-- what every step preserves holds after every run -/
theorem Runs.invariant {P : σ → Prop} (hstep : ∀ s l u, P s → step s l u → P u) {s v : σ} {t : List L}
    (h : Runs step s t v) (hs : P s) : P v := by
  induction h with
  | nil => exact hs
  | cons hl _ ih => exact ih (hstep _ _ _ hs hl)

/-- what every step preserves, given the labels so far, holds after every run -/
theorem Runs.history {s : σ} {P : List L → σ → Prop} (hnil : P [] s)
    (hsnoc : ∀ t u l v, Runs step s t u → P t u → step u l v → P (t ++ [l]) v) {t : List L} {v : σ}
    (h : Runs step s t v) : P t v := by
  induction t using List.reverseRecOn generalizing v with
  | nil =>
    rw [runs_nil.1 h]
    exact hnil
  | append_singleton t l ih =>
    obtain ⟨u, ht, hl⟩ := runs_snoc.1 h
    exact hsnoc t u l v ht (ih ht) hl

/-- a preorder that every step respects, from states the run can be in, relates the ends of the run -/
theorem Runs.related {R : σ → σ → Prop} [IsPreorder σ R] {P : σ → Prop}
    (hstep : ∀ s l u, P s → step s l u → P u ∧ R s u) {s v : σ} {t : List L} (h : Runs step s t v) (hs : P s) :
    R s v := by
  induction h with
  | nil => exact refl_of R _
  | cons hl _ ih =>
    obtain ⟨hu, hr⟩ := hstep _ _ _ hs hl
    exact trans_of R hr (ih hu)

/-- where one part of a label decides the rest of it and the next state, that part of its labels decides a run -/
theorem Runs.deterministic {I : Type} {f : L → I}
    (hstep : ∀ s l l' u u', step s l u → step s l' u' → f l = f l' → l = l' ∧ u = u') {s v v' : σ} {t t' : List L}
    (h : Runs step s t v) (h' : Runs step s t' v') (hf : t.map f = t'.map f) : t = t' ∧ v = v' := by
  induction h generalizing t' with
  | nil =>
    obtain rfl : t' = [] := List.map_eq_nil_iff.1 hf.symm
    exact ⟨rfl, (runs_nil.1 h').symm⟩
  | cons hl _ ih =>
    cases t' with
    | nil => cases hf
    | cons l' t' =>
      rw [List.map_cons, List.map_cons, List.cons.injEq] at hf
      obtain ⟨u', hl', hrest'⟩ := runs_cons.1 h'
      obtain ⟨rfl, rfl⟩ := hstep _ _ _ _ _ hl hl' hf.1
      obtain ⟨rfl, hv⟩ := ih hrest' hf.2
      exact ⟨rfl, hv⟩

/-- a forward simulation: related states take the same labels to related states -/
theorem Runs.simulated {step' : τ → L → τ → Prop} {R : σ → τ → Prop}
    (hstep : ∀ s s' l u, R s s' → step s l u → ∃ u', step' s' l u' ∧ R u u') {s v : σ} {s' : τ} {t : List L}
    (h : Runs step s t v) (hs : R s s') : ∃ v', Runs step' s' t v' ∧ R v v' := by
  induction h generalizing s' with
  | nil => exact ⟨s', .nil, hs⟩
  | cons hl _ ih =>
    obtain ⟨u', hl', hu⟩ := hstep _ _ _ _ hs hl
    obtain ⟨v', hrest', hv⟩ := ih hu
    exact ⟨v', .cons hl' hrest', hv⟩

end Core.Transition
