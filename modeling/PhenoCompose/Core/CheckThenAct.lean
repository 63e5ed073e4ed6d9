/-
A place that parties take after a check that found it free, with other parties in between.

A `Watch` reads the labels of a run: whose check found the place free, whose act took it, and who reported success. A `View`
reads its states: is the place taken, who may act, who has acted and not reported it yet.

- `Moves`: what one label may mean for the party that it is of. A check may find the place free although it is taken.
- `Known.turn`: once the place is taken it stays so; whoever may act has checked, and whoever has acted has checked before.
- `Known.once`: if nobody acts before the check of a party that acts, or between that check and its act, there is one act,
  and one success at most.
-/
import PhenoCompose.Core.Transition

namespace Core.CheckThenAct

open Core.Transition

variable {ι L σ : Type}

structure Watch (ι L : Type) where
  check : L → Option ι
  act : L → Option ι
  success : L → Bool
  apart : ∀ {l i}, check l = some i → act l = none

structure View (ι σ : Type) where
  taken : σ → Prop
  entitled : σ → ι → Prop
  acted : σ → ι → Prop

namespace Watch

variable (w : Watch ι L)

def acts (t : List L) : ℕ := t.countP fun l => (w.act l).isSome

def successes (t : List L) : ℕ := t.countP w.success

/-- nobody acts between a party's check and its own act -/
def Undisturbed (t : List L) : Prop :=
  ∀ i t₁ l₁ t₂ l₂ t₃, t = t₁ ++ l₁ :: (t₂ ++ l₂ :: t₃) → w.check l₁ = some i → w.act l₂ = some i → w.acts t₂ = 0

/-- nobody who acts has missed an act in its check -/
def Unmissed (t : List L) : Prop :=
  ∀ i t₁ l₁ t₂ l₂ t₃, t = t₁ ++ l₁ :: (t₂ ++ l₂ :: t₃) → w.check l₁ = some i → w.act l₂ = some i → w.acts t₁ = 0

/-- this party has found the place free -/
def Checked (t : List L) (i : ι) : Prop := ∃ t₁ l t₂, t = t₁ ++ l :: t₂ ∧ w.check l = some i

/-- somebody has acted, and had checked before -/
def Claimed (t : List L) : Prop :=
  ∃ i t₁ l₁ t₂ l₂ t₃, t = t₁ ++ l₁ :: (t₂ ++ l₂ :: t₃) ∧ w.check l₁ = some i ∧ w.act l₂ = some i

variable {w} {t t' : List L} {l : L} {i : ι}

theorem acts_append (t₁ t₂ : List L) : w.acts (t₁ ++ t₂) = w.acts t₁ + w.acts t₂ := List.countP_append

theorem acts_cons (l : L) (t : List L) : w.acts (l :: t) = w.acts t + if (w.act l).isSome then 1 else 0 :=
  List.countP_cons

theorem acts_snoc (t : List L) (l : L) : w.acts (t ++ [l]) = w.acts t + if (w.act l).isSome then 1 else 0 := by
  rw [acts, List.countP_append, List.countP_singleton, acts]

theorem acts_passing (t : List L) (h : w.act l = none) : w.acts (t ++ [l]) = w.acts t := by
  rw [acts_snoc, h]
  rfl

theorem acts_acting (t : List L) (h : w.act l = some i) : w.acts (t ++ [l]) = w.acts t + 1 := by
  rw [acts_snoc, h]
  rfl

theorem successes_snoc (t : List L) (l : L) : w.successes (t ++ [l]) = w.successes t + if w.success l then 1 else 0 := by
  rw [successes, List.countP_append, List.countP_singleton, successes]

theorem successes_silent (t : List L) (h : w.success l = false) : w.successes (t ++ [l]) = w.successes t := by
  rw [successes_snoc, h]
  rfl

theorem Undisturbed.front (h : w.Undisturbed (t ++ t')) : w.Undisturbed t := by
  intro i t₁ l₁ t₂ l₂ t₃ he
  refine h i t₁ l₁ t₂ l₂ (t₃ ++ t') ?_
  rw [he]
  simp

theorem Unmissed.front (h : w.Unmissed (t ++ t')) : w.Unmissed t := by
  intro i t₁ l₁ t₂ l₂ t₃ he
  refine h i t₁ l₁ t₂ l₂ (t₃ ++ t') ?_
  rw [he]
  simp

/-- where there is one act at most, nobody disturbs another or misses an act -/
theorem one_act (h : w.acts t ≤ 1) : w.Undisturbed t ∧ w.Unmissed t := by
  have hsplit : ∀ t₁ l₁ t₂ l₂ t₃ i, t = t₁ ++ l₁ :: (t₂ ++ l₂ :: t₃) → w.act l₂ = some i →
      w.acts t₂ = 0 ∧ w.acts t₁ = 0 := by
    intro t₁ l₁ t₂ l₂ t₃ i he hact
    rw [he, acts_append, acts_cons, acts_append, acts_cons, hact, Option.isSome_some, if_pos rfl] at h
    omega
  exact ⟨fun i t₁ l₁ t₂ l₂ t₃ he _ hact => (hsplit t₁ l₁ t₂ l₂ t₃ i he hact).1,
    fun i t₁ l₁ t₂ l₂ t₃ he _ hact => (hsplit t₁ l₁ t₂ l₂ t₃ i he hact).2⟩

theorem Checked.snoc (h : w.Checked t i) (l : L) : w.Checked (t ++ [l]) i := by
  obtain ⟨t₁, l', t₂, rfl, hcheck⟩ := h
  exact ⟨t₁, l', t₂ ++ [l], by simp, hcheck⟩

theorem Checked.claims (h : w.Checked t i) (hact : w.act l = some i) : w.Claimed (t ++ [l]) := by
  obtain ⟨t₁, l₁, t₂, rfl, hcheck⟩ := h
  exact ⟨i, t₁, l₁, t₂, l, [], by simp, hcheck, hact⟩

theorem Claimed.snoc (h : w.Claimed t) (l : L) : w.Claimed (t ++ [l]) := by
  obtain ⟨i, t₁, l₁, t₂, l₂, t₃, rfl, hcheck, hact⟩ := h
  exact ⟨i, t₁, l₁, t₂, l₂, t₃ ++ [l], by simp, hcheck, hact⟩

/-- nobody had acted when the place was checked, and nobody has since -/
theorem Checked.first (h : w.Checked t i) (hact : w.act l = some i) (hu : w.Undisturbed (t ++ [l]))
    (hm : w.Unmissed (t ++ [l])) : w.acts t = 0 := by
  obtain ⟨t₁, l₁, t₂, rfl, hcheck⟩ := h
  have hbefore : w.acts t₁ = 0 := hm i t₁ l₁ t₂ l [] (by simp) hcheck hact
  have hsince : w.acts t₂ = 0 := hu i t₁ l₁ t₂ l [] (by simp) hcheck hact
  rw [acts_append, acts_cons, w.apart hcheck, hbefore, hsince]
  rfl

end Watch

variable (w : Watch ι L) (view : View ι σ)

/-- what the labels so far tell of the parties -/
structure Known (t : List L) (s : σ) : Prop where
  taken : w.acts t ≠ 0 → view.taken s
  entitled : ∀ i, view.entitled s i → w.Checked t i
  reported : w.acts t ≤ 1 → w.successes t ≤ w.acts t ∧
    ∀ i, view.acted s i → w.successes t + 1 ≤ w.acts t ∧ ∀ j, view.acted s j → j = i
  claimed : w.acts t ≠ 0 → w.Claimed t
  single : w.Undisturbed t → w.Unmissed t → w.acts t ≤ 1

/-- what a party may do to the place: nothing; or it takes it, as it is entitled to; or it reports that it did -/
inductive Moves (s : σ) (l : L) (s' : σ) (i : ι) : Prop where
  | passes (unacting : w.act l = none) (unreporting : w.success l = false) (kept : view.taken s → view.taken s')
      (entitled : view.entitled s' i → view.entitled s i ∨ w.check l = some i)
      (unacted : ¬view.acted s' i)
  | acts (acting : w.act l = some i) (unreporting : w.success l = false) (before : view.entitled s i)
      (after : ¬view.entitled s' i) (taken : view.taken s')
  | reports (unacting : w.act l = none) (reporting : w.success l = true) (kept : view.taken s → view.taken s')
      (before : view.acted s i) (unacted : ¬view.acted s' i) (unentitled : ¬view.entitled s' i)

/-- the other parties stay what they are -/
def Others (s s' : σ) (i : ι) : Prop :=
  ∀ j, j ≠ i → (view.entitled s' j → view.entitled s j) ∧ (view.acted s' j → view.acted s j)

variable {w view} {s s' : σ} {t : List L} {l : L} {i : ι}

theorem known_start (hentitled : ∀ i, ¬view.entitled s i) (hacted : ∀ i, ¬view.acted s i) : Known w view [] s where
  taken h := absurd rfl h
  entitled i hi := absurd hi (hentitled i)
  reported _ := ⟨le_rfl, fun i hi => absurd hi (hacted i)⟩
  claimed h := absurd rfl h
  single _ _ := Nat.zero_le _

/-- who else may act has checked -/
theorem Known.checked (h : Known w view t s) (hothers : Others view s s' i) (l : L) {j : ι} (hj : j ≠ i)
    (hin : view.entitled s' j) : w.Checked (t ++ [l]) j :=
  (h.entitled j ((hothers j hj).1 hin)).snoc l

theorem Known.taken_kept (h : Known w view t s) (unacting : w.act l = none) (kept : view.taken s → view.taken s') :
    w.acts (t ++ [l]) ≠ 0 → view.taken s' := by
  rw [Watch.acts_passing t unacting]
  exact fun hne => kept (h.taken hne)

theorem Known.claimed_kept (h : Known w view t s) (unacting : w.act l = none) (hne : w.acts (t ++ [l]) ≠ 0) :
    w.Claimed (t ++ [l]) := by
  rw [Watch.acts_passing t unacting] at hne
  exact (h.claimed hne).snoc l

theorem Known.single_kept (h : Known w view t s) (unacting : w.act l = none) (hu : w.Undisturbed (t ++ [l]))
    (hm : w.Unmissed (t ++ [l])) : w.acts (t ++ [l]) ≤ 1 := by
  rw [Watch.acts_passing t unacting]
  exact h.single hu.front hm.front

theorem Known.pass (h : Known w view t s) (hothers : Others view s s' i) (unacting : w.act l = none)
    (unreporting : w.success l = false) (kept : view.taken s → view.taken s')
    (entitled : view.entitled s' i → view.entitled s i ∨ w.check l = some i)
    (unacted : ¬view.acted s' i) : Known w view (t ++ [l]) s' where
  taken := h.taken_kept unacting kept
  entitled j hin := by
    by_cases hj : j = i
    · subst hj
      rcases entitled hin with hbefore | hcheck
      · exact (h.entitled j hbefore).snoc l
      · exact ⟨t, l, [], rfl, hcheck⟩
    · exact h.checked hothers l hj hin
  reported := by
    have hstays : ∀ j, view.acted s' j → view.acted s j := by
      intro j hin
      have hj : j ≠ i := by
        rintro rfl
        exact unacted hin
      exact (hothers j hj).2 hin
    rw [Watch.acts_passing t unacting, Watch.successes_silent t unreporting]
    intro hone
    obtain ⟨hle, hacted⟩ := h.reported hone
    refine ⟨hle, fun j hin => ?_⟩
    obtain ⟨hlt, hunique⟩ := hacted j (hstays j hin)
    exact ⟨hlt, fun k hk => hunique k (hstays k hk)⟩
  claimed := h.claimed_kept unacting
  single := h.single_kept unacting

theorem Known.take (h : Known w view t s) (hothers : Others view s s' i) (acting : w.act l = some i)
    (unreporting : w.success l = false) (before : view.entitled s i) (after : ¬view.entitled s' i)
    (taken : view.taken s') : Known w view (t ++ [l]) s' where
  taken _ := taken
  entitled j hin := by
    by_cases hj : j = i
    · exact absurd (hj ▸ hin) after
    · exact h.checked hothers l hj hin
  reported := by
    rw [Watch.acts_acting t acting, Watch.successes_silent t unreporting]
    intro hone
    obtain ⟨hle, hacted⟩ := h.reported (by omega)
    -- who had acted before would make it two
    have honly : ∀ j, view.acted s' j → j = i := by
      intro j hin
      by_contra hj
      have hlt := (hacted j ((hothers j hj).2 hin)).1
      omega
    refine ⟨by omega, fun j hin => ⟨by omega, fun k hk => ?_⟩⟩
    rw [honly j hin, honly k hk]
  claimed _ := (h.entitled i before).claims acting
  single := by
    rw [Watch.acts_acting t acting]
    intro hu hm
    rw [(h.entitled i before).first acting hu hm]

theorem Known.report (h : Known w view t s) (hothers : Others view s s' i) (unacting : w.act l = none)
    (reporting : w.success l = true) (kept : view.taken s → view.taken s') (before : view.acted s i)
    (unacted : ¬view.acted s' i) (unentitled : ¬view.entitled s' i) : Known w view (t ++ [l]) s' where
  taken := h.taken_kept unacting kept
  entitled j hin := by
    by_cases hj : j = i
    · exact absurd (hj ▸ hin) unentitled
    · exact h.checked hothers l hj hin
  reported := by
    have hsuccesses : w.successes (t ++ [l]) = w.successes t + 1 := by
      rw [Watch.successes_snoc, reporting]
      rfl
    rw [Watch.acts_passing t unacting, hsuccesses]
    intro hone
    obtain ⟨hlt, hunique⟩ := (h.reported hone).2 i before
    refine ⟨hlt, fun j hin => ?_⟩
    by_cases hj : j = i
    · exact absurd (hj ▸ hin) unacted
    · exact absurd (hunique j ((hothers j hj).2 hin)) hj
  claimed := h.claimed_kept unacting
  single := h.single_kept unacting

theorem Moves.taken (h : Moves w view s l s' i) (htaken : view.taken s) : view.taken s' := by
  cases h with
  | passes _ _ kept => exact kept htaken
  | acts _ _ _ _ taken => exact taken
  | reports _ _ kept => exact kept htaken

/-- what is known is known after one more label -/
theorem Known.turn (h : Known w view t s) (hothers : Others view s s' i) (hmove : Moves w view s l s' i) :
    Known w view (t ++ [l]) s' := by
  cases hmove with
  | passes unacting unreporting kept entitled unacted =>
    exact h.pass hothers unacting unreporting kept entitled unacted
  | acts acting unreporting before after taken => exact h.take hothers acting unreporting before after taken
  | reports unacting reporting kept before unacted unentitled =>
    exact h.report hothers unacting reporting kept before unacted unentitled

/-- what is known at the start is known after every run whose labels are moves -/
theorem Known.run {step : σ → L → σ → Prop} {s₀ : σ} (h₀ : Known w view [] s₀)
    (hstep : ∀ s l s', step s l s' → ∃ i, Others view s s' i ∧ Moves w view s l s' i) (h : Runs step s₀ t s) :
    Known w view t s := by
  refine h.history h₀ ?_
  intro t s l s' _ hknown hl
  obtain ⟨i, hothers, hmove⟩ := hstep s l s' hl
  exact hknown.turn hothers hmove

theorem Known.once (h : Known w view t s) (hu : w.Undisturbed t) (hm : w.Unmissed t) :
    w.acts t ≤ 1 ∧ w.successes t ≤ 1 := by
  have hone := h.single hu hm
  exact ⟨hone, (h.reported hone).1.trans hone⟩

/-- where nobody has acted, nobody has a success to report or has reported one -/
theorem Known.untaken (h : Known w view t s) (hnone : w.acts t = 0) : w.successes t = 0 ∧ ∀ i, ¬view.acted s i := by
  obtain ⟨hle, hacted⟩ := h.reported (by omega)
  refine ⟨by omega, fun i hi => ?_⟩
  have hlt := (hacted i hi).1
  omega

end Core.CheckThenAct
