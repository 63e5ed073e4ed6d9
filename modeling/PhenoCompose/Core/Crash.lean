/-
Programs that are stopped before their end.

`Begins step x s t u`: from state `s` the program `x` makes the calls `t`, and then ends or is stopped in state `u`.

- `keeps_protocol`: what a protocol and the steps preserve holds wherever a program that follows it is stopped.
- `Begins.completes`: where every call can fail without a trace, a crash leaves what some whole run leaves.
-/
import PhenoCompose.Core.Interleave

namespace Core.Crash

open Core.Interleave Core.Process

variable {Op : Type} {Ans : Op → Type} {ε α σ P : Type}

/-- the calls of a program up to where it has ended or was stopped -/
inductive Begins (step : σ → (op : Op) → Ans op → σ → Prop) : Prog Ans ε α → σ → List (Event Ans) → σ → Prop where
  | stopped {x : Prog Ans ε α} {s : σ} : Begins step x s [] s
  | call {op : Op} {next : Ans op → Prog Ans ε α} {a : Ans op} {s u v : σ} {t : List (Event Ans)}
      (hstep : step s op a u) (hrest : Begins step (next a) u t v) : Begins step (.call op next) s (⟨op, a⟩ :: t) v

variable {step : σ → (op : Op) → Ans op → σ → Prop} {does : P → Event Ans → P → Prop}
  {ends : P → Except (Stop ε) α → Prop} {x : Prog Ans ε α} {q : P} {s u : σ} {t : List (Event Ans)}

/-- a run that was not stopped -/
theorem begins_of_run {r : Except (Stop ε) α} (h : Run step x s t r u) : Begins step x s t u := by
  induction h with
  | done => exact .stopped
  | call hstep _ ih => exact .call hstep ih

theorem Begins.map {step' : σ → (op : Op) → Ans op → σ → Prop}
    (hstep : ∀ {s op a u}, step s op a u → step' s op a u) (h : Begins step x s t u) : Begins step' x s t u := by
  induction h with
  | stopped => exact .stopped
  | call hs _ ih => exact .call (hstep hs) ih

/-- what the protocol and the steps preserve holds wherever the program is stopped -/
theorem keeps_protocol {I : P → σ → Prop}
    (hI : ∀ q q' s op a u, I q s → does q ⟨op, a⟩ q' → step s op a u → I q' u) (h : Begins step x s t u)
    (hx : Follows does ends x q) (hs : I q s) : ∃ q', I q' u := by
  induction h generalizing q with
  | stopped => exact ⟨q, hs⟩
  | @call op next a s u v t hstep _ ih =>
    obtain ⟨q', hdoes, hrest⟩ := hx a
    exact ih hrest (hI _ _ _ _ _ _ hs hdoes hstep)

/-- from here every call can fail, and the program ends having changed nothing more -/
theorem fails_from_here {I : P → σ → Prop} {F : Event Ans → Prop}
    (hI : ∀ q q' s op a u, I q s → does q ⟨op, a⟩ q' → step s op a u → I q' u)
    (hfails : ∀ q s op, I q s → (∀ a, ∃ q', does q ⟨op, a⟩ q') → ∃ a, step s op a s ∧ F ⟨op, a⟩)
    (hx : Follows does ends x q) (hs : I q s) : ∃ t r, Run step x s t r s ∧ ∀ e ∈ t, F e := by
  induction x generalizing q with
  | done r => exact ⟨[], r, .done, by simp⟩
  | call op next ih =>
    have hdoes : ∀ a, ∃ q', does q ⟨op, a⟩ q' := by
      intro a
      obtain ⟨q', hq', -⟩ := hx a
      exact ⟨q', hq'⟩
    obtain ⟨a, hstep, hfail⟩ := hfails _ _ _ hs hdoes
    obtain ⟨q', hq', hrest⟩ := hx a
    obtain ⟨t, r, hrun, ht⟩ := ih a hrest (hI _ _ _ _ _ _ hs hq' hstep)
    exact ⟨⟨op, a⟩ :: t, r, .call hstep hrun, List.forall_mem_cons.2 ⟨hfail, ht⟩⟩

/-- **A crash is a disk that fails from then on.** Where every call the protocol allows can fail without a trace, the state
a program is stopped in is the end of a whole run, whose further calls all failed. -/
theorem Begins.completes {I : P → σ → Prop} {F : Event Ans → Prop}
    (hI : ∀ q q' s op a u, I q s → does q ⟨op, a⟩ q' → step s op a u → I q' u)
    (hfails : ∀ q s op, I q s → (∀ a, ∃ q', does q ⟨op, a⟩ q') → ∃ a, step s op a s ∧ F ⟨op, a⟩)
    (h : Begins step x s t u) (hx : Follows does ends x q) (hs : I q s) :
    ∃ t' r, Run step x s (t ++ t') r u ∧ ∀ e ∈ t', F e := by
  induction h generalizing q with
  | stopped => exact fails_from_here hI hfails hx hs
  | @call op next a s u v t hstep _ ih =>
    obtain ⟨q', hdoes, hrest⟩ := hx a
    obtain ⟨t', r, hrun, ht'⟩ := ih hrest (hI _ _ _ _ _ _ hs hdoes hstep)
    exact ⟨t', r, .call hstep hrun, ht'⟩

/-- every program follows the protocol that allows everything -/
theorem follows_any (x : Prog Ans ε α) : Follows (fun (_ : Unit) _ _ => True) (fun _ _ => True) x () := by
  induction x with
  | done r => trivial
  | call op next ih => exact fun a => ⟨(), trivial, ih a⟩

/-- where every call can be answered without a change, a program that was stopped is a run that went no further -/
theorem Begins.runs (hfails : ∀ s op, ∃ a, step s op a s) (h : Begins step x s t u) :
    ∃ t' r, Run step x s (t ++ t') r u := by
  obtain ⟨t', r, hrun, -⟩ := h.completes (I := fun _ _ => True) (F := fun _ => True) (fun _ _ _ _ _ _ _ _ _ => trivial)
    (fun _ s op _ _ => (hfails s op).imp fun _ ha => ⟨ha, trivial⟩) (follows_any x) trivial
  exact ⟨t', r, hrun⟩

end Core.Crash
