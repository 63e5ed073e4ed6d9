/-
Programs that make calls to their environment, and the runs they have.

A program is a tree: it has ended, with a value or with a reason for stopping, or it makes a call and goes on with
whatever answer comes back. What the environment may answer, and how a call changes the state both share, is a relation
`step`; a run records every call with its answer.

- `Stop`: an error the caller can handle, a panic, or fuel that ran out. `attempt` turns only errors into values.
- `Run step x s t r u`: from state `s` the program `x` makes the calls `t`, ends with `r`, and leaves state `u`.
- `run_bind`, `run_callOr_bind`, `run_attempt`, `run_forM_cons` take a run apart along the program that made it, and
  build it up again.
- `Only P x`: every call of every run of `x` satisfies `P`; closed under sequencing, so it is read off the program text.
- `Safe x`: no run of `x` panics; closed under sequencing too. `SafeFrom step s x`: none does from the state `s`.
- `exists_run`: a program has a run where every call can be answered.
- `Reaches step x s op u`: a run of `x` from `s` comes to make the call `op`, in state `u`; taken apart by `reaches_bind` and
  `Reaches.forM`.
- `exec` answers the calls with a function; `run_exec` says that what it computes is a run.
-/
import Mathlib

namespace Core.Process

/-- why a computation stopped without a value -/
inductive Stop (ε : Type) where
  | err (error : ε)
  | panic (message : String)
  | outOfFuel
deriving DecidableEq, Repr

/-- a program over calls `Op`, where the call `op` is answered by an `Ans op` -/
inductive Prog {Op : Type} (Ans : Op → Type) (ε α : Type) where
  | done (r : Except (Stop ε) α)
  | call (op : Op) (next : Ans op → Prog Ans ε α)

variable {Op : Type} {Ans : Op → Type} {ε δ α β σ τ : Type}

/-- a call together with the answer it got -/
abbrev Event (Ans : Op → Type) := Σ op : Op, Ans op

def Prog.bind : Prog Ans ε α → (α → Prog Ans ε β) → Prog Ans ε β
  | .done (.ok a), f => f a
  | .done (.error e), _ => .done (.error e)
  | .call op next, f => .call op fun a => (next a).bind f

instance : Monad (Prog Ans ε) where
  pure a := .done (.ok a)
  bind := Prog.bind

/-- make one call and return its answer -/
def call (op : Op) : Prog Ans ε (Ans op) := .call op fun a => .done (.ok a)

/-- `Err(e)` -/
def fail (e : ε) : Prog Ans ε α := .done (.error (.err e))

/-- an indexing that found nothing, or another unwinding -/
def panicked (message : String) : Prog Ans ε α := .done (.error (.panic message))

/-- answers of calls that may fail -/
abbrev Fallible (δ : Type) (Value : Op → Type) (op : Op) := Except δ (Value op)

/-- make a call that may fail, and stop if it does -/
def callOr {Value : Op → Type} (stop : δ → Stop ε) (op : Op) : Prog (Fallible δ Value) ε (Value op) :=
  .call op fun
    | .ok a => .done (.ok a)
    | .error d => .done (.error (stop d))

/-- a computation without calls -/
instance : MonadLift (Except (Stop ε)) (Prog Ans ε) := ⟨.done⟩

/-- what a caller sees of an outcome when it looks at the error instead of passing it on -/
def caught : Except (Stop δ) α → Except (Stop ε) (Except δ α)
  | .ok a => .ok (.ok a)
  | .error (.err d) => .ok (.error d)
  | .error (.panic m) => .error (.panic m)
  | .error .outOfFuel => .error .outOfFuel

/-- keep an error as a value; panics still unwind -/
def attempt : Prog Ans δ α → Prog Ans ε (Except δ α)
  | .done r => .done (caught r)
  | .call op next => .call op fun a => attempt (next a)

/-- `result.map_err(f)` -/
def relabel (f : δ → ε) : Except (Stop δ) α → Except (Stop ε) α
  | .ok a => .ok a
  | .error (.err d) => .error (.err (f d))
  | .error (.panic m) => .error (.panic m)
  | .error .outOfFuel => .error .outOfFuel

def mapErr (f : δ → ε) : Prog Ans δ α → Prog Ans ε α
  | .done r => .done (relabel f r)
  | .call op next => .call op fun a => mapErr f (next a)

@[simp] theorem ok_bind (a : α) (f : α → Except ε β) : (Except.ok a >>= f) = f a := rfl

@[simp] theorem error_bind (e : ε) (f : α → Except ε β) : (Except.error e >>= f) = .error e := rfl

theorem bind_eq_ok {x : Except ε α} {f : α → Except ε β} {b : β} :
    (x >>= f) = .ok b ↔ ∃ a, x = .ok a ∧ f a = .ok b := by
  cases x <;> simp

/-- a loop that only checks ends well when every check does -/
theorem forM_eq_ok {f : α → Except ε Unit} {xs : List α} {u : Unit} : xs.forM f = .ok u ↔ ∀ a ∈ xs, f a = .ok () := by
  induction xs with
  | nil => simp [List.forM, pure, Except.pure]
  | cons a xs ih =>
    show (f a >>= fun _ => xs.forM f) = _ ↔ _
    rw [bind_eq_ok, List.forall_mem_cons]
    refine ⟨?_, ?_⟩
    · intro hx
      obtain ⟨⟨⟩, ha, hxs⟩ := hx
      exact ⟨ha, ih.1 hxs⟩
    · intro hx
      obtain ⟨ha, hxs⟩ := hx
      exact ⟨⟨⟩, ha, ih.2 hxs⟩

/-- a loop that maps succeeds when every element does, and then it is a map -/
theorem mapM_eq_ok {f : α → Except ε β} {g : α → β} {p : α → Prop} (h : ∀ a b, f a = .ok b ↔ p a ∧ b = g a)
    {xs : List α} {ys : List β} : xs.mapM f = .ok ys ↔ (∀ a ∈ xs, p a) ∧ ys = xs.map g := by
  induction xs generalizing ys with
  | nil => simp [pure, Except.pure, eq_comm]
  | cons a xs ih =>
    rw [List.mapM_cons, bind_eq_ok, List.forall_mem_cons, List.map_cons]
    refine ⟨?_, ?_⟩
    · intro hx
      obtain ⟨b, hb, hys⟩ := hx
      obtain ⟨bs, hbs, he⟩ := bind_eq_ok.1 hys
      obtain ⟨hp, rfl⟩ := (h a b).1 hb
      obtain ⟨hps, rfl⟩ := ih.1 hbs
      exact ⟨⟨hp, hps⟩, (Except.ok.inj he).symm⟩
    · intro hx
      obtain ⟨⟨hp, hps⟩, rfl⟩ := hx
      exact ⟨g a, (h a _).2 ⟨hp, rfl⟩, bind_eq_ok.2 ⟨_, ih.2 ⟨hps, rfl⟩, rfl⟩⟩

/-- a loop that folds succeeds when every step does, and then it is a fold -/
theorem foldlM_eq_ok {f : σ → α → Except ε σ} {g : σ → α → σ} {p : α → Prop} (h : ∀ s a t, f s a = .ok t ↔ p a ∧ t = g s a)
    {xs : List α} {s t : σ} : xs.foldlM f s = .ok t ↔ (∀ a ∈ xs, p a) ∧ t = xs.foldl g s := by
  induction xs generalizing s with
  | nil => simp [pure, Except.pure, eq_comm]
  | cons a xs ih =>
    rw [List.foldlM_cons, bind_eq_ok, List.forall_mem_cons, List.foldl_cons]
    refine ⟨?_, ?_⟩
    · intro hx
      obtain ⟨u, hu, hrest⟩ := hx
      obtain ⟨hp, rfl⟩ := (h s a u).1 hu
      obtain ⟨hps, ht⟩ := ih.1 hrest
      exact ⟨⟨hp, hps⟩, ht⟩
    · intro hx
      obtain ⟨⟨hp, hps⟩, ht⟩ := hx
      exact ⟨g s a, (h s a _).2 ⟨hp, rfl⟩, ih.2 ⟨hps, ht⟩⟩

/-! ## Fuel -/

/-- a loop whose body needs more fuel only where it ran out gives the same result, unless it ran out itself -/
theorem foldlM_more_fuel {f g : σ → α → Except (Stop ε) σ}
    (h : ∀ t a, f t a ≠ .error .outOfFuel → g t a = f t a) (xs : List α) (s : σ)
    (hne : xs.foldlM f s ≠ .error .outOfFuel) : xs.foldlM g s = xs.foldlM f s := by
  induction xs generalizing s with
  | nil => rfl
  | cons a xs ih =>
    rw [List.foldlM_cons] at hne ⊢
    rw [List.foldlM_cons]
    cases hf : f s a with
    | ok t =>
      rw [hf] at hne
      rw [h s a (by rw [hf]; exact nofun), hf]
      exact ih t hne
    | error e =>
      rw [hf] at hne
      have he : e ≠ .outOfFuel := fun e' => hne (by rw [e']; rfl)
      rw [h s a (by rw [hf]; simpa using he), hf]
      rfl

/-! ## Runs -/

section
variable (step : σ → (op : Op) → Ans op → σ → Prop)

inductive Run : Prog Ans ε α → σ → List (Event Ans) → Except (Stop ε) α → σ → Prop where
  | done {r : Except (Stop ε) α} {s : σ} : Run (.done r) s [] r s
  | call {op : Op} {next : Ans op → Prog Ans ε α} {a : Ans op} {s u v : σ} {t : List (Event Ans)}
      {r : Except (Stop ε) α} (hstep : step s op a u) (hrest : Run (next a) u t r v) :
      Run (.call op next) s (⟨op, a⟩ :: t) r v

end

variable {step : σ → (op : Op) → Ans op → σ → Prop}

@[simp] theorem run_done {r r' : Except (Stop ε) α} {s u : σ} {t : List (Event Ans)} :
    Run step (.done r) s t r' u ↔ t = [] ∧ r' = r ∧ u = s := by
  refine ⟨?_, ?_⟩
  · intro hx
    obtain ⟨⟩ := hx
    exact ⟨rfl, rfl, rfl⟩
  · intro hx
    obtain ⟨rfl, rfl, rfl⟩ := hx
    exact .done

@[simp] theorem run_pure {a : α} {r : Except (Stop ε) α} {s u : σ} {t : List (Event Ans)} :
    Run step (pure a) s t r u ↔ t = [] ∧ r = .ok a ∧ u = s := run_done

@[simp] theorem run_fail {e : ε} {r : Except (Stop ε) α} {s u : σ} {t : List (Event Ans)} :
    Run step (fail e) s t r u ↔ t = [] ∧ r = .error (.err e) ∧ u = s := run_done

@[simp] theorem run_panicked {m : String} {r : Except (Stop ε) α} {s u : σ} {t : List (Event Ans)} :
    Run step (panicked m) s t r u ↔ t = [] ∧ r = .error (.panic m) ∧ u = s := run_done

@[simp] theorem run_lift {x : Except (Stop ε) α} {r : Except (Stop ε) α} {s u : σ} {t : List (Event Ans)} :
    Run step (liftM x) s t r u ↔ t = [] ∧ r = x ∧ u = s := run_done

theorem run_call_next {op : Op} {next : Ans op → Prog Ans ε α} {r : Except (Stop ε) α} {s v : σ}
    {t : List (Event Ans)} :
    Run step (.call op next) s t r v ↔
      ∃ a u t', step s op a u ∧ Run step (next a) u t' r v ∧ t = ⟨op, a⟩ :: t' := by
  refine ⟨?_, ?_⟩
  · intro hx
    rcases hx with _ | ⟨hstep, hrest⟩
    exact ⟨_, _, _, hstep, hrest, rfl⟩
  · intro hx
    obtain ⟨a, u, t', hstep, hrest, rfl⟩ := hx
    exact .call hstep hrest

@[simp] theorem run_call {op : Op} {r : Except (Stop ε) (Ans op)} {s v : σ} {t : List (Event Ans)} :
    Run step (call op) s t r v ↔ ∃ a, step s op a v ∧ t = [⟨op, a⟩] ∧ r = .ok a := by
  refine ⟨?_, ?_⟩
  · intro h
    obtain ⟨a, u, t', hstep, hrest, rfl⟩ := run_call_next.1 h
    obtain ⟨rfl, rfl, rfl⟩ := run_done.1 hrest
    exact ⟨a, hstep, rfl, rfl⟩
  · intro hx
    obtain ⟨a, hstep, rfl, rfl⟩ := hx
    exact .call hstep .done

/-- a run of a sequence is a run of its first part that gave a value and then a run of the rest, or a run of the first
part that stopped -/
theorem run_bind {x : Prog Ans ε α} {f : α → Prog Ans ε β} {s v : σ} {t : List (Event Ans)} {r : Except (Stop ε) β} :
    Run step (x >>= f) s t r v ↔
      (∃ a t₁ u t₂, Run step x s t₁ (.ok a) u ∧ Run step (f a) u t₂ r v ∧ t = t₁ ++ t₂) ∨
        ∃ e, Run step x s t (.error e) v ∧ r = .error e := by
  show Run step (x.bind f) s t r v ↔ _
  induction x generalizing s t with
  | done r₀ =>
    cases r₀ with
    | ok a => simp [Prog.bind]
    | error e => simp [Prog.bind]; tauto
  | call op next ih =>
    rw [Prog.bind, run_call_next]
    refine ⟨?_, ?_⟩
    · intro hx
      obtain ⟨a, u, t', hstep, hrest, rfl⟩ := hx
      rcases (ih a).1 hrest with ⟨b, t₁, w, t₂, h₁, h₂, rfl⟩ | ⟨e, he, rfl⟩
      · exact .inl ⟨b, ⟨op, a⟩ :: t₁, w, t₂, .call hstep h₁, h₂, rfl⟩
      · exact .inr ⟨e, .call hstep he, rfl⟩
    · intro hx
      rcases hx with ⟨b, t₁, w, t₂, h₁, h₂, rfl⟩ | ⟨e, he, rfl⟩
      · obtain ⟨a, u, t', hstep, hrest, rfl⟩ := run_call_next.1 h₁
        exact ⟨a, u, t' ++ t₂, hstep, (ih a).2 (.inl ⟨b, t', w, t₂, hrest, h₂, rfl⟩), rfl⟩
      · obtain ⟨a, u, t', hstep, hrest, rfl⟩ := run_call_next.1 he
        exact ⟨a, u, t', hstep, (ih a).2 (.inr ⟨e, hrest, rfl⟩), rfl⟩

theorem run_bind_ok {x : Prog Ans ε α} {f : α → Prog Ans ε β} {s v : σ} {t : List (Event Ans)} {b : β} :
    Run step (x >>= f) s t (.ok b) v ↔
      ∃ a t₁ u t₂, Run step x s t₁ (.ok a) u ∧ Run step (f a) u t₂ (.ok b) v ∧ t = t₁ ++ t₂ := by
  simp [run_bind]

theorem run_callOr {Value : Op → Type} {step : σ → (op : Op) → Fallible δ Value op → σ → Prop} {stop : δ → Stop ε}
    {op : Op} {r : Except (Stop ε) (Value op)} {s v : σ} {t : List (Event (Fallible δ Value))} :
    Run step (callOr stop op) s t r v ↔
      ∃ a : Fallible δ Value op, step s op a v ∧ t = [⟨op, a⟩] ∧ r = a.mapError stop := by
  refine ⟨?_, ?_⟩
  · intro h
    obtain ⟨a, u, t', hstep, hrest, rfl⟩ := run_call_next.1 h
    cases a with
    | ok a =>
      obtain ⟨rfl, rfl, rfl⟩ := run_done.1 hrest
      exact ⟨_, hstep, rfl, rfl⟩
    | error d =>
      obtain ⟨rfl, rfl, rfl⟩ := run_done.1 hrest
      exact ⟨_, hstep, rfl, rfl⟩
  · intro h
    obtain ⟨a, hstep, rfl, rfl⟩ := h
    cases a with
    | ok a => exact .call hstep .done
    | error d => exact .call hstep .done

/-- a call that may fail, and what follows when it does not -/
theorem run_callOr_bind {Value : Op → Type} {step : σ → (op : Op) → Fallible δ Value op → σ → Prop}
    {stop : δ → Stop ε} {op : Op} {f : Value op → Prog (Fallible δ Value) ε β} {r : Except (Stop ε) β} {s v : σ}
    {t : List (Event (Fallible δ Value))} :
    Run step (callOr stop op >>= f) s t r v ↔
      (∃ a u t', step s op (.ok a) u ∧ Run step (f a) u t' r v ∧ t = ⟨op, .ok a⟩ :: t') ∨
        ∃ d, step s op (.error d) v ∧ t = [⟨op, .error d⟩] ∧ r = .error (stop d) := by
  rw [run_bind]
  simp only [run_callOr]
  refine or_congr ⟨?_, ?_⟩ ⟨?_, ?_⟩
  · intro h
    obtain ⟨a, t₁, u, t₂, ⟨b, hstep, rfl, hb⟩, hrest, rfl⟩ := h
    cases b with
    | ok b =>
      cases hb
      exact ⟨a, u, t₂, hstep, hrest, rfl⟩
    | error d => cases hb
  · intro h
    obtain ⟨a, u, t', hstep, hrest, rfl⟩ := h
    exact ⟨a, [⟨op, .ok a⟩], u, t', ⟨.ok a, hstep, rfl, rfl⟩, hrest, rfl⟩
  · intro h
    obtain ⟨e, ⟨b, hstep, ht, hb⟩, rfl⟩ := h
    cases b with
    | ok b => cases hb
    | error d =>
      cases hb
      exact ⟨d, hstep, ht, rfl⟩
  · intro h
    obtain ⟨d, hstep, rfl, rfl⟩ := h
    exact ⟨stop d, ⟨.error d, hstep, rfl, rfl⟩, rfl⟩

/-- a program that begins with a computation without calls -/
theorem run_lift_bind {x : Except (Stop ε) α} {f : α → Prog Ans ε β} {s v : σ} {t : List (Event Ans)}
    {r : Except (Stop ε) β} :
    Run step ((liftM x : Prog Ans ε α) >>= f) s t r v ↔
      (∃ a, x = .ok a ∧ Run step (f a) s t r v) ∨ ∃ e, x = .error e ∧ t = [] ∧ r = .error e ∧ v = s := by
  cases x with
  | ok a =>
    refine ⟨fun h => .inl ⟨a, rfl, h⟩, ?_⟩
    intro hx
    rcases hx with ⟨_, ⟨⟩, h⟩ | ⟨_, ⟨⟩, _⟩
    exact h
  | error e =>
    refine (run_done : Run step (.done _) _ _ _ _ ↔ _).trans ⟨fun h => .inr ⟨e, rfl, h⟩, ?_⟩
    intro hx
    rcases hx with ⟨_, ⟨⟩, _⟩ | ⟨_, ⟨⟩, h⟩
    exact h

theorem run_lift_bind_ok {x : Except (Stop ε) α} {f : α → Prog Ans ε β} {s v : σ} {t : List (Event Ans)} {b : β} :
    Run step ((liftM x : Prog Ans ε α) >>= f) s t (.ok b) v ↔ ∃ a, x = .ok a ∧ Run step (f a) s t (.ok b) v := by
  simp [run_lift_bind]

theorem Run.bind {x : Prog Ans ε α} {f : α → Prog Ans ε β} {s u v : σ} {t₁ t₂ : List (Event Ans)} {a : α}
    {r : Except (Stop ε) β} (hx : Run step x s t₁ (.ok a) u) (hf : Run step (f a) u t₂ r v) :
    Run step (x >>= f) s (t₁ ++ t₂) r v :=
  run_bind.2 (.inl ⟨a, t₁, u, t₂, hx, hf, rfl⟩)

/-- a program that only wraps up the value of another -/
theorem run_bind_pure {f : α → β} {x : Prog Ans ε α} {s v : σ} {t : List (Event Ans)} {r : Except (Stop ε) β} :
    Run step (x >>= fun a => pure (f a)) s t r v ↔ ∃ r₀, Run step x s t r₀ v ∧ r = r₀.map f := by
  rw [run_bind]
  simp only [run_pure]
  refine ⟨?_, ?_⟩
  · intro h
    rcases h with ⟨a, t₁, u, t₂, hx, ⟨rfl, rfl, rfl⟩, rfl⟩ | ⟨e, hx, rfl⟩
    · exact ⟨.ok a, by rwa [List.append_nil], rfl⟩
    · exact ⟨.error e, hx, rfl⟩
  · intro h
    obtain ⟨r₀, hx, rfl⟩ := h
    cases r₀ with
    | ok a => exact .inl ⟨a, t, v, [], hx, ⟨rfl, rfl, rfl⟩, by rw [List.append_nil]⟩
    | error e => exact .inr ⟨e, hx, rfl⟩

/-- a program that makes the same calls and ends in what becomes of the outcome -/
theorem run_outcome {f : Except (Stop δ) α → Except (Stop ε) β} {transform : Prog Ans δ α → Prog Ans ε β}
    (hdone : ∀ r, transform (.done r) = .done (f r))
    (hcall : ∀ op next, transform (.call op next) = .call op fun a => transform (next a)) {x : Prog Ans δ α} {s v : σ}
    {t : List (Event Ans)} {r : Except (Stop ε) β} :
    Run step (transform x) s t r v ↔ ∃ r₀, Run step x s t r₀ v ∧ r = f r₀ := by
  induction x generalizing s t with
  | done r₀ =>
    rw [hdone, run_done]
    simp only [run_done]
    refine ⟨?_, ?_⟩
    · intro hx
      obtain ⟨rfl, rfl, rfl⟩ := hx
      exact ⟨r₀, ⟨rfl, rfl, rfl⟩, rfl⟩
    · intro hx
      obtain ⟨r₁, ⟨rfl, rfl, rfl⟩, rfl⟩ := hx
      exact ⟨rfl, rfl, rfl⟩
  | call op next ih =>
    rw [hcall]
    simp only [run_call_next, ih]
    refine ⟨?_, ?_⟩
    · intro hx
      obtain ⟨a, u, t', hstep, ⟨r₀, h, rfl⟩, rfl⟩ := hx
      exact ⟨r₀, ⟨a, u, t', hstep, h, rfl⟩, rfl⟩
    · intro hx
      obtain ⟨r₀, ⟨a, u, t', hstep, h, rfl⟩, rfl⟩ := hx
      exact ⟨a, u, t', hstep, ⟨r₀, h, rfl⟩, rfl⟩

theorem run_attempt {x : Prog Ans δ α} {s v : σ} {t : List (Event Ans)} {r : Except (Stop ε) (Except δ α)} :
    Run step (attempt x) s t r v ↔ ∃ r₀, Run step x s t r₀ v ∧ r = caught r₀ :=
  run_outcome (fun _ => rfl) fun _ _ => rfl

@[simp] theorem caught_eq_ok_ok {r : Except (Stop δ) α} {a : α} :
    (caught r : Except (Stop ε) (Except δ α)) = .ok (.ok a) ↔ r = .ok a := by
  rcases r with (_ | _ | _) | _ <;> simp [caught]

@[simp] theorem caught_eq_ok_error {r : Except (Stop δ) α} {d : δ} :
    (caught r : Except (Stop ε) (Except δ α)) = .ok (.error d) ↔ r = .error (.err d) := by
  rcases r with (_ | _ | _) | _ <;> simp [caught]

/-- an attempted program either gives its result as a value or did not end in an error -/
theorem run_attempt_ok {x : Prog Ans δ α} {s v : σ} {t : List (Event Ans)} {a : Except δ α} :
    Run step (attempt x : Prog Ans ε (Except δ α)) s t (.ok a) v ↔ Run step x s t (a.mapError .err) v := by
  rw [run_attempt]
  cases a with
  | ok a =>
    refine ⟨?_, ?_⟩
    · intro hx
      obtain ⟨r₀, h, hr⟩ := hx
      rwa [caught_eq_ok_ok.1 hr.symm] at h
    · intro h; exact ⟨_, h, rfl⟩
  | error d =>
    refine ⟨?_, ?_⟩
    · intro hx
      obtain ⟨r₀, h, hr⟩ := hx
      rwa [caught_eq_ok_error.1 hr.symm] at h
    · intro h; exact ⟨_, h, rfl⟩

theorem run_mapErr {f : δ → ε} {x : Prog Ans δ α} {s v : σ} {t : List (Event Ans)} {r : Except (Stop ε) α} :
    Run step (mapErr f x) s t r v ↔ ∃ r₀, Run step x s t r₀ v ∧ r = relabel f r₀ :=
  run_outcome (fun _ => rfl) fun _ _ => rfl

@[simp] theorem relabel_eq_ok {f : δ → ε} {r : Except (Stop δ) α} {a : α} : relabel f r = .ok a ↔ r = .ok a := by
  rcases r with (_ | _ | _) | _ <;> simp [relabel]

theorem run_mapErr_ok {f : δ → ε} {x : Prog Ans δ α} {s v : σ} {t : List (Event Ans)} {a : α} :
    Run step (mapErr f x) s t (.ok a) v ↔ Run step x s t (.ok a) v := by
  rw [run_mapErr]
  refine ⟨?_, ?_⟩
  · intro hx
    obtain ⟨r₀, h, hr⟩ := hx
    rwa [relabel_eq_ok.1 hr.symm] at h
  · intro h; exact ⟨_, h, rfl⟩

@[simp] theorem run_forM_nil {f : α → Prog Ans ε PUnit} {s v : σ} {t : List (Event Ans)}
    {r : Except (Stop ε) PUnit} : Run step (([] : List α).forM f) s t r v ↔ t = [] ∧ r = .ok ⟨⟩ ∧ v = s := run_pure

theorem run_forM_cons {f : α → Prog Ans ε PUnit} {a : α} {xs : List α} {s v : σ} {t : List (Event Ans)}
    {r : Except (Stop ε) PUnit} :
    Run step ((a :: xs).forM f) s t r v ↔
      (∃ t₁ u t₂, Run step (f a) s t₁ (.ok ⟨⟩) u ∧ Run step (xs.forM f) u t₂ r v ∧ t = t₁ ++ t₂) ∨
        ∃ e, Run step (f a) s t (.error e) v ∧ r = .error e := by
  refine (run_bind (f := fun _ => xs.forM f)).trans (or_congr_left ⟨?_, ?_⟩)
  · intro hx
    obtain ⟨⟨⟩, h⟩ := hx
    exact h
  · intro h; exact ⟨⟨⟩, h⟩

/-! ## What calls a program makes -/

/-- every call of every run satisfies `P`, whatever the state and the answers -/
def Only (P : Event Ans → Prop) : Prog Ans ε α → Prop
  | .done _ => True
  | .call op next => ∀ a, P ⟨op, a⟩ ∧ Only P (next a)

section
variable {P Q : Event Ans → Prop}

@[simp] theorem Only.done (r : Except (Stop ε) α) : Only P (.done r) := trivial

@[simp] theorem Only.pure (a : α) : Only P (pure a : Prog Ans ε α) := trivial

@[simp] theorem Only.fail (e : ε) : Only P (fail e : Prog Ans ε α) := trivial

@[simp] theorem Only.panicked (m : String) : Only P (panicked m : Prog Ans ε α) := trivial

@[simp] theorem Only.lift (x : Except (Stop ε) α) : Only P (liftM x : Prog Ans ε α) := trivial

theorem Only.call {op : Op} (h : ∀ a, P ⟨op, a⟩) : Only P (call op : Prog Ans ε (Ans op)) := fun a => ⟨h a, trivial⟩

theorem Only.bind {x : Prog Ans ε α} {f : α → Prog Ans ε β} (hx : Only P x) (hf : ∀ a, Only P (f a)) :
    Only P (x >>= f) := by
  show Only P (x.bind f)
  induction x with
  | done r => cases r <;> simp [Prog.bind, hf]
  | call op next ih => exact fun a => ⟨(hx a).1, ih a (hx a).2⟩

theorem Only.attempt {x : Prog Ans δ α} (hx : Only P x) : Only P (attempt x : Prog Ans ε (Except δ α)) := by
  induction x with
  | done r => trivial
  | call op next ih => exact fun a => ⟨(hx a).1, ih a (hx a).2⟩

theorem Only.mapErr {x : Prog Ans δ α} {f : δ → ε} (hx : Only P x) : Only P (mapErr f x) := by
  induction x with
  | done r => trivial
  | call op next ih => exact fun a => ⟨(hx a).1, ih a (hx a).2⟩

theorem Only.forM {f : α → Prog Ans ε PUnit} (xs : List α) (hf : ∀ a ∈ xs, Only P (f a)) : Only P (xs.forM f) := by
  induction xs with
  | nil => trivial
  | cons a xs ih => exact (hf a List.mem_cons_self).bind fun _ => ih fun b hb => hf b (List.mem_cons_of_mem a hb)

theorem Only.foldlM {f : σ → α → Prog Ans ε σ} (xs : List α) (hf : ∀ s, ∀ a ∈ xs, Only P (f s a)) (s : σ) :
    Only P (xs.foldlM f s) := by
  induction xs generalizing s with
  | nil => trivial
  | cons a xs ih =>
    rw [List.foldlM_cons]
    exact (hf s a List.mem_cons_self).bind fun t => ih (fun u b hb => hf u b (List.mem_cons_of_mem a hb)) t

theorem Only.imp (h : ∀ e, P e → Q e) {x : Prog Ans ε α} (hx : Only P x) : Only Q x := by
  induction x with
  | done r => trivial
  | call op next ih => exact fun a => ⟨h _ (hx a).1, ih a (hx a).2⟩

theorem only_call_next {op : Op} {next : Ans op → Prog Ans ε α} :
    Only P (.call op next) ↔ ∀ a, P ⟨op, a⟩ ∧ Only P (next a) := Iff.rfl

theorem Only.mem {x : Prog Ans ε α} (hx : Only P x) {s v : σ} {t : List (Event Ans)} {r : Except (Stop ε) α}
    (h : Run step x s t r v) : ∀ e ∈ t, P e := by
  induction h with
  | done => simp
  | call hstep hrest ih =>
    intro e he
    rcases List.mem_cons.1 he with rfl | he
    · exact (hx _).1
    · exact ih (hx _).2 e he

/-- a relation that every allowed call keeps is kept by the whole run -/
theorem Only.moves {R : σ → σ → Prop} [IsPreorder σ R] {x : Prog Ans ε α} (hx : Only P x)
    (hstep : ∀ {s op a u}, P ⟨op, a⟩ → step s op a u → R s u) {s v : σ} {t : List (Event Ans)}
    {r : Except (Stop ε) α} (h : Run step x s t r v) : R s v := by
  induction h with
  | done => exact refl_of R _
  | call hs hrest ih => exact trans_of R (hstep (hx _).1 hs) (ih (hx _).2)

/-- calls that leave the state alone make a run that does -/
theorem Only.keeps {x : Prog Ans ε α} (hx : Only P x) (hstep : ∀ {s op a u}, P ⟨op, a⟩ → step s op a u → u = s)
    {s v : σ} {t : List (Event Ans)} {r : Except (Stop ε) α} (h : Run step x s t r v) : v = s :=
  (hx.moves (R := Eq) (fun hp hs => (hstep hp hs).symm) h).symm

/-- a run that stays in one state makes every call there -/
theorem Only.each {x : Prog Ans ε α} (hx : Only P x) (hstep : ∀ {s op a u}, P ⟨op, a⟩ → step s op a u → u = s)
    {s v : σ} {t : List (Event Ans)} {r : Except (Stop ε) α} (h : Run step x s t r v) : ∀ e ∈ t, step s e.1 e.2 s := by
  induction h with
  | done => exact fun _ he => nomatch he
  | call hs _ ih =>
    obtain rfl := hstep (hx _).1 hs
    exact List.forall_mem_cons.2 ⟨hs, ih (hx _).2⟩

end

/-- where every call can be answered, every program has a run -/
theorem exists_run {P : Event Ans → Prop} (h : ∀ s op, ∃ a u, step s op a u ∧ P ⟨op, a⟩) (x : Prog Ans ε α) (s : σ) :
    ∃ t r v, Run step x s t r v ∧ ∀ e ∈ t, P e := by
  induction x generalizing s with
  | done r => exact ⟨[], r, s, .done, by simp⟩
  | call op next ih =>
    obtain ⟨a, u, hstep, ha⟩ := h s op
    obtain ⟨t, r, v, hrest, ht⟩ := ih a u
    exact ⟨⟨op, a⟩ :: t, r, v, .call hstep hrest, List.forall_mem_cons.2 ⟨ha, ht⟩⟩

/-- the answers decide the run: one trace cannot go on where another has ended -/
theorem Run.deterministic {x : Prog Ans ε α} {s s' u u' : σ} {t t' : List (Event Ans)} {r r' : Except (Stop ε) α}
    (h : Run step x s t r u) (h' : Run step x s' (t ++ t') r' u') : t' = [] ∧ r' = r := by
  induction h generalizing s' with
  | done =>
    obtain ⟨ht, hr, -⟩ := run_done.1 h'
    exact ⟨ht, hr⟩
  | call hstep hrest ih =>
    obtain ⟨a, v, t'', -, hrest', he⟩ := run_call_next.1 h'
    cases he
    exact ih hrest'

/-- a run as another relation sees it -/
theorem Run.map {step' : τ → (op : Op) → Ans op → τ → Prop} {f : σ → τ}
    (hstep : ∀ {s op a u}, step s op a u → step' (f s) op a (f u)) {x : Prog Ans ε α} {s v : σ}
    {t : List (Event Ans)} {r : Except (Stop ε) α} (h : Run step x s t r v) : Run step' x (f s) t r (f v) := by
  induction h with
  | done => exact .done
  | call hs _ ih => exact .call (hstep hs) ih

/-- a run of such calls, in any environment that allows them too -/
theorem Only.run {step' : σ → (op : Op) → Ans op → σ → Prop} {P : Event Ans → Prop} {x : Prog Ans ε α} {s v : σ}
    {t : List (Event Ans)} {r : Except (Stop ε) α} (hx : Only P x)
    (hstep : ∀ {s op a u}, P ⟨op, a⟩ → step s op a u → step' s op a u) (h : Run step x s t r v) : Run step' x s t r v := by
  induction h with
  | done => exact .done
  | call hs _ ih => exact .call (hstep (hx _).1 hs) (ih (hx _).2)

/-- a run that stays in one state, in another one that gives the same answers and stays as it is -/
theorem Only.elsewhere {step' : τ → (op : Op) → Ans op → τ → Prop} {P : Event Ans → Prop} {x : Prog Ans ε α} {s v : σ}
    {u : τ} {t : List (Event Ans)} {r : Except (Stop ε) α} (hx : Only P x)
    (hstep : ∀ {op a w}, P ⟨op, a⟩ → step s op a w → w = s ∧ step' u op a u) (h : Run step x s t r v) :
    Run step' x u t r u := by
  induction h with
  | done => exact .done
  | call hs _ ih =>
    obtain ⟨rfl, hs'⟩ := hstep (hx _).1 hs
    exact .call hs' (ih (hx _).2 hstep)

/-- what no step undoes is there after the run if it was there before, or if a call brought it about -/
theorem Run.lasting {P : σ → Prop} (hstep : ∀ {s op a u}, step s op a u → P s → P u) {x : Prog Ans ε α} {s v : σ}
    {t : List (Event Ans)} {r : Except (Stop ε) α} (h : Run step x s t r v) (hs : P s) : P v := by
  induction h with
  | done => exact hs
  | call hl _ ih => exact ih (hstep hl hs)

theorem Run.brought_about {P : σ → Prop} (hstep : ∀ {s op a u}, step s op a u → P s → P u) {e : Event Ans}
    (hmakes : ∀ {s u}, step s e.1 e.2 u → P u) {x : Prog Ans ε α} {s v : σ} {t : List (Event Ans)}
    {r : Except (Stop ε) α} (h : Run step x s t r v) (he : e ∈ t) : P v := by
  induction h with
  | done => cases he
  | call hl hrest ih =>
    rcases List.mem_cons.1 he with rfl | he
    · exact hrest.lasting (P := P) hstep (hmakes hl)
    · exact ih he

/-! ## Programs that do not panic -/

/-- a computation that fails only with errors its caller can handle -/
def Raises (x : Except (Stop ε) α) : Prop := ∀ e, x = .error e → ∃ error, e = .err error

@[simp] theorem Raises.ok (a : α) : Raises (.ok a : Except (Stop ε) α) := nofun

@[simp] theorem Raises.err (e : ε) : Raises (.error (.err e) : Except (Stop ε) α) :=
  fun _ h => ⟨e, (Except.error.inj h).symm⟩

theorem Raises.bind {x : Except (Stop ε) α} {f : α → Except (Stop ε) β} (hx : Raises x)
    (hf : ∀ a, x = .ok a → Raises (f a)) : Raises (x >>= f) := by
  cases x with
  | ok a => exact hf a rfl
  | error e =>
    rw [error_bind]
    intro e' h
    cases h
    exact hx e rfl

theorem Raises.forM {f : α → Except (Stop ε) Unit} (xs : List α) (h : ∀ a ∈ xs, Raises (f a)) :
    Raises (xs.forM f) := by
  induction xs with
  | nil => exact .ok _
  | cons a xs ih =>
    exact (h a List.mem_cons_self).bind fun _ _ => ih fun b hb => h b (List.mem_cons_of_mem a hb)

theorem Raises.foldlM {f : σ → α → Except (Stop ε) σ} (xs : List α) (h : ∀ a ∈ xs, ∀ s, Raises (f s a)) (s : σ) :
    Raises (xs.foldlM f s) := by
  induction xs generalizing s with
  | nil => exact .ok s
  | cons a xs ih =>
    rw [List.foldlM_cons]
    exact (h a List.mem_cons_self s).bind fun t _ => ih (fun b hb => h b (List.mem_cons_of_mem a hb)) t

/-- every run ends with a value or with an error its caller can handle -/
def Safe : Prog Ans ε α → Prop
  | .done r => Raises r
  | .call _ next => ∀ a, Safe (next a)

theorem safe_done {r : Except (Stop ε) α} : Safe (.done r : Prog Ans ε α) ↔ Raises r := Iff.rfl

theorem safe_call_next {op : Op} {next : Ans op → Prog Ans ε α} : Safe (.call op next) ↔ ∀ a, Safe (next a) := Iff.rfl

@[simp] theorem Safe.pure (a : α) : Safe (pure a : Prog Ans ε α) := Raises.ok a

@[simp] theorem Safe.fail (e : ε) : Safe (fail e : Prog Ans ε α) := Raises.err e

theorem Safe.lift {x : Except (Stop ε) α} (h : Raises x) : Safe (liftM x : Prog Ans ε α) := h

theorem Safe.call (op : Op) : Safe (call op : Prog Ans ε (Ans op)) := fun a => Raises.ok a

theorem Safe.bind {x : Prog Ans ε α} {f : α → Prog Ans ε β} (hx : Safe x) (hf : ∀ a, Safe (f a)) :
    Safe (x >>= f) := by
  show Safe (x.bind f)
  induction x with
  | done r =>
    cases r with
    | ok a => exact hf a
    | error e =>
      obtain ⟨error, rfl⟩ := hx e rfl
      exact Raises.err error
  | call op next ih => exact fun a => ih a (hx a)

theorem Safe.mapErr {x : Prog Ans δ α} {f : δ → ε} (hx : Safe x) : Safe (mapErr f x) := by
  induction x with
  | done r =>
    rcases r with (_ | _ | _) | _
    · exact Raises.err _
    all_goals first | exact Raises.ok _ | exact nomatch hx _ rfl
  | call op next ih => exact fun a => ih a (hx a)

theorem Safe.attempt {x : Prog Ans δ α} (hx : Safe x) : Safe (attempt x : Prog Ans ε (Except δ α)) := by
  induction x with
  | done r =>
    rcases r with (_ | _ | _) | _
    · exact Raises.ok _
    all_goals first | exact Raises.ok _ | exact nomatch hx _ rfl
  | call op next ih => exact fun a => ih a (hx a)

theorem Safe.forM {f : α → Prog Ans ε PUnit} (xs : List α) (hf : ∀ a ∈ xs, Safe (f a)) : Safe (xs.forM f) := by
  induction xs with
  | nil => exact Safe.pure _
  | cons a xs ih => exact (hf a List.mem_cons_self).bind fun _ => ih fun b hb => hf b (List.mem_cons_of_mem a hb)

theorem Safe.raises {x : Prog Ans ε α} (hx : Safe x) {s v : σ} {t : List (Event Ans)} {r : Except (Stop ε) α}
    (h : Run step x s t r v) : Raises r := by
  induction h with
  | done => exact hx
  | call hstep hrest ih => exact ih (hx _)

theorem Safe.foldlM {f : σ → α → Prog Ans ε σ} (xs : List α) (hf : ∀ a ∈ xs, ∀ s, Safe (f s a)) (s : σ) :
    Safe (xs.foldlM f s) := by
  induction xs generalizing s with
  | nil => exact Safe.pure s
  | cons a xs ih =>
    rw [List.foldlM_cons]
    exact (hf a List.mem_cons_self s).bind fun t => ih (fun b hb => hf b (List.mem_cons_of_mem a hb)) t

/-- every run from this state ends with a value or with an error its caller can handle -/
def SafeFrom (step : σ → (op : Op) → Ans op → σ → Prop) (s : σ) (x : Prog Ans ε α) : Prop :=
  ∀ (t : List (Event Ans)) (r : Except (Stop ε) α) (v : σ), Run step x s t r v → Raises r

theorem Safe.from (step : σ → (op : Op) → Ans op → σ → Prop) {x : Prog Ans ε α} (hx : Safe x) (s : σ) :
    SafeFrom step s x := fun _ _ _ h => hx.raises h

/-- what follows may rely on the value that the first part returned, and on the state it left -/
theorem SafeFrom.bind {x : Prog Ans ε α} {f : α → Prog Ans ε β} {s : σ} (hx : SafeFrom step s x)
    (hf : ∀ {a t u}, Run step x s t (.ok a) u → SafeFrom step u (f a)) : SafeFrom step s (x >>= f) := by
  intro t r v h
  rcases run_bind.1 h with ⟨a, t₁, u, t₂, h₁, h₂, rfl⟩ | ⟨e, he, rfl⟩
  · exact hf h₁ _ _ _ h₂
  · obtain ⟨error, rfl⟩ := hx _ _ _ he e rfl
    exact Raises.err error

/-- looking at the outcome of a program that does not panic -/
theorem run_attempt_bind {x : Prog Ans δ α} (hx : Safe x) {f : Except δ α → Prog Ans ε β} {s v : σ}
    {t : List (Event Ans)} {r : Except (Stop ε) β} :
    Run step (attempt x >>= f) s t r v ↔
      ∃ a t₁ u t₂, Run step x s t₁ (a.mapError .err) u ∧ Run step (f a) u t₂ r v ∧ t = t₁ ++ t₂ := by
  rw [run_bind]
  simp only [run_attempt_ok]
  refine or_iff_left ?_
  intro hx
  obtain ⟨e, he, -⟩ := hx
  obtain ⟨r₀, h₀, hr₀⟩ := run_attempt.1 he
  have hraises := hx.raises h₀
  rcases r₀ with (_ | _ | _) | _
  · cases hr₀
  all_goals first | exact nomatch hraises _ rfl | cases hr₀

/-! ## The calls a program is about to make -/

section
variable (step : σ → (op : Op) → Ans op → σ → Prop)

/-- some run of the program from the first state comes to make this call, in the second -/
inductive Reaches : Prog Ans ε α → σ → Op → σ → Prop where
  | here {op : Op} {next : Ans op → Prog Ans ε α} {s : σ} : Reaches (.call op next) s op s
  | later {op op' : Op} {next : Ans op → Prog Ans ε α} {a : Ans op} {s u v : σ} (hstep : step s op a u)
      (hrest : Reaches (next a) u op' v) : Reaches (.call op next) s op' v

end

@[simp] theorem not_reaches_done {r : Except (Stop ε) α} {s u : σ} {op : Op} : ¬Reaches step (.done r) s op u := nofun

theorem reaches_call_next {op op' : Op} {next : Ans op → Prog Ans ε α} {s v : σ} :
    Reaches step (.call op next) s op' v ↔
      (op' = op ∧ v = s) ∨ ∃ a u, step s op a u ∧ Reaches step (next a) u op' v := by
  refine ⟨?_, ?_⟩
  · intro h
    cases h with
    | here => exact .inl ⟨rfl, rfl⟩
    | later hstep hrest => exact .inr ⟨_, _, hstep, hrest⟩
  · intro h
    rcases h with ⟨rfl, rfl⟩ | ⟨a, u, hstep, hrest⟩
    · exact .here
    · exact .later hstep hrest

@[simp] theorem reaches_call {op op' : Op} {s v : σ} :
    Reaches step (call op : Prog Ans ε (Ans op)) s op' v ↔ op' = op ∧ v = s := by
  rw [call, reaches_call_next]
  simp

/-- a sequence comes to a call in its first part, or in the rest after a run of the first -/
theorem reaches_bind {x : Prog Ans ε α} {f : α → Prog Ans ε β} {s v : σ} {op : Op} :
    Reaches step (x >>= f) s op v ↔
      Reaches step x s op v ∨ ∃ a t u, Run step x s t (.ok a) u ∧ Reaches step (f a) u op v := by
  show Reaches step (x.bind f) s op v ↔ _
  induction x generalizing s with
  | done r =>
    cases r with
    | ok a => simp [Prog.bind]
    | error e => simp [Prog.bind]
  | call op' next ih =>
    rw [Prog.bind, reaches_call_next, reaches_call_next]
    refine ⟨?_, ?_⟩
    · intro h
      rcases h with he | ⟨a, u, hstep, hrest⟩
      · exact .inl (.inl he)
      · rcases (ih a).1 hrest with hx | ⟨b, t, w, hrun, hf⟩
        · exact .inl (.inr ⟨a, u, hstep, hx⟩)
        · exact .inr ⟨b, _, w, .call hstep hrun, hf⟩
    · intro h
      rcases h with (he | ⟨a, u, hstep, hx⟩) | ⟨b, t, w, hrun, hf⟩
      · exact .inl he
      · exact .inr ⟨a, u, hstep, (ih a).2 (.inl hx)⟩
      · obtain ⟨a, u, t', hstep, hrest, rfl⟩ := run_call_next.1 hrun
        exact .inr ⟨a, u, hstep, (ih a).2 (.inr ⟨b, t', w, hrest, hf⟩)⟩

theorem reaches_mapErr {f : δ → ε} {x : Prog Ans δ α} {s v : σ} {op : Op} :
    Reaches step (mapErr f x) s op v ↔ Reaches step x s op v := by
  induction x generalizing s with
  | done r => simp [mapErr]
  | call op' next ih => simp only [mapErr, reaches_call_next, ih]

/-- a loop comes to a call in one of its rounds, the rounds before having gone through -/
theorem Reaches.forM {f : α → Prog Ans ε PUnit} {xs : List α} {s v : σ} {op : Op}
    (h : Reaches step (xs.forM f) s op v) :
    ∃ ys a zs t u, xs = ys ++ a :: zs ∧ Run step (ys.forM f) s t (.ok ⟨⟩) u ∧ Reaches step (f a) u op v := by
  induction xs generalizing s with
  | nil => exact absurd h not_reaches_done
  | cons b xs ih =>
    rcases reaches_bind.1 h with hb | ⟨⟨⟩, t₁, w, hrun, hrest⟩
    · exact ⟨[], b, xs, [], s, rfl, run_forM_nil.2 ⟨rfl, rfl, rfl⟩, hb⟩
    · obtain ⟨ys, a, zs, t₂, u, rfl, hys, ha⟩ := ih hrest
      exact ⟨b :: ys, a, zs, t₁ ++ t₂, u, rfl, run_forM_cons.2 (.inl ⟨t₁, w, t₂, hrun, hys, rfl⟩), ha⟩

theorem Only.reaches {P : Event Ans → Prop} {x : Prog Ans ε α} (hx : Only P x) {s v : σ} {op : Op}
    (h : Reaches step x s op v) (a : Ans op) : P ⟨op, a⟩ := by
  induction h with
  | here => exact (hx a).1
  | later hstep hrest ih => exact ih (hx _).2 a

-- from here on the two are used through their rules: a goal about them never unfolds the program it is about
attribute [irreducible] Only Safe

/-! ## Playing the environment -/

/-- answer every call with a function of the state; the calls, the outcome and the state reached -/
def exec (drive : τ → (op : Op) → Ans op × τ) : Prog Ans ε α → τ → List (Event Ans) × Except (Stop ε) α × τ
  | .done r, s => ([], r, s)
  | .call op next, s =>
    let (a, u) := drive s op
    let (t, r, v) := exec drive (next a) u
    (⟨op, a⟩ :: t, r, v)

/-- what a well-behaved environment computes is a run -/
theorem run_exec {drive : τ → (op : Op) → Ans op × τ} {f : τ → σ}
    (h : ∀ s op, step (f s) op (drive s op).1 (f (drive s op).2)) (x : Prog Ans ε α) (s : τ) :
    Run step x (f s) (exec drive x s).1 (exec drive x s).2.1 (f (exec drive x s).2.2) := by
  induction x generalizing s with
  | done r => exact .done
  | call op next ih => exact .call (h s op) (ih _ _)

/-- the first calls only, at most `n` of them; the calls, what is left of the program, and the state reached -/
def execSome (drive : τ → (op : Op) → Ans op × τ) : ℕ → Prog Ans ε α → τ → List (Event Ans) × Prog Ans ε α × τ
  | 0, x, s => ([], x, s)
  | _ + 1, .done r, s => ([], .done r, s)
  | n + 1, .call op next, s =>
    let (a, u) := drive s op
    let (t, x, v) := execSome drive n (next a) u
    (⟨op, a⟩ :: t, x, v)

end Core.Process
