/-
Parties that take turns on a shared state, each in a call of its own.

What a party does during a call is a `Behaviour`: where a call starts, what its next event may be and what is left then,
and with what it ends. A program is one, with itself as what is left; a protocol, with a phase, is another. A `Turn` is a
call that starts, one event of a party in a call, or a call that ends.

- `Follows`: every run of a program keeps to a protocol, whatever the answers.
- `runs_follow`: an interleaving of programs is, label by label, an interleaving of the protocols they follow.
- `plays_invoke`, `plays_within`, `plays_some`, `plays_return`, `plays_alone`: pieces of an interleaving, put together from
  what each party does.
-/
import PhenoCompose.Core.Process
import PhenoCompose.Core.Transition

namespace Core.Interleave

open Core.Process Core.Transition

variable {Op : Type} {Ans : Op → Type} {ε α C R P Q σ ι : Type}

structure Behaviour (Ans : Op → Type) (C R P : Type) where
  start : C → P
  does : P → Event Ans → P → Prop
  ends : P → R → Prop

/-- a program, which makes its next call whatever the answer, or has ended -/
def programs (body : C → Prog Ans ε α) : Behaviour Ans C (Except (Stop ε) α) (Prog Ans ε α) where
  start := body
  does x e y := ∃ next, x = .call e.1 next ∧ y = next e.2
  ends x r := x = .done r

inductive Label (Ans : Op → Type) (ι C R : Type) where
  | invoke (i : ι) (c : C)
  | event (i : ι) (c : C) (e : Event Ans)
  | returns (i : ι) (c : C) (r : R)

/-- the shared state, and for each party the call it is in with what is left of it -/
structure Pool (σ ι C P : Type) where
  shared : σ
  parties : ι → Option (C × P)

/-- nobody is in a call -/
def Pool.quiet (s : σ) : Pool σ ι C P := ⟨s, fun _ => none⟩

section
variable [DecidableEq ι] (b : Behaviour Ans C R P) (step : ι → σ → (op : Op) → Ans op → σ → Prop)

inductive Turn : Pool σ ι C P → Label Ans ι C R → Pool σ ι C P → Prop where
  | invoke {u : Pool σ ι C P} {i : ι} {c : C} (hidle : u.parties i = none) :
      Turn u (.invoke i c) ⟨u.shared, Function.update u.parties i (some (c, b.start c))⟩
  | event {u : Pool σ ι C P} {i : ι} {c : C} {x y : P} {e : Event Ans} {s : σ} (hin : u.parties i = some (c, x))
      (hdoes : b.does x e y) (hstep : step i u.shared e.1 e.2 s) :
      Turn u (.event i c e) ⟨s, Function.update u.parties i (some (c, y))⟩
  | returns {u : Pool σ ι C P} {i : ι} {c : C} {x : P} {r : R} (hin : u.parties i = some (c, x)) (hends : b.ends x r) :
      Turn u (.returns i c r) ⟨u.shared, Function.update u.parties i none⟩

end

/-! ## Programs that keep to a protocol -/

/-- every run of a program keeps to the protocol, whatever is answered, and ends as the protocol may -/
def Follows (does : P → Event Ans → P → Prop) (ends : P → Except (Stop ε) α → Prop) : Prog Ans ε α → P → Prop
  | .done r, q => ends q r
  | .call op next, q => ∀ a, ∃ q', does q ⟨op, a⟩ q' ∧ Follows does ends (next a) q'

section
variable {β δ : Type} {does : P → Event Ans → P → Prop} {ends : P → Except (Stop ε) α → Prop} {q : P}

theorem Follows.pure {a : α} (h : ends q (.ok a)) : Follows does ends (pure a : Prog Ans ε α) q := h

theorem Follows.fail {e : ε} (h : ends q (.error (.err e))) : Follows does ends (fail e : Prog Ans ε α) q := h

theorem Follows.lift {x : Except (Stop ε) α} (h : ends q x) : Follows does ends (liftM x : Prog Ans ε α) q := h

theorem Follows.callOr {Value : Op → Type} {does : P → Event (Fallible δ Value) → P → Prop} {stop : δ → Stop ε}
    {op : Op} {ends : P → Except (Stop ε) (Value op) → Prop}
    (h : ∀ a : Fallible δ Value op, ∃ q', does q ⟨op, a⟩ q' ∧ ends q' (a.mapError stop)) :
    Follows does ends (callOr stop op) q := by
  intro a
  obtain ⟨q', hdoes, hends⟩ := h a
  refine ⟨q', hdoes, ?_⟩
  cases a with
  | ok a => exact hends
  | error d => exact hends

/-- a program that ends as the protocol may, and one that goes on from there -/
theorem Follows.bind {x : Prog Ans ε α} {f : α → Prog Ans ε β} {E : P → Except (Stop ε) α → Prop}
    {ends : P → Except (Stop ε) β → Prop} (hx : Follows does E x q) (hok : ∀ q a, E q (.ok a) → Follows does ends (f a) q)
    (herror : ∀ q e, E q (.error e) → ends q (.error e)) : Follows does ends (x >>= f) q := by
  show Follows does ends (x.bind f) q
  induction x generalizing q with
  | done r =>
    cases r with
    | ok a => exact hok q a hx
    | error e => exact herror q e hx
  | call op next ih =>
    intro a
    obtain ⟨q', hdoes, hrest⟩ := hx a
    exact ⟨q', hdoes, ih a hrest⟩

/-- a program that begins with a computation without calls -/
theorem Follows.lift_bind {x : Except (Stop ε) α} {f : α → Prog Ans ε β} {ends' : P → Except (Stop ε) β → Prop}
    (hok : ∀ a, x = .ok a → Follows does ends' (f a) q) (herror : ∀ e, x = .error e → ends' q (.error e)) :
    Follows does ends' ((liftM x : Prog Ans ε α) >>= f) q := by
  cases x with
  | ok a => exact hok a rfl
  | error e => exact herror e rfl

theorem Follows.post {x : Prog Ans ε α} {ends' : P → Except (Stop ε) α → Prop} (hx : Follows does ends x q)
    (h : ∀ q r, ends q r → ends' q r) : Follows does ends' x q := by
  induction x generalizing q with
  | done r => exact h q r hx
  | call op next ih =>
    intro a
    obtain ⟨q', hdoes, hrest⟩ := hx a
    exact ⟨q', hdoes, ih a hrest⟩

/-- the calls of a run are steps of the protocol, to where the run ends as the protocol may -/
theorem Follows.runs {step : σ → (op : Op) → Ans op → σ → Prop} {x : Prog Ans ε α} (hx : Follows does ends x q) {s u : σ}
    {t : List (Event Ans)} {r : Except (Stop ε) α} (h : Run step x s t r u) : ∃ q', Runs does q t q' ∧ ends q' r := by
  induction h generalizing q with
  | done => exact ⟨q, .nil, hx⟩
  | @call op next a s u v t r hstep _ ih =>
    obtain ⟨q', hdoes, hrest⟩ := hx a
    obtain ⟨q'', hruns, hends⟩ := ih hrest
    exact ⟨q'', .cons hdoes hruns, hends⟩

end

section
variable {δ : Type} {does : P → Event Ans → P → Prop} {q : P}

/-- a program whose calls leave the phase as it is -/
theorem Follows.only {F : Event Ans → Prop} {ends : P → Except (Stop ε) α → Prop} {x : Prog Ans ε α} (hx : Only F x)
    (hstays : ∀ e, F e → does q e q) (hends : ∀ r, ends q r) : Follows does ends x q := by
  induction x with
  | done r => exact hends r
  | call op next ih =>
    intro a
    obtain ⟨hfirst, hrest⟩ := only_call_next.1 hx a
    exact ⟨q, hstays _ hfirst, ih a hrest⟩

theorem Follows.attempt {x : Prog Ans δ α} {E : P → Except (Stop δ) α → Prop}
    {ends : P → Except (Stop ε) (Except δ α) → Prop} (hx : Follows does E x q)
    (h : ∀ q r, E q r → ends q (caught r)) : Follows does ends (attempt x) q := by
  induction x generalizing q with
  | done r => exact h q r hx
  | call op next ih =>
    intro a
    obtain ⟨q', hdoes, hrest⟩ := hx a
    exact ⟨q', hdoes, ih a hrest⟩

end

/-! ## From programs to protocols -/

section
variable {b : Behaviour Ans C (Except (Stop ε) α) P}

/-- the same shared state, and parties in the same calls, with programs that follow the protocol from here on -/
structure Abstracts (b : Behaviour Ans C (Except (Stop ε) α) P) (u : Pool σ ι C (Prog Ans ε α)) (v : Pool σ ι C P) :
    Prop where
  shared : v.shared = u.shared
  idle : ∀ i, u.parties i = none → v.parties i = none
  follows : ∀ i c x, u.parties i = some (c, x) → ∃ q, v.parties i = some (c, q) ∧ Follows b.does b.ends x q

theorem abstracts_quiet (s : σ) : Abstracts (ι := ι) b (.quiet s) (.quiet s) := ⟨rfl, fun _ _ => rfl, nofun⟩

variable [DecidableEq ι] {step : ι → σ → (op : Op) → Ans op → σ → Prop} {body : C → Prog Ans ε α}
  {u u' : Pool σ ι C (Prog Ans ε α)} {v : Pool σ ι C P}

/-- one party moves, and the others are as they were -/
theorem Abstracts.move (h : Abstracts b u v) {s : σ} {i : ι} {x : Option (C × Prog Ans ε α)} {y : Option (C × P)}
    (hidle : x = none → y = none)
    (hin : ∀ c p, x = some (c, p) → ∃ q, y = some (c, q) ∧ Follows b.does b.ends p q) :
    Abstracts b ⟨s, Function.update u.parties i x⟩ ⟨s, Function.update v.parties i y⟩ := by
  refine ⟨rfl, ?_, ?_⟩
  · intro j
    rcases eq_or_ne j i with rfl | hj
    · simpa using hidle
    · simpa [hj] using h.idle j
  · intro j c p
    rcases eq_or_ne j i with rfl | hj
    · simpa using hin c p
    · simpa [hj] using h.follows j c p

theorem Abstracts.turn (hbody : ∀ c, Follows b.does b.ends (body c) (b.start c)) (h : Abstracts b u v)
    {l : Label Ans ι C (Except (Stop ε) α)} (hl : Turn (programs body) step u l u') :
    ∃ v', Turn b step v l v' ∧ Abstracts b u' v' := by
  cases hl with
  | @invoke i c hidle =>
    rw [← h.shared]
    refine ⟨_, .invoke (h.idle i hidle), h.move nofun ?_⟩
    intro c' p he
    cases he
    exact ⟨_, rfl, hbody c⟩
  | @event i c x y e s hin hdoes hstep =>
    obtain ⟨next, rfl, rfl⟩ := hdoes
    obtain ⟨q, hq, hfollows⟩ := h.follows i c _ hin
    obtain ⟨q', hdoes, hrest⟩ := hfollows e.2
    refine ⟨_, .event hq hdoes (h.shared ▸ hstep), h.move nofun ?_⟩
    intro c' p he
    cases he
    exact ⟨q', rfl, hrest⟩
  | @returns i c x r hin hends =>
    obtain rfl := hends
    obtain ⟨q, hq, hfollows⟩ := h.follows i c _ hin
    rw [← h.shared]
    exact ⟨_, .returns hq hfollows, h.move (fun _ => rfl) nofun⟩

/-- **An interleaving of programs is one of the protocols they follow.** -/
theorem runs_follow (hbody : ∀ c, Follows b.does b.ends (body c) (b.start c)) {s : σ}
    {t : List (Label Ans ι C (Except (Stop ε) α))} (h : Runs (Turn (programs body) step) (.quiet s) t u) :
    ∃ v, Runs (Turn b step) (.quiet s) t v ∧ Abstracts b u v := by
  have hstep : ∀ u v l u', Abstracts b u v → Turn (programs body) step u l u' →
      ∃ v', Turn b step v l v' ∧ Abstracts b u' v' := fun _ _ _ _ ha hl => ha.turn hbody hl
  exact h.simulated hstep (abstracts_quiet s)

end

/-! ## Playing a schedule -/

section
variable [DecidableEq ι] {step : ι → σ → (op : Op) → Ans op → σ → Prop} {body : C → Prog Ans ε α}
  {u : Pool σ ι C (Prog Ans ε α)} {i : ι} {c : C}

/-- the pool after one party has moved, seen from each of them -/
structure Moved (u : Pool σ ι C P) (i : ι) (s : σ) (x : Option (C × P)) (v : Pool σ ι C P) : Prop where
  shared : v.shared = s
  self : v.parties i = x
  others : ∀ j, j ≠ i → v.parties j = u.parties j

theorem moved_update (u : Pool σ ι C P) (i : ι) (s : σ) (x : Option (C × P)) :
    Moved u i s x ⟨s, Function.update u.parties i x⟩ :=
  ⟨rfl, Function.update_self .., fun _ hj => Function.update_of_ne hj ..⟩

theorem plays_invoke (c : C) (hidle : u.parties i = none) :
    ∃ v, Turn (programs body) step u (.invoke i c) v ∧ Moved u i u.shared (some (c, body c)) v :=
  ⟨_, .invoke hidle, moved_update ..⟩

/-- one party runs a part `x` of what it has left, which is `k x` -/
theorem plays_within {β : Type} {x : Prog Ans ε β} {k : Prog Ans ε β → Prog Ans ε α}
    (hk : ∀ op next, k (.call op next) = .call op fun a => k (next a)) {s : σ} {t : List (Event Ans)}
    {r : Except (Stop ε) β} (hin : u.parties i = some (c, k x)) (h : Run (step i) x u.shared t r s) :
    ∃ v, Runs (Turn (programs body) step) u (t.map (.event i c)) v ∧ Moved u i s (some (c, k (.done r))) v := by
  induction x generalizing u t with
  | done r =>
    obtain ⟨rfl, rfl, rfl⟩ := run_done.1 h
    exact ⟨u, .nil, rfl, hin, fun _ _ => rfl⟩
  | call op next ih =>
    obtain ⟨a, s', t', hstep, hrest, rfl⟩ := run_call_next.1 h
    rw [hk] at hin
    obtain ⟨v, hturn, hv⟩ : ∃ v, Turn (programs body) step u (.event i c ⟨op, a⟩) v ∧
        Moved u i s' (some (c, k (next a))) v := ⟨_, .event hin ⟨_, rfl, rfl⟩ hstep, moved_update ..⟩
    rw [← hv.shared] at hrest
    obtain ⟨w, hrest', hw⟩ := ih a hv.self hrest
    exact ⟨w, runs_cons.2 ⟨v, hturn, hrest'⟩, hw.shared, hw.self, fun j hj => (hw.others j hj).trans (hv.others j hj)⟩

theorem plays_return {r : Except (Stop ε) α} (hin : u.parties i = some (c, .done r)) :
    ∃ v, Turn (programs body) step u (.returns i c r) v ∧ Moved u i u.shared none v :=
  ⟨_, .returns hin rfl, moved_update ..⟩

/-- one party makes some of its calls -/
theorem plays_some {drive : σ → (op : Op) → Ans op × σ} (h : ∀ s op, step i s op (drive s op).1 (drive s op).2) {n : ℕ}
    {x : Prog Ans ε α} {out : List (Event Ans) × Prog Ans ε α × σ} (hin : u.parties i = some (c, x))
    (hout : execSome drive n x u.shared = out) :
    ∃ v, Runs (Turn (programs body) step) u (out.1.map (.event i c)) v ∧ Moved u i out.2.2 (some (c, out.2.1)) v := by
  subst hout
  induction n generalizing u x with
  | zero => exact ⟨u, .nil, rfl, hin, fun _ _ => rfl⟩
  | succ n ih =>
    cases x with
    | done r => exact ⟨u, .nil, rfl, hin, fun _ _ => rfl⟩
    | call op next =>
      obtain ⟨v, hturn, hv⟩ : ∃ v, Turn (programs body) step u (.event i c ⟨op, (drive u.shared op).1⟩) v ∧
          Moved u i (drive u.shared op).2 (some (c, next (drive u.shared op).1)) v :=
        ⟨_, .event hin ⟨next, rfl, rfl⟩ (h u.shared op), moved_update ..⟩
      obtain ⟨w, hrest, hw⟩ := ih hv.self
      rw [hv.shared] at hrest hw
      exact ⟨w, runs_cons.2 ⟨v, hturn, hrest⟩, hw.shared, hw.self, fun j hj => (hw.others j hj).trans (hv.others j hj)⟩

/-- one party makes a whole call, while the others wait -/
theorem plays_alone {s : σ} {t : List (Event Ans)} {r : Except (Stop ε) α} (hidle : u.parties i = none)
    (h : Run (step i) (body c) u.shared t r s) :
    ∃ v, Runs (Turn (programs body) step) u (.invoke i c :: (t.map (.event i c) ++ [.returns i c r])) v ∧
      Moved u i s none v := by
  obtain ⟨u₁, h₁, m₁⟩ : ∃ v, Turn (programs body) step u (.invoke i c) v ∧ _ := plays_invoke c hidle
  rw [← m₁.shared] at h
  obtain ⟨u₂, h₂, m₂⟩ := plays_within (k := id) (fun _ _ => rfl) m₁.self h
  obtain ⟨u₃, h₃, m₃⟩ : ∃ v, Turn (programs body) step u₂ (.returns i c r) v ∧ _ := plays_return m₂.self
  refine ⟨u₃, runs_cons.2 ⟨u₁, h₁, runs_append.2 ⟨u₂, h₂, runs_one.2 h₃⟩⟩, m₃.shared.trans m₂.shared, m₃.self, ?_⟩
  exact fun j hj => ((m₃.others j hj).trans (m₂.others j hj)).trans (m₁.others j hj)

end

end Core.Interleave
