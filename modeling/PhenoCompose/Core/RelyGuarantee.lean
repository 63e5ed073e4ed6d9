/-
Rely and guarantee: what a program may count on while others take turns on the shared state, and what it owes them.

A `Contract` of one party has an invariant of the shared state, a relation that covers all the others may do to it, and
one that its own calls keep to. `Honours contract step x P Q`: wherever `P` holds and the others keep to the
contract, every call of the program `x` keeps the invariant and the guarantee, and `Q` holds where the program ends.
What is known between two calls has to be `Stable`: the others cannot end it.

- `Honours.bind`, `Honours.call_bind`, `Honours.lift_bind`, `Honours.attempt_bind`: the rules, read off the text of the
  program.
- `Honours.only`: a program whose calls change nothing needs no contract.
- `Upheld.runs`: if every program honours its contract and each guarantee is within what the others rely on, then the
  invariant holds throughout every interleaving, and every call ends as its program promises.
-/
import PhenoCompose.Core.Interleave

namespace Core.RelyGuarantee

open Core.Process Core.Transition Core.Interleave

variable {Op : Type} {Ans : Op → Type} {ε δ α β C σ ι : Type}

structure Contract (σ : Type) where
  inv : σ → Prop
  rely : σ → σ → Prop
  guarantee : σ → σ → Prop

variable {contract : Contract σ} {step : σ → (op : Op) → Ans op → σ → Prop} {P P' : σ → Prop}

/-- what the others cannot end -/
def Stable (contract : Contract σ) (P : σ → Prop) : Prop :=
  ∀ s u, contract.inv s → contract.inv u → contract.rely s u → P s → P u

theorem Stable.const (p : Prop) : Stable contract fun _ => p := fun _ _ _ _ _ hp => hp

theorem Stable.and (hP : Stable contract P) (hP' : Stable contract P') : Stable contract fun s => P s ∧ P' s :=
  fun s u hs hu h hp => ⟨hP s u hs hu h hp.1, hP' s u hs hu h hp.2⟩

variable (contract step) in
/-- every call keeps the invariant and the guarantee, with something stable known between one call and the next -/
def Honours : Prog Ans ε α → (σ → Prop) → (Except (Stop ε) α → σ → Prop) → Prop
  | .done r, P, Q => ∀ s, contract.inv s → P s → Q r s
  | .call op next, P, Q => ∀ a, ∃ M, Stable contract M ∧
      (∀ s u, contract.inv s → P s → step s op a u → contract.inv u ∧ contract.guarantee s u ∧ M u) ∧
      Honours (next a) M Q

/-! ## Rules -/

section
variable {Q Q' : Except (Stop ε) α → σ → Prop} {x : Prog Ans ε α}

/-- from more one may promise less -/
theorem Honours.weaken (hx : Honours contract step x P Q)
    (hpre : ∀ s, contract.inv s → P' s → P s) (hpost : ∀ r s, contract.inv s → Q r s → Q' r s) :
    Honours contract step x P' Q' := by
  induction x generalizing P P' with
  | done r => exact fun s hs hp => hpost r s hs (hx s hs (hpre s hs hp))
  | call op next ih =>
    intro a
    obtain ⟨M, hstable, hstep, hrest⟩ := hx a
    exact ⟨M, hstable, fun s u hs hp h => hstep s u hs (hpre s hs hp) h, ih a hrest fun _ _ h => h⟩

theorem Honours.strengthen (hx : Honours contract step x P Q)
    (hpre : ∀ s, contract.inv s → P' s → P s) : Honours contract step x P' Q :=
  hx.weaken hpre fun _ _ _ h => h

theorem Honours.pure {a : α} (h : ∀ s, contract.inv s → P s → Q (.ok a) s) :
    Honours contract step (pure a : Prog Ans ε α) P Q := h

theorem Honours.fail {e : ε} (h : ∀ s, contract.inv s → P s → Q (.error (.err e)) s) :
    Honours contract step (fail e : Prog Ans ε α) P Q := h

theorem Honours.lift {y : Except (Stop ε) α} (h : ∀ s, contract.inv s → P s → Q y s) :
    Honours contract step (liftM y : Prog Ans ε α) P Q := h

end

/-- where no run can be, anything is promised -/
theorem Honours.impossible {x : Prog Ans ε α} {Q : Except (Stop ε) α → σ → Prop}
    (h : ∀ s, contract.inv s → ¬P s) :
    Honours contract step x P Q := by
  induction x generalizing P with
  | done r => exact fun s hs hp => absurd hp (h s hs)
  | call op next ih =>
    exact fun a => ⟨fun _ => False, .const False, fun s _ hs hp => absurd hp (h s hs), ih a fun _ _ => id⟩

/-- what is known whatever the state may be used from here on -/
theorem Honours.given {p : Prop} {x : Prog Ans ε α} {Q : Except (Stop ε) α → σ → Prop}
    (hx : p → Honours contract step x P Q) : Honours contract step x (fun s => p ∧ P s) Q := by
  by_cases hp : p
  · exact (hx hp).strengthen fun _ _ h => h.2
  · exact .impossible fun s _ h => hp h.1

/-- a program, and one that goes on from what it promises -/
theorem Honours.bind {x : Prog Ans ε α} {f : α → Prog Ans ε β} {M : Except (Stop ε) α → σ → Prop}
    {Q : Except (Stop ε) β → σ → Prop} (hx : Honours contract step x P M)
    (hok : ∀ a, Honours contract step (f a) (M (.ok a)) Q)
    (herror : ∀ e s, contract.inv s → M (.error e) s → Q (.error e) s) :
    Honours contract step (x >>= f) P Q := by
  show Honours contract step (x.bind f) P Q
  induction x generalizing P with
  | done r =>
    cases r with
    | ok a => exact (hok a).strengthen hx
    | error e => exact fun s hs hp => herror e s hs (hx s hs hp)
  | call op next ih =>
    intro a
    obtain ⟨known, hstable, hstep, hrest⟩ := hx a
    exact ⟨known, hstable, hstep, ih a hrest⟩

/-- a program that begins with a computation without calls -/
theorem Honours.lift_bind {x : Except (Stop ε) α} {f : α → Prog Ans ε β} {Q : Except (Stop ε) β → σ → Prop}
    (hok : ∀ a, x = .ok a → Honours contract step (f a) P Q)
    (herror : ∀ e s, x = .error e → contract.inv s → P s → Q (.error e) s) :
    Honours contract step ((liftM x : Prog Ans ε α) >>= f) P Q := by
  cases x with
  | ok a => exact hok a rfl
  | error e => exact fun s hs hp => herror e s rfl hs hp

/-- a program whose calls change nothing, and so end nothing that is stable -/
theorem Honours.only {F : Event Ans → Prop} {x : Prog Ans ε α} {Q : Except (Stop ε) α → σ → Prop} (hx : Only F x)
    (hkeeps : ∀ {s op a u}, F ⟨op, a⟩ → step s op a u → u = s) (hrefl : ∀ s, contract.guarantee s s)
    (hstable : Stable contract P) (hpost : ∀ r s, contract.inv s → P s → Q r s) :
    Honours contract step x P Q := by
  induction x with
  | done r => exact hpost r
  | call op next ih =>
    intro a
    obtain ⟨hfirst, hrest⟩ := only_call_next.1 hx a
    refine ⟨P, hstable, fun s u hs hp h => ?_, ih a hrest⟩
    rw [hkeeps hfirst h]
    exact ⟨hs, hrefl s, hp⟩

/-- an error that is passed on -/
theorem raises_pass {x : Except (Stop ε) α} (h : Raises x) {e : Stop ε} (he : x = .error e) :
    Raises (.error e : Except (Stop ε) β) := by
  obtain ⟨error, rfl⟩ := h e he
  exact .err error

/-- where a program does not panic, that can be promised too -/
theorem Honours.raises {x : Prog Ans ε α} {Q : Except (Stop ε) α → σ → Prop} (hsafe : Safe x)
    (hx : Honours contract step x P Q) :
    Honours contract step x P fun r s => Raises r ∧ Q r s := by
  induction x generalizing P with
  | done r => exact fun s hs hp => ⟨safe_done.1 hsafe, hx s hs hp⟩
  | call op next ih =>
    intro a
    obtain ⟨known, hstable, hstep, hrest⟩ := hx a
    exact ⟨known, hstable, hstep, ih a (safe_call_next.1 hsafe a) hrest⟩

/-! ## Interleavings -/

/-- the invariant holds, and what each party has left honours its contract from where it is -/
structure Upheld (contracts : ι → Contract σ) (inv : σ → Prop) (steps : ι → σ → (op : Op) → Ans op → σ → Prop)
    (post : ι → C → Except (Stop ε) α → σ → Prop) (u : Pool σ ι C (Prog Ans ε α)) : Prop where
  inv : inv u.shared
  parties : ∀ i c x, u.parties i = some (c, x) → ∃ known, Stable (contracts i) known ∧ known u.shared ∧
    Honours (contracts i) (steps i) x known (post i c)

/-- the invariant of all contracts is the same; what one party does is within what the others rely on, and within `R` -/
structure Compatible (contracts : ι → Contract σ) (inv : σ → Prop) (R : σ → σ → Prop) : Prop where
  inv : ∀ i, (contracts i).inv = inv
  within : ∀ i j, i ≠ j → ∀ s u, (contracts i).guarantee s u → (contracts j).rely s u
  related : ∀ i s u, (contracts i).guarantee s u → R s u

section
variable {contracts : ι → Contract σ} {inv : σ → Prop} {R : σ → σ → Prop}
  {steps : ι → σ → (op : Op) → Ans op → σ → Prop} {body : C → Prog Ans ε α} {allowed : ι → C → Prop}
  {post : ι → C → Except (Stop ε) α → σ → Prop} {u v : Pool σ ι C (Prog Ans ε α)}

variable [DecidableEq ι]

/-- one party moves, and ends nothing that another knows -/
theorem Upheld.move (h : Upheld contracts inv steps post u) {s : σ} (hs : inv s) {i : ι} {y : Option (C × Prog Ans ε α)}
    (hself : ∀ c x, y = some (c, x) → ∃ known, Stable (contracts i) known ∧ known s ∧
      Honours (contracts i) (steps i) x known (post i c))
    (hothers : ∀ j, j ≠ i → ∀ P, Stable (contracts j) P → P u.shared → P s) :
    Upheld contracts inv steps post ⟨s, Function.update u.parties i y⟩ := by
  refine ⟨hs, ?_⟩
  intro j c x hx
  by_cases hj : j = i
  · subst hj
    exact hself c x (by simpa using hx)
  · obtain ⟨known, hstable, hknown, hhonours⟩ := h.parties j c x (by simpa [hj] using hx)
    exact ⟨known, hstable, hothers j hj known hstable hknown, hhonours⟩

variable [IsPreorder σ R]

/-- one turn keeps everything, and a call that ends does so as its program promises -/
theorem Upheld.turn (hc : Compatible contracts inv R)
    (hbody : ∀ i c, allowed i c → Honours (contracts i) (steps i) (body c) (fun _ => True) (post i c))
    (h : Upheld contracts inv steps post u) {l : Label Ans ι C (Except (Stop ε) α)}
    (hl : Turn (programs body) steps u l v) (hallowed : ∀ i c, l = .invoke i c → allowed i c) :
    Upheld contracts inv steps post v ∧ R u.shared v.shared ∧ ∀ i c r, l = .returns i c r → post i c r v.shared := by
  have hinv : ∀ i s, (contracts i).inv s ↔ inv s := fun i s => by rw [hc.inv i]
  cases hl with
  | @invoke i c hidle =>
    refine ⟨h.move h.inv (fun c' x he => ?_) fun _ _ _ _ hP => hP, refl_of R _, fun _ _ _ he => by cases he⟩
    cases he
    exact ⟨_, .const True, trivial, hbody i c (hallowed i c rfl)⟩
  | @event i c x y e s hin hdoes hstep =>
    obtain ⟨next, rfl, rfl⟩ := hdoes
    obtain ⟨known, hstable, hknown, hhonours⟩ := h.parties i c _ hin
    obtain ⟨mid, hmid, hcall, hrest⟩ := hhonours e.2
    obtain ⟨hs, hguarantee, hnow⟩ := hcall _ _ ((hinv i _).2 h.inv) hknown hstep
    rw [hinv] at hs
    refine ⟨h.move hs (fun c' x he => ?_) fun j hj P hP => ?_, hc.related i _ _ hguarantee, fun _ _ _ he => by cases he⟩
    · cases he
      exact ⟨mid, hmid, hnow, hrest⟩
    · exact hP _ _ ((hinv j _).2 h.inv) ((hinv j _).2 hs) (hc.within i j hj.symm _ _ hguarantee)
  | @returns i c x r hin hends =>
    obtain rfl := hends
    obtain ⟨known, -, hknown, hhonours⟩ := h.parties i c _ hin
    refine ⟨h.move h.inv (fun _ _ he => by cases he) fun _ _ _ _ hP => hP, refl_of R _, fun i' c' r' he => ?_⟩
    cases he
    exact hhonours _ ((hinv i _).2 h.inv) hknown

/-- **Where every program honours its contract**, every interleaving keeps the invariant, stays within `R` from any
moment to any later one, and every call that ended did so, at some moment, as its program promises. -/
theorem Upheld.runs (hc : Compatible contracts inv R)
    (hbody : ∀ i c, allowed i c → Honours (contracts i) (steps i) (body c) (fun _ => True) (post i c))
    {t : List (Label Ans ι C (Except (Stop ε) α))} (h : Runs (Turn (programs body) steps) u t v)
    (hallowed : ∀ i c, .invoke i c ∈ t → allowed i c) (hu : Upheld contracts inv steps post u) :
    Upheld contracts inv steps post v ∧ R u.shared v.shared ∧
      ∀ i c r, .returns i c r ∈ t → ∃ s, post i c r s ∧ R s v.shared := by
  induction h with
  | nil => exact ⟨hu, refl_of R _, fun _ _ _ he => by cases he⟩
  | @cons u w v l t hl hrest ih =>
    obtain ⟨hw, hfirst, hends⟩ := hu.turn hc hbody hl fun i c he => hallowed i c (he ▸ List.mem_cons_self)
    obtain ⟨hv, hlater, hends'⟩ := ih (fun i c he => hallowed i c (List.mem_cons_of_mem l he)) hw
    refine ⟨hv, trans_of R hfirst hlater, ?_⟩
    intro i c r he
    rcases List.mem_cons.1 he with he | he
    · exact ⟨w.shared, hends i c r he.symm, hlater⟩
    · exact hends' i c r he

end

end Core.RelyGuarantee
