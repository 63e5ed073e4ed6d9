/-
What each party does in an interleaving, call by call.

- `diary`: of one party, the calls that have returned with what they did, and what the present one has done so far.
- `own_eq`: what a party did is what its calls did, one after the other.
- `recorded`: a call that has returned made a run of its program, with an environment that answered as it was answered.
- `session_unique`: something that happens once in an interleaving happened in one call of one party.
-/
import PhenoCompose.Core.Interleave

namespace Core.Sessions

open Core.Interleave Core.Process Core.Transition

variable {Op : Type} {Ans : Op → Type} {ε α β C R P σ ι : Type}

/-- a call that has returned -/
structure Session (Ans : Op → Type) (C R : Type) where
  call : C
  trace : List (Event Ans)
  result : R

structure Diary (Ans : Op → Type) (C R : Type) where
  closed : List (Session Ans C R)
  pending : List (Event Ans)

/-- what `f` makes of an event, whoever it is of -/
def ofEvent (f : Event Ans → Option β) : Label Ans ι C R → Option β
  | .event _ _ e => f e
  | .invoke .. | .returns .. => none

section
variable [DecidableEq ι] (i : ι)

def note (d : Diary Ans C R) : Label Ans ι C R → Diary Ans C R
  | .invoke .. => d
  | .event j _ e => if j = i then { d with pending := d.pending ++ [e] } else d
  | .returns j c r => if j = i then ⟨d.closed ++ [⟨c, d.pending, r⟩], []⟩ else d

def diary (t : List (Label Ans ι C R)) : Diary Ans C R := t.foldl (note i) ⟨[], []⟩

def ownEvent : Label Ans ι C R → Option (Event Ans)
  | .event j _ e => if j = i then some e else none
  | .invoke .. | .returns .. => none

/-- the events of one party -/
def own (t : List (Label Ans ι C R)) : List (Event Ans) := t.filterMap (ownEvent i)

theorem diary_snoc (t : List (Label Ans ι C R)) (l : Label Ans ι C R) : diary i (t ++ [l]) = note i (diary i t) l := by
  simp [diary]

/-- what a party did is what its calls did, one after the other -/
theorem own_eq (t : List (Label Ans ι C R)) :
    own i t = (diary i t).closed.flatMap Session.trace ++ (diary i t).pending := by
  induction t using List.reverseRecOn with
  | nil => rfl
  | append_singleton t l ih =>
    rw [diary_snoc, own, List.filterMap_append, ← own, ih]
    cases l with
    | invoke => simp [ownEvent, note]
    | event j => by_cases hj : j = i <;> simp [ownEvent, note, hj]
    | returns j => by_cases hj : j = i <;> simp [ownEvent, note, hj]

theorem mem_own {t : List (Label Ans ι C R)} {e : Event Ans} : e ∈ own i t ↔ ∃ c, .event i c e ∈ t := by
  rw [own, List.mem_filterMap]
  refine ⟨?_, fun ⟨c, hc⟩ => ⟨_, hc, by simp [ownEvent]⟩⟩
  rintro ⟨l, hl, he⟩
  cases l with
  | invoke | returns => cases he
  | event j c e' =>
    simp only [ownEvent, Option.ite_none_right_eq_some, Option.some.injEq] at he
    obtain ⟨rfl, rfl⟩ := he
    exact ⟨c, hl⟩

theorem mem_own_of_closed {t : List (Label Ans ι C R)} {session : Session Ans C R} (h : session ∈ (diary i t).closed)
    {e : Event Ans} (he : e ∈ session.trace) : e ∈ own i t := by
  rw [own_eq, List.mem_append, List.mem_flatMap]
  exact .inl ⟨session, h, he⟩

/-- nothing that has returned is forgotten -/
theorem closed_grows (t t' : List (Label Ans ι C R)) : (diary i t).closed <+: (diary i (t ++ t')).closed := by
  induction t' using List.reverseRecOn with
  | nil => rw [List.append_nil]
  | append_singleton t' l ih =>
    rw [← List.append_assoc, diary_snoc]
    refine ih.trans ?_
    cases l with
    | invoke => exact List.prefix_rfl
    | event j => by_cases hj : j = i <;> simp [note, hj]
    | returns j => by_cases hj : j = i <;> simp [note, hj]

section
variable {i} {t : List (Label Ans ι C R)} {c c' : C} {r r' : R} {m n : ℕ}

theorem diary_returns (h : t[n]? = some (.returns i c r)) :
    (diary i (t.take (n + 1))).closed = (diary i (t.take n)).closed ++ [⟨c, (diary i (t.take n)).pending, r⟩] := by
  rw [List.take_succ, h, Option.toList_some, diary_snoc, note, if_pos rfl]

/-- a call that returns is put in the diary after those that have returned before -/
theorem closed_at (h : t[n]? = some (.returns i c r)) : (diary i t).closed[(diary i (t.take n)).closed.length]? =
    some ⟨c, (diary i (t.take n)).pending, r⟩ := by
  have hprefix := closed_grows i (t.take (n + 1)) (t.drop (n + 1))
  rw [List.take_append_drop, diary_returns h] at hprefix
  obtain ⟨rest, hrest⟩ := hprefix
  rw [← hrest, List.append_assoc, List.getElem?_append_right (le_refl _), Nat.sub_self]
  rfl

theorem closed_later (h : t[m]? = some (.returns i c r)) (hlt : m < n) :
    (diary i (t.take m)).closed.length < (diary i (t.take n)).closed.length := by
  obtain ⟨rest, hrest⟩ := List.take_prefix_take_left (l := t) (Nat.succ_le_of_lt hlt)
  have hprefix := (closed_grows i (t.take (m + 1)) rest).length_le
  rw [hrest, diary_returns h, List.length_append] at hprefix
  exact hprefix

/-- calls of one party that return at different places are different in the diary -/
theorem place_unique (h : t[m]? = some (.returns i c r)) (h' : t[n]? = some (.returns i c' r'))
    (hsame : (diary i (t.take m)).closed.length = (diary i (t.take n)).closed.length) : m = n := by
  rcases Nat.lt_trichotomy m n with hlt | rfl | hlt
  · exact absurd hsame (closed_later h hlt).ne
  · rfl
  · exact absurd hsame (closed_later h' hlt).ne'

end

/-- a call that has returned is in the diary -/
theorem closed_of_returns {t : List (Label Ans ι C R)} {c : C} {r : R} (h : .returns i c r ∈ t) :
    ∃ trace, ⟨c, trace, r⟩ ∈ (diary i t).closed := by
  obtain ⟨n, hn⟩ := List.mem_iff_getElem?.1 h
  exact ⟨_, List.mem_of_getElem? (closed_at hn)⟩

theorem returns_of_closed {t : List (Label Ans ι C R)} {session : Session Ans C R} (h : session ∈ (diary i t).closed) :
    .returns i session.call session.result ∈ t := by
  induction t using List.reverseRecOn with
  | nil => cases h
  | append_singleton t l ih =>
    rw [diary_snoc] at h
    rw [List.mem_append]
    cases l with
    | invoke => exact .inl (ih h)
    | event j =>
      refine .inl (ih ?_)
      by_cases hj : j = i <;> simpa [note, hj] using h
    | returns j c r =>
      by_cases hj : j = i
      · rw [note, if_pos hj, List.mem_append, List.mem_singleton] at h
        rcases h with h | rfl
        · exact .inl (ih h)
        · exact .inr (by simp [hj])
      · rw [note, if_neg hj] at h
        exact .inl (ih h)

end

/-! ## Once in an interleaving -/

theorem place_of_nodup_flatMap {g : α → List β} {l : List α} (h : (l.flatMap g).Nodup) {m n : ℕ} {a a' : α}
    (ha : l[m]? = some a) (ha' : l[n]? = some a') {b : β} (hb : b ∈ g a) (hb' : b ∈ g a') : m = n := by
  obtain ⟨hm, rfl⟩ := List.getElem?_eq_some_iff.1 ha
  obtain ⟨hn, rfl⟩ := List.getElem?_eq_some_iff.1 ha'
  have hdisjoint := List.pairwise_iff_getElem.1 (List.nodup_flatMap.1 h).2
  rcases Nat.lt_trichotomy m n with hlt | heq | hlt
  · exact absurd hb' (hdisjoint m n hm hn hlt hb)
  · exact heq
  · exact absurd hb (hdisjoint n m hn hm hlt hb')

theorem eq_of_nodup_filterMap {g : α → Option β} {l : List α} (h : (l.filterMap g).Nodup) {a a' : α} (ha : a ∈ l)
    (ha' : a' ∈ l) {b : β} (hb : g a = some b) (hb' : g a' = some b) : a = a' := by
  rw [List.filterMap_eq_flatMap_toList] at h
  obtain ⟨m, hm⟩ := List.mem_iff_getElem?.1 ha
  obtain ⟨n, hn⟩ := List.mem_iff_getElem?.1 ha'
  obtain rfl := place_of_nodup_flatMap h hm hn (Option.mem_toList.2 hb) (Option.mem_toList.2 hb')
  exact Option.some.inj (hm.symm.trans hn)

section
variable [DecidableEq ι] {f : Event Ans → Option β} {t : List (Label Ans ι C R)} {i j : ι}

theorem own_filterMap_sublist : ((own i t).filterMap f).Sublist (t.filterMap (ofEvent f)) := by
  induction t with
  | nil => exact .slnil
  | cons l t ih =>
    cases l with
    | invoke | returns => simpa [own, ownEvent, ofEvent, List.filterMap_cons] using ih
    | event j c e =>
      cases hf : f e <;> by_cases hj : j = i <;>
        simp only [own, ownEvent, ofEvent, hf, hj, if_true, if_false, List.filterMap_cons, List.cons_sublist_cons] <;>
        first | exact ih | exact ih.cons _

theorem mem_of_session {session : Session Ans C R} (hi : session ∈ (diary i t).closed) {b : β}
    (hb : b ∈ session.trace.filterMap f) : b ∈ t.filterMap (ofEvent f) := by
  refine own_filterMap_sublist.subset (?_ : b ∈ (own i t).filterMap f)
  obtain ⟨e, he, hfe⟩ := List.mem_filterMap.1 hb
  exact List.mem_filterMap.2 ⟨e, mem_own_of_closed i hi he, hfe⟩

/-- what happens once in an interleaving happened in one call of one party -/
theorem session_unique (h : (t.filterMap (ofEvent f)).Nodup) {b : β} {m n : ℕ} {session session' : Session Ans C R}
    (hi : (diary i t).closed[m]? = some session) (hb : b ∈ session.trace.filterMap f)
    (hj : (diary j t).closed[n]? = some session') (hb' : b ∈ session'.trace.filterMap f) : i = j ∧ m = n := by
  obtain ⟨e, he, hfe⟩ := List.mem_filterMap.1 hb
  obtain ⟨e', he', hfe'⟩ := List.mem_filterMap.1 hb'
  obtain ⟨c, hc⟩ := (mem_own i).1 (mem_own_of_closed i (List.mem_of_getElem? hi) he)
  obtain ⟨c', hc'⟩ := (mem_own j).1 (mem_own_of_closed j (List.mem_of_getElem? hj) he')
  obtain ⟨rfl, -, -⟩ := Label.event.inj (eq_of_nodup_filterMap h hc hc' hfe hfe')
  have hown : ((own i t).filterMap f).Nodup := h.sublist own_filterMap_sublist
  rw [own_eq, List.filterMap_append, List.filterMap_flatMap, List.nodup_append] at hown
  exact ⟨rfl, place_of_nodup_flatMap hown.1 hi hj hb hb'⟩

end

/-! ## Runs of each call -/

/-- an environment that may answer anything -/
def Answered : Unit → (op : Op) → Ans op → Unit → Prop := fun _ _ _ _ => True

section
variable [DecidableEq ι] {body : C → Prog Ans ε α} {step : ι → σ → (op : Op) → Ans op → σ → Prop} {s : σ}
  {t : List (Label Ans ι C (Except (Stop ε) α))} {u : Pool σ ι C (Prog Ans ε α)}

/-- the calls that have returned made runs, and one that has not has begun one, with calls that its program may make -/
structure Recorded (body : C → Prog Ans ε α) (d : Diary Ans C (Except (Stop ε) α)) (now : Option (C × Prog Ans ε α)) :
    Prop where
  closed : ∀ session ∈ d.closed, Run Answered (body session.call) () session.trace session.result ()
  idle : now = none → d.pending = []
  pending : ∀ c x, now = some (c, x) →
    ∀ t r, Run Answered x () t r () → Run Answered (body c) () (d.pending ++ t) r ()
  made : ∀ c x, now = some (c, x) → ∀ F, Only F (body c) → Only F x ∧ ∀ e ∈ d.pending, F e

theorem recorded (h : Runs (Turn (programs body) step) (.quiet s) t u) (i : ι) :
    Recorded body (diary i t) (u.parties i) := by
  refine h.history (P := fun t u => Recorded body (diary i t) (u.parties i)) ⟨fun _ hm => ?_, fun _ => rfl, ?_, ?_⟩ ?_
  · cases hm
  · intro c x hx
    cases hx
  · intro c x hx
    cases hx
  · intro t u l v _ ih hl
    rw [diary_snoc]
    cases hl with
    | @invoke j c hidle =>
      rcases eq_or_ne i j with rfl | hj
      · simp only [note, Function.update_self]
        refine ⟨ih.closed, fun hnow => by simp at hnow, fun c' x hx t' r hrun => ?_, fun c' x hx F hF => ?_⟩
        · simp only [Option.some.injEq, Prod.mk.injEq] at hx
          obtain ⟨rfl, rfl⟩ := hx
          rwa [ih.idle hidle]
        · simp only [Option.some.injEq, Prod.mk.injEq] at hx
          obtain ⟨rfl, rfl⟩ := hx
          exact ⟨hF, by simp [ih.idle hidle]⟩
      · simpa [note, hj] using ih
    | @event j c x y e s' hin hdoes hstep =>
      obtain ⟨next, rfl, rfl⟩ := hdoes
      rcases eq_or_ne j i with rfl | hj
      · simp only [note, if_true, Function.update_self]
        refine ⟨ih.closed, fun hnow => by simp at hnow, fun c' x hx t' r hrun => ?_, fun c' x hx F hF => ?_⟩
        · simp only [Option.some.injEq, Prod.mk.injEq] at hx
          obtain ⟨rfl, rfl⟩ := hx
          rw [List.append_assoc, List.singleton_append]
          exact ih.pending c _ hin _ r (.call trivial hrun)
        · simp only [Option.some.injEq, Prod.mk.injEq] at hx
          obtain ⟨rfl, rfl⟩ := hx
          obtain ⟨honly, hmade⟩ := ih.made c _ hin F hF
          obtain ⟨hfirst, hrest⟩ := only_call_next.1 honly e.2
          refine ⟨hrest, fun e' he => ?_⟩
          rcases List.mem_append.1 he with he | he
          · exact hmade e' he
          · exact List.mem_singleton.1 he ▸ hfirst
      · simpa [note, hj, hj.symm] using ih
    | @returns j c x r hin hends =>
      obtain rfl := hends
      rcases eq_or_ne j i with rfl | hj
      · simp only [note, if_true, Function.update_self]
        refine ⟨fun session hm => ?_, fun _ => rfl, fun c' x hx => by simp at hx, fun c' x hx => by simp at hx⟩
        rcases List.mem_append.1 hm with hm | hm
        · exact ih.closed session hm
        · obtain rfl := List.mem_singleton.1 hm
          have hrun := ih.pending c _ hin [] r .done
          rwa [List.append_nil] at hrun
      · simpa [note, hj, hj.symm] using ih

/-- every event is one that the program of its call may have, and its call was begun -/
structure Confined (F : C → Event Ans → Prop) (t : List (Label Ans ι C (Except (Stop ε) α)))
    (u : Pool σ ι C (Prog Ans ε α)) : Prop where
  events : ∀ i c e, .event i c e ∈ t → F c e ∧ .invoke i c ∈ t
  returned : ∀ i c r, .returns i c r ∈ t → .invoke i c ∈ t
  parties : ∀ i c x, u.parties i = some (c, x) → Only (F c) x ∧ .invoke i c ∈ t

theorem confined {F : C → Event Ans → Prop} (hF : ∀ c, Only (F c) (body c))
    (h : Runs (Turn (programs body) step) (.quiet s) t u) : Confined F t u := by
  refine h.history (P := Confined F) ⟨fun _ _ _ hm => ?_, fun _ _ _ hm => ?_, fun _ _ _ hx => ?_⟩ ?_
  · cases hm
  · cases hm
  · cases hx
  · intro t u l v _ ih hl
    cases hl with
    | @invoke j c hidle =>
      refine ⟨fun i c e hm => ?_, fun i c r hm => ?_, fun i c' x hx => ?_⟩
      · obtain ⟨hF, hbegun⟩ := ih.events i c e (by simpa using hm)
        exact ⟨hF, List.mem_append_left _ hbegun⟩
      · exact List.mem_append_left _ (ih.returned i c r (by simpa using hm))
      · rcases eq_or_ne i j with rfl | hj
        · simp only [Function.update_self, Option.some.injEq, Prod.mk.injEq] at hx
          obtain ⟨rfl, rfl⟩ := hx
          exact ⟨hF c, by simp⟩
        · obtain ⟨honly, hbegun⟩ := ih.parties i c' x (by simpa [hj] using hx)
          exact ⟨honly, by simp [hbegun]⟩
    | @event j c x y e s' hin hdoes hstep =>
      obtain ⟨next, rfl, rfl⟩ := hdoes
      obtain ⟨honly, hbegun⟩ := ih.parties j c _ hin
      obtain ⟨hfirst, hrest⟩ := only_call_next.1 honly e.2
      refine ⟨fun i c' e' hm => ?_, fun i c' r hm => ?_, fun i c' x hx => ?_⟩
      · rcases List.mem_append.1 hm with hm | hm
        · obtain ⟨hF, hbegun'⟩ := ih.events i c' e' hm
          exact ⟨hF, List.mem_append_left _ hbegun'⟩
        · obtain ⟨rfl, rfl, rfl⟩ := Label.event.inj (List.mem_singleton.1 hm)
          exact ⟨hfirst, List.mem_append_left _ hbegun⟩
      · exact List.mem_append_left _ (ih.returned i c' r (by simpa using hm))
      · rcases eq_or_ne i j with rfl | hj
        · simp only [Function.update_self, Option.some.injEq, Prod.mk.injEq] at hx
          obtain ⟨rfl, rfl⟩ := hx
          exact ⟨hrest, List.mem_append_left _ hbegun⟩
        · obtain ⟨honly', hbegun'⟩ := ih.parties i c' x (by simpa [hj] using hx)
          exact ⟨honly', List.mem_append_left _ hbegun'⟩
    | @returns j c x r hin hends =>
      obtain ⟨-, hbegun⟩ := ih.parties j c _ hin
      refine ⟨fun i c' e' hm => ?_, fun i c' r' hm => ?_, fun i c' x hx => ?_⟩
      · obtain ⟨hF, hbegun'⟩ := ih.events i c' e' (by simpa using hm)
        exact ⟨hF, List.mem_append_left _ hbegun'⟩
      · rcases List.mem_append.1 hm with hm | hm
        · exact List.mem_append_left _ (ih.returned i c' r' hm)
        · obtain ⟨rfl, rfl, rfl⟩ := Label.returns.inj (List.mem_singleton.1 hm)
          exact List.mem_append_left _ hbegun
      · rcases eq_or_ne i j with rfl | hj
        · simp at hx
        · obtain ⟨honly', hbegun'⟩ := ih.parties i c' x (by simpa [hj] using hx)
          exact ⟨honly', List.mem_append_left _ hbegun'⟩

end

end Core.Sessions
