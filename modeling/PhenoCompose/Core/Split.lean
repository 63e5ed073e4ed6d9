/-
Cutting a text at a separator, as `str::split_once`, `str::rsplit_once` and `str::split` do.

Results: `splitOnce_eq_some` and `rsplitOnce_eq_some` (what the two parts are), `first_unique` (there is one way to cut at
the first separator), `trim_trim`, `slice_append` (cutting at the byte length of a front part gives that part).
-/
import PhenoCompose.Core.Text

namespace Core.Split

open Core.Text

/-! ## Lists -/

section Lists

variable {α : Type} [DecidableEq α] {sep : α} {l a b a' b' : List α}

/-- what stands before and after the first separator -/
def cut (sep : α) : List α → Option (List α × List α)
  | [] => none
  | x :: l => if x = sep then some ([], l) else (cut sep l).map fun parts => (x :: parts.1, parts.2)

theorem cut_eq_some : cut sep l = some (a, b) ↔ l = a ++ sep :: b ∧ sep ∉ a := by
  induction l generalizing a with
  | nil => simp [cut]
  | cons x l ih =>
    by_cases hx : x = sep
    · rw [cut, if_pos hx]
      cases a with
      | nil => simp [hx, eq_comm]
      | cons y a =>
        have hy : x :: l = y :: a ++ sep :: b → sep ∈ y :: a := by
          intro h
          obtain ⟨rfl, -⟩ := List.cons.inj h
          exact hx ▸ List.mem_cons_self
        simp only [Option.some.injEq, Prod.mk.injEq, reduceCtorEq, false_and, false_iff, not_and, not_not]
        exact hy
    · rw [cut, if_neg hx, Option.map_eq_some_iff]
      refine ⟨?_, ?_⟩
      · intro h
        obtain ⟨⟨c, d⟩, hcut, he⟩ := h
        cases he
        obtain ⟨rfl, hnot⟩ := ih.1 hcut
        exact ⟨rfl, fun hm => hnot ((List.mem_cons.1 hm).resolve_left fun e => hx e.symm)⟩
      · intro h
        obtain ⟨hl, hnot⟩ := h
        cases a with
        | nil => exact absurd (List.cons.inj hl).1 hx
        | cons y a =>
          obtain ⟨rfl, rfl⟩ := List.cons.inj hl
          exact ⟨(a, b), ih.2 ⟨rfl, fun hm => hnot (List.mem_cons_of_mem _ hm)⟩, rfl⟩

theorem cut_eq_none : cut sep l = none ↔ sep ∉ l := by
  induction l with
  | nil => simp [cut]
  | cons x l ih =>
    rw [cut, List.mem_cons, not_or]
    by_cases hx : x = sep
    · simp [hx]
    · rw [if_neg hx, Option.map_eq_none_iff, ih]
      simp [Ne.symm hx]

/-- what stands before and after the last separator -/
def rcut (sep : α) (l : List α) : Option (List α × List α) :=
  (cut sep l.reverse).map fun parts => (parts.2.reverse, parts.1.reverse)

theorem rcut_eq_some : rcut sep l = some (a, b) ↔ l = a ++ sep :: b ∧ sep ∉ b := by
  rw [rcut, Option.map_eq_some_iff]
  refine ⟨?_, ?_⟩
  · intro h
    obtain ⟨⟨c, d⟩, hcut, he⟩ := h
    cases he
    obtain ⟨hl, hnot⟩ := cut_eq_some.1 hcut
    refine ⟨?_, fun hm => hnot (List.mem_reverse.1 hm)⟩
    rw [← List.reverse_inj, hl]
    simp
  · intro h
    obtain ⟨rfl, hnot⟩ := h
    exact ⟨(b.reverse, a.reverse), cut_eq_some.2 ⟨by simp, fun hm => hnot (List.mem_reverse.1 hm)⟩, by simp⟩

theorem rcut_eq_none : rcut sep l = none ↔ sep ∉ l := by
  rw [rcut, Option.map_eq_none_iff, cut_eq_none, List.mem_reverse]

/-- there is one way to cut at the first separator -/
theorem first_unique (h : a ++ sep :: b = a' ++ sep :: b') (ha : sep ∉ a) (ha' : sep ∉ a') : a = a' ∧ b = b' := by
  have hcut : cut sep (a ++ sep :: b) = some (a', b') := cut_eq_some.2 ⟨h, ha'⟩
  rw [cut_eq_some.2 ⟨rfl, ha⟩] at hcut
  cases hcut
  exact ⟨rfl, rfl⟩

/-- no piece of a list has the separator in it -/
theorem not_mem_of_mem_splitOn {piece : List α} (h : piece ∈ l.splitOn sep) : sep ∉ piece := by
  induction l generalizing piece with
  | nil =>
    rw [List.splitOn_nil, List.mem_singleton] at h
    rw [h]
    exact List.not_mem_nil
  | cons x l ih =>
    rw [List.splitOn, List.splitOnP_cons_eq_if_modifyHead] at h
    split_ifs at h with hx
    · rcases List.mem_cons.1 h with rfl | h
      · exact List.not_mem_nil
      · exact ih h
    · rcases hsplit : l.splitOnP (· == sep) with _ | ⟨first, rest⟩
      · exact absurd hsplit (List.splitOnP_ne_nil _ _)
      · rw [hsplit, List.modifyHead_cons, List.mem_cons] at h
        have hmem : ∀ p ∈ first :: rest, sep ∉ p := fun p hp => ih (by rwa [List.splitOn, hsplit])
        rcases h with rfl | h
        · rw [List.mem_cons, not_or]
          exact ⟨fun e => hx (beq_iff_eq.2 e.symm), hmem first List.mem_cons_self⟩
        · exact hmem piece (List.mem_cons_of_mem _ h)

end Lists

/-- a front part of a list that does not begin in `p` does not either -/
theorem dropWhile_of_prefix {α : Type} {p : α → Bool} {l m : List α} (h : m <+: l.dropWhile p) : m.dropWhile p = m := by
  obtain ⟨rest, hrest⟩ := h
  cases m with
  | nil => rfl
  | cons x m =>
    have hx := List.head?_dropWhile_not p l
    rw [← hrest] at hx
    exact List.dropWhile_cons_of_neg (by simpa using hx)

/-! ## Texts -/

/-- `s.split_once(sep)` -/
def splitOnce (s : String) (sep : Char) : Option (String × String) :=
  (cut sep s.toList).map fun parts => (String.ofList parts.1, String.ofList parts.2)

/-- `s.split(sep)` -/
def split (s : String) (sep : Char) : List String := (s.toList.splitOn sep).map String.ofList

/-- `s.rsplit_once(sep)` -/
def rsplitOnce (s : String) (sep : Char) : Option (String × String) :=
  (rcut sep s.toList).map fun parts => (String.ofList parts.1, String.ofList parts.2)

section Texts

variable {s a b : String} {sep : Char}

/-- two texts are given when their characters are -/
theorem texts_eq_some {parts : Option (List Char × List Char)} :
    (parts.map fun parts => (String.ofList parts.1, String.ofList parts.2)) = some (a, b) ↔
      parts = some (a.toList, b.toList) := by
  rw [Option.map_eq_some_iff]
  refine ⟨?_, ?_⟩
  · intro h
    obtain ⟨⟨c, d⟩, hparts, he⟩ := h
    cases he
    rw [hparts, String.toList_ofList, String.toList_ofList]
  · intro h
    exact ⟨_, h, by rw [String.ofList_toList, String.ofList_toList]⟩

theorem splitOnce_eq_some : splitOnce s sep = some (a, b) ↔ s.toList = a.toList ++ sep :: b.toList ∧ sep ∉ a.toList := by
  rw [splitOnce, texts_eq_some, cut_eq_some]

theorem splitOnce_eq_none : splitOnce s sep = none ↔ sep ∉ s.toList := by
  rw [splitOnce, Option.map_eq_none_iff, cut_eq_none]

theorem not_mem_of_mem_split (h : a ∈ split s sep) : sep ∉ a.toList := by
  obtain ⟨piece, hpiece, rfl⟩ := List.mem_map.1 h
  rw [String.toList_ofList]
  exact not_mem_of_mem_splitOn hpiece

theorem split_eq_singleton (h : sep ∉ s.toList) : split s sep = [s] := by
  rw [split, List.splitOn_eq_singleton h, List.map_singleton, String.ofList_toList]

theorem split_ne_nil : split s sep ≠ [] := by
  rw [split, ne_eq, List.map_eq_nil_iff]
  exact List.splitOn_ne_nil sep s.toList

theorem rsplitOnce_eq_some :
    rsplitOnce s sep = some (a, b) ↔ s.toList = a.toList ++ sep :: b.toList ∧ sep ∉ b.toList := by
  rw [rsplitOnce, texts_eq_some, rcut_eq_some]

theorem rsplitOnce_eq_none : rsplitOnce s sep = none ↔ sep ∉ s.toList := by
  rw [rsplitOnce, Option.map_eq_none_iff, rcut_eq_none]

theorem trim_trim (s : String) : trim (trim s) = trim s := by
  have htrim : ∀ s : String, (trim s).toList = (s.toList.dropWhile isWhitespace).rdropWhile isWhitespace :=
    fun s => String.toList_ofList
  apply String.toList_inj.1
  rw [htrim, htrim, dropWhile_of_prefix (List.rdropWhile_prefix isWhitespace _), List.rdropWhile_idempotent]

theorem trim_ne_empty {s : String} {c : Char} (hc : c ∈ s.toList) (hblank : isWhitespace c = false) : trim s ≠ "" := by
  intro h
  rw [trim, ← String.ofList_nil, String.ofList_inj, List.reverse_eq_nil_iff, List.dropWhile_eq_nil_iff] at h
  have hnone : s.toList.dropWhile isWhitespace = [] := by
    cases hdrop : s.toList.dropWhile isWhitespace with
    | nil => rfl
    | cons d rest =>
      have hd := List.head?_dropWhile_not isWhitespace s.toList
      rw [hdrop] at hd h
      exact absurd (h d (List.mem_reverse.2 List.mem_cons_self)) (by simpa using hd)
  rw [List.dropWhile_eq_nil_iff.1 hnone c hc] at hblank
  cases hblank

/-- a text without white space at its ends is trimmed already -/
theorem trim_eq_self (hhead : ∀ c ∈ s.toList.head?, isWhitespace c = false)
    (hlast : ∀ c ∈ s.toList.getLast?, isWhitespace c = false) : trim s = s := by
  have hfront : ∀ l : List Char, (∀ c ∈ l.head?, isWhitespace c = false) → l.dropWhile isWhitespace = l := by
    intro l hl
    cases l with
    | nil => rfl
    | cons c l =>
      have hc := hl c rfl
      rw [List.dropWhile_cons_of_neg (by simp [hc])]
  rw [trim, hfront _ hhead, hfront _ (by simpa using hlast), List.reverse_reverse, String.ofList_toList]

end Texts

/-! ## Byte offsets -/

/-- the byte length of a front part is between two characters, and cutting there gives the front part -/
theorem slice_append (front back : List Char) :
    isCharBoundary (front ++ back) (String.ofList front).utf8ByteSize = true ∧
      truncate (front ++ back) (String.ofList front).utf8ByteSize = front := by
  induction front with
  | nil =>
    refine ⟨by simp [isCharBoundary], ?_⟩
    cases back with
    | nil => rfl
    | cons c back =>
      have hc := c.utf8Size_pos
      simp [truncate]
      omega
  | cons c front ih =>
    obtain ⟨hboundary, htruncate⟩ := ih
    have hsize : (String.ofList (c :: front)).utf8ByteSize - c.utf8Size = (String.ofList front).utf8ByteSize := by
      rw [utf8ByteSize_cons, Nat.add_sub_cancel_left]
    have hle : c.utf8Size ≤ (String.ofList (c :: front)).utf8ByteSize := by
      rw [utf8ByteSize_cons]
      exact Nat.le_add_right _ _
    obtain ⟨n, hn⟩ := Nat.exists_eq_succ_of_ne_zero (c.utf8Size_pos.trans_le hle).ne'
    rw [hn] at hsize hle ⊢
    rw [List.cons_append, isCharBoundary, truncate, if_pos hle, hsize, hboundary, htruncate]
    exact ⟨by simpa using hle, rfl⟩

end Core.Split
