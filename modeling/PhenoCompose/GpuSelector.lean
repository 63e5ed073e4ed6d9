/-
What `canonicalGpuUuid` decides.

- `canonical_gpu_uuid_identity`: a selector has a canonical form exactly when it is a UUID, written bare or after one of the
  two prefixes; the form is its own; and two selectors share it exactly when their UUIDs are equal but for the case of
  letters.

The code walks over characters and compares each with its index, so the groups of a UUID are read off one at a time
(`uuidChars_group`): a group is what stands before the next index that calls for a hyphen.
-/
import PhenoCompose.Validate

namespace PhenoCompose

open Core.Text

/-! ## The two spellings of the prefix -/

theorem stripStart_append (start rest : String) : stripStart start (start ++ rest) = some rest := by
  have hpre : start.toList.isPrefixOf (start ++ rest).toList = true := by
    rw [String.toList_append]
    exact List.isPrefixOf_iff_prefix.2 (List.prefix_append _ _)
  rw [stripStart, if_pos hpre, String.toList_append, List.drop_left, String.ofList_toList]

theorem stripStart_eq_some {start s rest : String} : stripStart start s = some rest ↔ s = start ++ rest := by
  refine ⟨?_, ?_⟩
  · intro h
    unfold stripStart at h
    split_ifs at h with hpre
    obtain ⟨tail, htail⟩ := List.isPrefixOf_iff_prefix.1 hpre
    rw [← Option.some.inj h]
    apply String.toList_inj.1
    rw [String.toList_append, String.toList_ofList, ← htail, List.drop_left]
  · rintro rfl
    exact stripStart_append start rest

/-- what the selector `value` selects: `value` itself, or what follows a prefix -/
def Selects (value body : String) : Prop := value = body ∨ value = "GPU-" ++ body ∨ value = "gpu-" ++ body

/-- the part of a selector that is compared with the shape of a UUID -/
def uuidBody (value : String) : String := ((stripStart "GPU-" value).or (stripStart "gpu-" value)).getD value

theorem selects_uuidBody (value : String) : Selects value (uuidBody value) := by
  unfold uuidBody
  rcases hupper : stripStart "GPU-" value with _ | body
  · rcases hlower : stripStart "gpu-" value with _ | body
    · exact .inl rfl
    · exact .inr (.inr (stripStart_eq_some.1 hlower))
  · exact .inr (.inl (stripStart_eq_some.1 hupper))

/-! ## The shape of a UUID -/

/-- the characters `cs`, of which the first has index `start`, are in their places -/
def uuidChars (start : ℕ) (cs : List Char) : Bool := (cs.zipIdx start).all fun c => uuidChar c.2 c.1

/-- hexadecimal groups of 8, 4, 4, 4 and 12 digits joined by hyphens -/
def IsUuid (body : String) : Prop :=
  ∃ groups : List (List Char), groups.map List.length = [8, 4, 4, 4, 12] ∧
    (∀ group ∈ groups, ∀ c ∈ group, isAsciiHexdigit c = true) ∧ body.toList = ['-'].intercalate groups

theorem uuidChars_append {start : ℕ} {cs ds : List Char} :
    uuidChars start (cs ++ ds) = true ↔ uuidChars start cs = true ∧ uuidChars (start + cs.length) ds = true := by
  rw [uuidChars, List.zipIdx_append, List.all_append, Bool.and_eq_true, uuidChars, uuidChars]

theorem uuidChars_cons {start : ℕ} {c : Char} {cs : List Char} :
    uuidChars start (c :: cs) = true ↔ uuidChar start c = true ∧ uuidChars (start + 1) cs = true := by
  rw [uuidChars, List.zipIdx_cons, List.all_cons, Bool.and_eq_true, uuidChars]

/-- where a hyphen stands -/
abbrev isHyphenIndex (index : ℕ) : Prop := index = 8 ∨ index = 13 ∨ index = 18 ∨ index = 23

theorem uuidChars_digits {start : ℕ} {cs : List Char} (h : ∀ n < cs.length, ¬isHyphenIndex (start + n)) :
    uuidChars start cs = true ↔ ∀ c ∈ cs, isAsciiHexdigit c = true := by
  induction cs generalizing start with
  | nil => simp [uuidChars]
  | cons c cs ih =>
    have hhead : uuidChar start c = isAsciiHexdigit c := if_neg (h 0 (Nat.succ_pos _))
    have htail : ∀ n < cs.length, ¬isHyphenIndex (start + 1 + n) := by
      intro n hn
      rw [Nat.add_assoc, Nat.add_comm 1 n]
      exact h (n + 1) (Nat.succ_lt_succ hn)
    rw [uuidChars_cons, hhead, ih htail, List.forall_mem_cons]

/-- a group of digits, the hyphen after it, and the rest -/
theorem uuidChars_group {start n : ℕ} {cs : List Char} (hlength : n < cs.length)
    (hdigits : ∀ k < n, ¬isHyphenIndex (start + k)) (hhyphen : isHyphenIndex (start + n)) :
    uuidChars start cs = true ↔ ∃ group rest, cs = group ++ '-' :: rest ∧ group.length = n ∧
      (∀ c ∈ group, isAsciiHexdigit c = true) ∧ uuidChars (start + n + 1) rest = true := by
  have hchar : ∀ c, uuidChar (start + n) c = true ↔ c = '-' := by
    intro c
    rw [uuidChar, if_pos hhyphen, beq_iff_eq]
  have hparts : ∀ (group : List Char) c rest, group.length = n → (uuidChars start (group ++ c :: rest) = true ↔
      (∀ d ∈ group, isAsciiHexdigit d = true) ∧ c = '-' ∧ uuidChars (start + n + 1) rest = true) := by
    intro group c rest hgroup
    rw [uuidChars_append, uuidChars_cons, hgroup, hchar, uuidChars_digits (by rwa [hgroup])]
  refine ⟨?_, ?_⟩
  · intro h
    have hcut : cs = cs.take n ++ cs[n] :: cs.drop (n + 1) := by
      rw [List.getElem_cons_drop, List.take_append_drop]
    have htake : (cs.take n).length = n := List.length_take_of_le hlength.le
    rw [hcut, hparts _ _ _ htake] at h
    obtain ⟨hgroup, hc, hrest⟩ := h
    rw [hc] at hcut
    exact ⟨_, _, hcut, htake, hgroup, hrest⟩
  · intro h
    obtain ⟨group, rest, rfl, hgroup, hall, hrest⟩ := h
    exact (hparts group '-' rest hgroup).2 ⟨hall, rfl, hrest⟩

theorem uuidChar_ascii {index : ℕ} {c : Char} (h : uuidChar index c = true) : c.utf8Size = 1 := by
  have hall : ∀ n < 103, isAsciiHexdigit (Char.ofNat n) = true → (Char.ofNat n).utf8Size = 1 := by decide
  unfold uuidChar at h
  split_ifs at h with hi
  · obtain rfl := beq_iff_eq.1 h
    rfl
  · have hc := hall c.toNat (hexdigit_lt h)
    rw [Char.ofNat_toNat] at hc
    exact hc h

/-- characters of a UUID are bytes, so the length test counts them -/
theorem uuidChars_size {start : ℕ} {cs : List Char} (h : uuidChars start cs = true) :
    (String.ofList cs).utf8ByteSize = cs.length := by
  induction cs generalizing start with
  | nil => rfl
  | cons c cs ih =>
    obtain ⟨hc, hcs⟩ := uuidChars_cons.1 h
    calc (String.ofList (c :: cs)).utf8ByteSize = c.utf8Size + (String.ofList cs).utf8ByteSize := utf8ByteSize_cons c cs
      _ = 1 + cs.length := by rw [uuidChar_ascii hc, ih hcs]
      _ = (c :: cs).length := Nat.add_comm _ _

/-- from index `start` on, hyphens stand after the groups of these lengths, the last one apart, and nowhere else -/
def hyphensBetween : ℕ → List ℕ → Bool
  | _, [] => true
  | start, [n] => ∀ k < n, ¬isHyphenIndex (start + k)
  | start, n :: m :: lengths =>
    (∀ k < n, ¬isHyphenIndex (start + k)) ∧ isHyphenIndex (start + n) ∧ hyphensBetween (start + n + 1) (m :: lengths)

theorem length_joined {group : List Char} {groups : List (List Char)} :
    (['-'].intercalate (group :: groups)).length + 1 = (((group :: groups).map List.length).map Nat.succ).sum := by
  induction groups generalizing group with
  | nil => simp
  | cons next groups ih =>
    calc (['-'].intercalate (group :: next :: groups)).length + 1 =
        group.length.succ + ((['-'].intercalate (next :: groups)).length + 1) := by
          rw [List.intercalate_cons_cons, List.length_append, List.length_append, List.length_singleton]
          omega
      _ = group.length.succ + (((next :: groups).map List.length).map Nat.succ).sum := by rw [ih]
      _ = (((group :: next :: groups).map List.length).map Nat.succ).sum := rfl

/-- the characters in their places are groups of digits between the hyphens -/
theorem uuidChars_groups {start : ℕ} {lengths : List ℕ} {cs : List Char} (hplaces : hyphensBetween start lengths = true)
    (hlength : cs.length + 1 = (lengths.map Nat.succ).sum) :
    uuidChars start cs = true ↔ ∃ groups : List (List Char), groups.map List.length = lengths ∧
      (∀ group ∈ groups, ∀ c ∈ group, isAsciiHexdigit c = true) ∧ cs = ['-'].intercalate groups := by
  induction start, lengths using hyphensBetween.induct generalizing cs with
  | case1 start => simp at hlength
  | case2 start n =>
    have hn : cs.length = n := by simpa using hlength
    rw [hyphensBetween, decide_eq_true_eq, ← hn] at hplaces
    rw [uuidChars_digits hplaces]
    refine ⟨?_, ?_⟩
    · intro h
      exact ⟨[cs], by simp [hn], by simpa using h, by simp⟩
    · rintro ⟨groups, hlengths, hdigits, hcs⟩
      obtain ⟨group, rfl⟩ := List.length_eq_one_iff.1 (by simpa using congrArg List.length hlengths)
      rw [List.intercalate_singleton] at hcs
      rw [hcs]
      exact hdigits group (List.mem_singleton_self _)
  | case3 start n m lengths ih =>
    rw [hyphensBetween, decide_eq_true_eq] at hplaces
    obtain ⟨hdigits, hhyphen, hplaces⟩ := hplaces
    have hlt : n < cs.length := by
      simp only [List.map_cons, List.sum_cons] at hlength
      omega
    rw [uuidChars_group hlt hdigits hhyphen]
    have htail : ∀ {group rest : List Char}, cs = group ++ '-' :: rest → group.length = n →
        rest.length + 1 = ((m :: lengths).map Nat.succ).sum := by
      rintro group rest rfl rfl
      simp only [List.map_cons, List.sum_cons, List.length_append, List.length_cons] at hlength ⊢
      omega
    refine ⟨?_, ?_⟩
    · rintro ⟨group, rest, hcs, hgroup, hall, hrest⟩
      obtain ⟨groups, hlengths, hdigits', hjoin⟩ := (ih hplaces (htail hcs hgroup)).1 hrest
      refine ⟨group :: groups, by rw [List.map_cons, hgroup, hlengths], List.forall_mem_cons.2 ⟨hall, hdigits'⟩, ?_⟩
      obtain ⟨next, groups, rfl⟩ : ∃ next others, groups = next :: others := by
        cases groups with
        | nil => simp at hlengths
        | cons next groups => exact ⟨next, groups, rfl⟩
      rw [hcs, hjoin, List.intercalate_cons_cons, List.append_assoc]
      rfl
    · rintro ⟨groups, hlengths, hdigits', hjoin⟩
      obtain ⟨group, next, groups, rfl⟩ : ∃ group next others, groups = group :: next :: others := by
        match groups with
        | [] => simp at hlengths
        | [_] => simp at hlengths
        | group :: next :: others => exact ⟨group, next, others, rfl⟩
      rw [List.map_cons, List.cons.injEq] at hlengths
      rw [List.forall_mem_cons] at hdigits'
      have hcs : cs = group ++ '-' :: ['-'].intercalate (next :: groups) := by
        rw [hjoin, List.intercalate_cons_cons, List.append_assoc]
        rfl
      refine ⟨group, _, hcs, hlengths.1, hdigits'.1, ?_⟩
      exact (ih hplaces (htail hcs hlengths.1)).2 ⟨_, hlengths.2, hdigits'.2, rfl⟩

/-- the two tests of the code accept the texts that are a UUID -/
theorem isUuid_iff {body : String} : IsUuid body ↔ body.utf8ByteSize = 36 ∧ uuidChars 0 body.toList = true := by
  have hplaces : hyphensBetween 0 [8, 4, 4, 4, 12] = true := by decide
  refine ⟨?_, ?_⟩
  · intro h
    have hlength : body.toList.length + 1 = ([8, 4, 4, 4, 12].map Nat.succ).sum := by
      obtain ⟨groups, hlengths, -, hbody⟩ := h
      cases groups with
      | nil => simp at hlengths
      | cons group groups => rw [hbody, length_joined, hlengths]
    have hchars := (uuidChars_groups hplaces hlength).2 h
    refine ⟨?_, hchars⟩
    rw [← String.ofList_toList (s := body), uuidChars_size hchars]
    exact Nat.succ.inj hlength
  · rintro ⟨hsize, hchars⟩
    have hlength := uuidChars_size hchars
    rw [String.ofList_toList, hsize] at hlength
    exact (uuidChars_groups hplaces (by rw [← hlength]; rfl)).1 hchars

theorem canonicalGpuUuid_eq (value : String) : canonicalGpuUuid value =
    if (uuidBody value).utf8ByteSize = 36 ∧ uuidChars 0 (uuidBody value).toList = true then
      some ("GPU-" ++ toAsciiLowercase (uuidBody value)) else none := by
  have hrefused : ∀ a b : Prop, (¬a ∨ ¬b) ↔ ¬(a ∧ b) := fun _ _ => not_and_or.symm
  unfold canonicalGpuUuid uuidBody uuidChars
  simp only [ne_eq, hrefused, ite_not]

theorem canonicalGpuUuid_eq_some {value canonical : String} : canonicalGpuUuid value = some canonical ↔
    IsUuid (uuidBody value) ∧ canonical = "GPU-" ++ toAsciiLowercase (uuidBody value) := by
  rw [canonicalGpuUuid_eq, isUuid_iff, Option.ite_none_right_eq_some, Option.some.injEq,
    @eq_comm _ canonical]

/-- a UUID begins with a digit, so no prefix can be taken for a part of it -/
theorem IsUuid.head {body : String} (h : IsUuid body) : ∃ c rest, body.toList = c :: rest ∧ isAsciiHexdigit c = true := by
  obtain ⟨hsize, hchars⟩ := isUuid_iff.1 h
  rcases hbody : body.toList with _ | ⟨c, rest⟩
  · rw [String.toList_eq_nil_iff.1 hbody] at hsize
    exact absurd hsize (by decide)
  · rw [hbody, uuidChars_cons] at hchars
    exact ⟨c, rest, rfl, hchars.1⟩

theorem uuidBody_eq {value body : String} (hvalue : Selects value body) (h : IsUuid body) : uuidBody value = body := by
  have hnone : ∀ (start s : String), start.toList.isPrefixOf s.toList = false → stripStart start s = none := by
    intro start s hpre
    rw [stripStart, hpre]
    rfl
  unfold uuidBody
  rcases hvalue with rfl | rfl | rfl
  · obtain ⟨c, rest, hlist, hc⟩ := h.head
    have hupper : stripStart "GPU-" value = none := by
      apply hnone
      rw [hlist]
      simp only [String.reduceToList, List.isPrefixOf_cons_cons, Bool.and_eq_false_imp, beq_iff_eq]
      rintro rfl
      exact absurd hc (by decide)
    have hlower : stripStart "gpu-" value = none := by
      apply hnone
      rw [hlist]
      simp only [String.reduceToList, List.isPrefixOf_cons_cons, Bool.and_eq_false_imp, beq_iff_eq]
      rintro rfl
      exact absurd hc (by decide)
    rw [hupper, hlower]
    rfl
  · rw [stripStart_append]
    rfl
  · rw [hnone "GPU-", stripStart_append]
    · rfl
    · rw [String.toList_append]
      rfl

/-! ## The canonical form -/

theorem hexdigit_toLower : ∀ n < 103, isAsciiHexdigit (Char.ofNat n) = true →
    isAsciiHexdigit (Char.ofNat n).toLower = true := by
  decide

theorem uuidChar_toLower {index : ℕ} {c : Char} (h : uuidChar index c = true) : uuidChar index c.toLower = true := by
  unfold uuidChar at h ⊢
  split_ifs at h ⊢ with hi
  · obtain rfl := beq_iff_eq.1 h
    decide
  · have hlower := hexdigit_toLower c.toNat (hexdigit_lt h)
    rw [Char.ofNat_toNat] at hlower
    exact hlower h

theorem uuidChars_toLower {start : ℕ} {cs : List Char} (h : uuidChars start cs = true) :
    uuidChars start (cs.map Char.toLower) = true := by
  induction cs generalizing start with
  | nil => rfl
  | cons c cs ih =>
    obtain ⟨hc, hcs⟩ := uuidChars_cons.1 h
    rw [List.map_cons, uuidChars_cons]
    exact ⟨uuidChar_toLower hc, ih hcs⟩

/-- a UUID keeps its shape in lower case -/
theorem IsUuid.lowercase {body : String} (h : IsUuid body) : IsUuid (toAsciiLowercase body) := by
  obtain ⟨hsize, hchars⟩ := isUuid_iff.1 h
  have hlength := uuidChars_size hchars
  rw [String.ofList_toList, hsize] at hlength
  have hlower := uuidChars_toLower hchars
  rw [isUuid_iff, toAsciiLowercase, String.toList_ofList, uuidChars_size hlower, List.length_map]
  exact ⟨hlength.symm, hlower⟩

theorem toAsciiLowercase_idem (s : String) : toAsciiLowercase (toAsciiLowercase s) = toAsciiLowercase s := by
  rw [toAsciiLowercase, toAsciiLowercase, String.toList_ofList, List.map_map]
  congr 1
  exact List.map_congr_left fun c _ => Char.toLower_toLower_eq_toLower c

/-- a canonical selector is its own canonical form -/
theorem canonical_idempotent {uuid canonical : String} (h : canonicalGpuUuid uuid = some canonical) :
    canonicalGpuUuid canonical = some canonical := by
  obtain ⟨hbody, rfl⟩ := canonicalGpuUuid_eq_some.1 h
  rw [canonicalGpuUuid_eq_some, uuidBody_eq (.inr (.inl rfl)) hbody.lowercase, toAsciiLowercase_idem]
  exact ⟨hbody.lowercase, rfl⟩

theorem canonical_of_selects {value body : String} (hvalue : Selects value body) (h : IsUuid body) :
    canonicalGpuUuid value = some ("GPU-" ++ toAsciiLowercase body) := by
  rw [canonicalGpuUuid_eq_some, uuidBody_eq hvalue h]
  exact ⟨h, rfl⟩

/-- **A canonical selector names one device.** A selector has a canonical form exactly when it is a UUID, bare or after a
prefix; the form is its own; and two selectors have the same one exactly when their UUIDs are equal ignoring case. -/
theorem canonical_gpu_uuid_identity (value : String) :
    ((canonicalGpuUuid value).isSome = true ↔ ∃ body, Selects value body ∧ IsUuid body) ∧
      (∀ canonical ∈ canonicalGpuUuid value, canonicalGpuUuid canonical = some canonical) ∧
      ∀ other body otherBody, Selects value body → IsUuid body → Selects other otherBody → IsUuid otherBody →
        (canonicalGpuUuid value = canonicalGpuUuid other ↔ eqIgnoreAsciiCase body otherBody = true) := by
  refine ⟨⟨?_, ?_⟩, fun canonical hcanonical => canonical_idempotent hcanonical, ?_⟩
  · intro h
    obtain ⟨canonical, hcanonical⟩ := Option.isSome_iff_exists.1 h
    exact ⟨uuidBody value, selects_uuidBody value, (canonicalGpuUuid_eq_some.1 hcanonical).1⟩
  · rintro ⟨body, hvalue, hbody⟩
    rw [canonical_of_selects hvalue hbody]
    rfl
  · intro other body otherBody hvalue hbody hother hotherBody
    rw [canonical_of_selects hvalue hbody, canonical_of_selects hother hotherBody, Option.some.injEq,
      String.append_right_inj, eqIgnoreAsciiCase, beq_iff_eq]

/-- one device under both prefixes -/
theorem canonical_gpu_uuid_example :
    canonicalGpuUuid "GPU-ABCDEF01-2345-6789-abcd-ef0123456789" =
      canonicalGpuUuid "gpu-abcdef01-2345-6789-ABCD-EF0123456789" := by
  have huuid : ∀ body : String, body.utf8ByteSize = 36 → uuidChars 0 body.toList = true → IsUuid body :=
    fun body hsize hchars => isUuid_iff.2 ⟨hsize, hchars⟩
  obtain ⟨-, -, hsame⟩ := canonical_gpu_uuid_identity "GPU-ABCDEF01-2345-6789-abcd-ef0123456789"
  exact (hsame "gpu-abcdef01-2345-6789-ABCD-EF0123456789" "ABCDEF01-2345-6789-abcd-ef0123456789"
    "abcdef01-2345-6789-ABCD-EF0123456789" (.inr (.inl (by decide))) (huuid _ (by decide) (by decide))
    (.inr (.inr (by decide))) (huuid _ (by decide) (by decide))).2 (by decide)

end PhenoCompose
