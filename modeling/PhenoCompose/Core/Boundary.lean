/-
Character boundaries of a text, from its bytes.

- `byte_boundary_encoded`: the offsets that do not point at a continuation byte are those between two characters.
- `take_encoded`: cutting the bytes at a boundary cuts the text between two characters.
- `boundary_le_floor`, `boundary_near`: the largest boundary below an offset, and how far it is.
-/
import PhenoCompose.Core.Utf8

namespace Core.Text

/-- `str::is_char_boundary`, on the bytes -/
def isByteBoundary (bs : Bytes) (index : ℕ) : Bool :=
  if index = 0 then true
  else match bs[index]? with
    | none => index == bs.length
    | some b => !isContinuation b

theorem isCharBoundary_zero (cs : List Char) : isCharBoundary cs 0 = true := by
  cases cs <;> rfl

theorem byte_boundary_end (bs : Bytes) : isByteBoundary bs bs.length = true := by
  rw [isByteBoundary, List.getElem?_eq_none le_rfl]
  split_ifs
  · rfl
  · exact beq_self_eq_true _

/-- a character is a byte that is no continuation, and then continuations -/
theorem encoded_continuation (c : Char) : ∃ lead tail, String.utf8EncodeChar c = lead :: tail ∧
    isContinuation lead = false ∧ ∀ b ∈ tail, isContinuation b = true := by
  have hc : c.val.toNat < 0x110000 := c.valid.elim (fun h => by omega) fun h => h.2
  have hbyte : ∀ n, n < 256 → (UInt8.ofNat n).toNat = n := fun n h => UInt8.toNat_ofNat_of_lt h
  have hlead : ∀ n, n < 256 → n < 0x80 ∨ 0xbf < n → isContinuation (UInt8.ofNat n) = false := by
    intro n hn hout
    rw [← Bool.not_eq_true, isContinuation_iff, hbyte n hn]
    omega
  have htail : ∀ n, isContinuation (UInt8.ofNat (n % 0x40 + 0x80)) = true := by
    intro n
    rw [isContinuation_iff, hbyte _ (by omega)]
    omega
  unfold String.utf8EncodeChar
  simp only
  split_ifs with h1 h2 h3
  · exact ⟨_, _, rfl, hlead _ (by omega) (by omega), List.forall_mem_nil _⟩
  · exact ⟨_, _, rfl, hlead _ (by omega) (by omega), List.forall_mem_cons.2 ⟨htail _, List.forall_mem_nil _⟩⟩
  · exact ⟨_, _, rfl, hlead _ (by omega) (by omega), List.forall_mem_cons.2 ⟨htail _, List.forall_mem_cons.2
      ⟨htail _, List.forall_mem_nil _⟩⟩⟩
  · exact ⟨_, _, rfl, hlead _ (by omega) (by omega), List.forall_mem_cons.2 ⟨htail _, List.forall_mem_cons.2
      ⟨htail _, List.forall_mem_cons.2 ⟨htail _, List.forall_mem_nil _⟩⟩⟩⟩

/-- past a character, the offsets are those of what follows it -/
theorem byte_boundary_after (c : Char) (cs : List Char) (n : ℕ) :
    isByteBoundary ((c :: cs).flatMap String.utf8EncodeChar) (c.utf8Size + n) =
      isByteBoundary (cs.flatMap String.utf8EncodeChar) n := by
  have hlength : (String.utf8EncodeChar c).length = c.utf8Size := String.length_utf8EncodeChar c
  have hsize : c.utf8Size ≠ 0 := c.utf8Size_pos.ne'
  rw [isByteBoundary, isByteBoundary, List.flatMap_cons, if_neg (by omega),
    List.getElem?_append_right (by omega), hlength, Nat.add_sub_cancel_left, List.length_append, hlength]
  by_cases hn : n = 0
  · -- what follows begins with a lead byte, or there is nothing more
    rw [if_pos hn, hn]
    cases cs with
    | nil => simp
    | cons d cs =>
      obtain ⟨lead, tail, hd, hlead, -⟩ := encoded_continuation d
      rw [List.flatMap_cons, hd]
      simp [hlead]
  · rw [if_neg hn]
    cases (cs.flatMap String.utf8EncodeChar)[n]? with
    | none => simp
    | some b => rfl

/-- within a character there is no boundary -/
theorem byte_boundary_within (c : Char) (cs : List Char) {n : ℕ} (hpos : n ≠ 0) (hn : n < c.utf8Size) :
    isByteBoundary ((c :: cs).flatMap String.utf8EncodeChar) n = false := by
  obtain ⟨lead, tail, hc, -, htail⟩ := encoded_continuation c
  have hlength : (String.utf8EncodeChar c).length = c.utf8Size := String.length_utf8EncodeChar c
  rw [hc, List.length_cons] at hlength
  obtain ⟨m, rfl⟩ := Nat.exists_eq_succ_of_ne_zero hpos
  have hm : m < tail.length := by omega
  rw [isByteBoundary, if_neg hpos, List.flatMap_cons, hc, List.cons_append, List.getElem?_cons_succ,
    List.getElem?_append_left hm, List.getElem?_eq_getElem hm]
  dsimp only
  rw [htail _ (List.getElem_mem hm), Bool.not_true]

/-- the boundaries in the bytes are those between characters -/
theorem byte_boundary_encoded (cs : List Char) (n : ℕ) :
    isByteBoundary (cs.flatMap String.utf8EncodeChar) n = isCharBoundary cs n := by
  induction cs generalizing n with
  | nil =>
    cases n with
    | zero => rfl
    | succ n => simp [isByteBoundary, isCharBoundary]
  | cons c cs ih =>
    by_cases hn : n = 0
    · rw [hn, isCharBoundary_zero]
      rfl
    obtain ⟨m, rfl⟩ := Nat.exists_eq_succ_of_ne_zero hn
    rw [isCharBoundary]
    by_cases hle : c.utf8Size ≤ m + 1
    · obtain ⟨k, hk⟩ := Nat.exists_eq_add_of_le hle
      calc isByteBoundary ((c :: cs).flatMap String.utf8EncodeChar) (m + 1) =
          isByteBoundary (cs.flatMap String.utf8EncodeChar) k := by rw [hk, byte_boundary_after]
        _ = isCharBoundary cs k := ih k
        _ = (decide (c.utf8Size ≤ m + 1) && isCharBoundary cs (m + 1 - c.utf8Size)) := by
            rw [decide_eq_true hle, Bool.true_and, hk, Nat.add_sub_cancel_left]
    · rw [byte_boundary_within c cs hn (by omega), decide_eq_false hle, Bool.false_and]

/-! ## Cutting at a boundary -/

theorem boundary_le_length {cs : List Char} {n : ℕ} (h : isCharBoundary cs n = true) :
    n ≤ (cs.flatMap String.utf8EncodeChar).length := by
  rw [← byte_boundary_encoded, isByteBoundary] at h
  split_ifs at h with hn
  · omega
  · cases hb : (cs.flatMap String.utf8EncodeChar)[n]? with
    | none =>
      rw [hb] at h
      exact (beq_iff_eq.1 h).le
    | some b => exact (List.getElem?_eq_some_iff.1 hb).1.le

/-- a cut at a boundary leaves the bytes below it -/
theorem take_encoded {cs : List Char} {n : ℕ} (h : isCharBoundary cs n = true) :
    (truncate cs n).flatMap String.utf8EncodeChar = (cs.flatMap String.utf8EncodeChar).take n := by
  induction cs generalizing n with
  | nil => simp [truncate]
  | cons c cs ih =>
    have hlength : (String.utf8EncodeChar c).length = c.utf8Size := String.length_utf8EncodeChar c
    cases n with
    | zero => simp [truncate, c.utf8Size_pos.ne']
    | succ n =>
      rw [isCharBoundary, Bool.and_eq_true, decide_eq_true_eq] at h
      have hwhole : (String.utf8EncodeChar c).take (n + 1) = String.utf8EncodeChar c :=
        List.take_of_length_le (hlength.le.trans h.1)
      calc (truncate (c :: cs) (n + 1)).flatMap String.utf8EncodeChar =
          String.utf8EncodeChar c ++ (truncate cs (n + 1 - c.utf8Size)).flatMap String.utf8EncodeChar := by
            rw [truncate, if_pos h.1, List.flatMap_cons]
        _ = String.utf8EncodeChar c ++ (cs.flatMap String.utf8EncodeChar).take (n + 1 - c.utf8Size) := by rw [ih h.2]
        _ = ((c :: cs).flatMap String.utf8EncodeChar).take (n + 1) := by
            rw [List.flatMap_cons, List.take_append, hlength, hwhole]

/-- the countdown stops at the first boundary it meets -/
theorem boundary_le_floor {cs : List Char} {n m : ℕ} (hm : m ≤ n) (h : isCharBoundary cs m = true) :
    m ≤ floorCharBoundary cs n := by
  induction n with
  | zero => exact hm
  | succ n ih =>
    rw [floorCharBoundary]
    split_ifs with hn
    · exact hm
    · have hne : m ≠ n + 1 := fun he => hn (he ▸ h)
      exact ih (by omega)

/-- a character has at most four bytes, so three steps down from any offset there is a boundary -/
theorem boundary_near {cs : List Char} {n : ℕ} (hn : n ≤ (cs.flatMap String.utf8EncodeChar).length) :
    ∃ m ≤ n, n ≤ m + 3 ∧ isCharBoundary cs m = true := by
  induction cs generalizing n with
  | nil => exact ⟨0, Nat.zero_le n, by simp at hn; omega, rfl⟩
  | cons c cs ih =>
    rw [List.flatMap_cons, List.length_append, String.length_utf8EncodeChar] at hn
    have hpos : 0 < c.utf8Size := c.utf8Size_pos
    have hfour : c.utf8Size ≤ 4 := c.utf8Size_le_four
    by_cases hle : c.utf8Size ≤ n
    · obtain ⟨m, hmn, hnear, hm⟩ := ih (n := n - c.utf8Size) (by omega)
      refine ⟨c.utf8Size + m, by omega, by omega, ?_⟩
      rw [← byte_boundary_encoded, byte_boundary_after, byte_boundary_encoded, hm]
    · exact ⟨0, Nat.zero_le n, by omega, isCharBoundary_zero _⟩

theorem floor_near {cs : List Char} {n : ℕ} (hn : n ≤ (cs.flatMap String.utf8EncodeChar).length) :
    n ≤ floorCharBoundary cs n + 3 := by
  obtain ⟨m, hmn, hnear, hm⟩ := boundary_near hn
  have hle : m ≤ floorCharBoundary cs n := boundary_le_floor hmn hm
  omega

end Core.Text
