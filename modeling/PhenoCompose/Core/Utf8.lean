/-
Lossy decoding of texts: the bytes of a text are decoded to the text (`fromUtf8Lossy_bytes`), and no character NUL is
decoded from bytes without NUL (`no_nul_decoded`).
-/
import PhenoCompose.Core.Text

namespace Core.Text

section Decode

variable {b0 b1 b2 b3 : UInt8} (rest : Bytes)

theorem isContinuation_iff : isContinuation b1 = true ↔ 0x80 ≤ b1.toNat ∧ b1.toNat ≤ 0xbf := by
  simp [isContinuation, UInt8.le_iff_toNat_le]

theorem secondOk_iff : secondOk b0 b1 = true ↔
    (0x80 ≤ b1.toNat ∧ b1.toNat ≤ 0xbf) ∧ (b0.toNat = 0xe0 → 0xa0 ≤ b1.toNat) ∧ (b0.toNat = 0xed → b1.toNat ≤ 0x9f) ∧
      (b0.toNat = 0xf0 → 0x90 ≤ b1.toNat) ∧ (b0.toNat = 0xf4 → b1.toNat ≤ 0x8f) := by
  refine ⟨?_, ?_⟩
  · intro h
    obtain ⟨h1, h2, h3⟩ := secondOk_range h
    exact ⟨⟨h1, h2⟩, h3⟩
  · intro h
    simp only [secondOk, isContinuation, ← UInt8.toNat_inj]
    split_ifs <;> simp_all [UInt8.le_iff_toNat_le]

theorem decode_one (h : b0.toNat < 0x80) : decodeChar b0 rest = (Char.ofNat b0.toNat, 1) := by
  have h0 : b0 < 0x80 := UInt8.lt_iff_toNat_lt.2 h
  unfold decodeChar
  rw [if_pos h0]

theorem not_one_byte (h : 0x80 ≤ b0.toNat) : ¬b0 < 0x80 := by
  rw [UInt8.lt_iff_toNat_lt]
  exact not_lt.2 h

/-- a byte above a class of lead bytes is not of it -/
theorem above_class {least greatest : UInt8} (h : greatest.toNat < b0.toNat) :
    ¬(decide (least ≤ b0) && decide (b0 ≤ greatest)) = true := by
  simp only [Bool.and_eq_true, decide_eq_true_eq, UInt8.le_iff_toNat_le]
  exact fun hclass => absurd hclass.2 (not_le.2 h)

theorem decode_two (h : 0xc2 ≤ b0.toNat ∧ b0.toNat ≤ 0xdf) (h1 : 0x80 ≤ b1.toNat ∧ b1.toNat ≤ 0xbf) :
    decodeChar b0 (b1 :: rest) = (Char.ofNat (b0.toNat % 32 * 64 + b1.toNat % 64), 2) := by
  have hone : ¬b0 < 0x80 := not_one_byte (le_trans (by decide) h.1)
  have htwo : (decide (0xc2 ≤ b0) && decide (b0 ≤ 0xdf)) = true := by simpa [UInt8.le_iff_toNat_le] using h
  unfold decodeChar
  rw [if_neg hone, if_pos htwo]
  exact if_pos (isContinuation_iff.2 h1)

theorem decode_three (h : 0xe0 ≤ b0.toNat ∧ b0.toNat ≤ 0xef) (h1 : secondOk b0 b1 = true)
    (h2 : 0x80 ≤ b2.toNat ∧ b2.toNat ≤ 0xbf) : decodeChar b0 (b1 :: b2 :: rest) =
      (Char.ofNat (b0.toNat % 16 * 4096 + b1.toNat % 64 * 64 + b2.toNat % 64), 3) := by
  have hone : ¬b0 < 0x80 := not_one_byte (le_trans (by decide) h.1)
  have htwo : ¬(decide (0xc2 ≤ b0) && decide (b0 ≤ 0xdf)) = true := above_class (lt_of_lt_of_le (by decide) h.1)
  have hthree : (decide (0xe0 ≤ b0) && decide (b0 ≤ 0xef)) = true := by simpa [UInt8.le_iff_toNat_le] using h
  unfold decodeChar
  rw [if_neg hone, if_neg htwo, if_pos hthree]
  exact (if_pos h1).trans (if_pos (isContinuation_iff.2 h2))

theorem decode_four (h : 0xf0 ≤ b0.toNat ∧ b0.toNat ≤ 0xf4) (h1 : secondOk b0 b1 = true)
    (h2 : 0x80 ≤ b2.toNat ∧ b2.toNat ≤ 0xbf) (h3 : 0x80 ≤ b3.toNat ∧ b3.toNat ≤ 0xbf) :
    decodeChar b0 (b1 :: b2 :: b3 :: rest) =
      (Char.ofNat (b0.toNat % 8 * 262144 + b1.toNat % 64 * 4096 + b2.toNat % 64 * 64 + b3.toNat % 64), 4) := by
  have hone : ¬b0 < 0x80 := not_one_byte (le_trans (by decide) h.1)
  have htwo : ¬(decide (0xc2 ≤ b0) && decide (b0 ≤ 0xdf)) = true := above_class (lt_of_lt_of_le (by decide) h.1)
  have hthree : ¬(decide (0xe0 ≤ b0) && decide (b0 ≤ 0xef)) = true := above_class (lt_of_lt_of_le (by decide) h.1)
  have hfour : (decide (0xf0 ≤ b0) && decide (b0 ≤ 0xf4)) = true := by simpa [UInt8.le_iff_toNat_le] using h
  unfold decodeChar
  rw [if_neg hone, if_neg htwo, if_neg hthree, if_pos hfour]
  exact (if_pos h1).trans ((if_pos (isContinuation_iff.2 h2)).trans (if_pos (isContinuation_iff.2 h3)))

end Decode

/-- decoding undoes encoding, one character at a time -/
theorem decodeChar_encoded (c : Char) (rest : Bytes) : ∃ b tail, String.utf8EncodeChar c ++ rest = b :: tail ∧
    decodeChar b tail = (c, (String.utf8EncodeChar c).length) := by
  have hc : c.val.toNat < 0xd800 ∨ 0xdfff < c.val.toNat ∧ c.val.toNat < 0x110000 := c.valid
  have hback : ∀ n, n = c.val.toNat → Char.ofNat n = c := by
    rintro n rfl
    exact Char.ofNat_toNat c
  have hbyte : ∀ n, n < 256 → (UInt8.ofNat n).toNat = n := fun n h => UInt8.toNat_ofNat_of_lt h
  unfold String.utf8EncodeChar
  simp only
  split_ifs with h1 h2 h3
  · have hb := hbyte c.val.toNat (by omega)
    generalize UInt8.ofNat c.val.toNat = b at hb
    refine ⟨b, rest, rfl, (decode_one rest (by omega)).trans ?_⟩
    rw [hback _ hb]
    rfl
  · have hb0 := hbyte (c.val.toNat / 64 % 0x20 + 0xc0) (by omega)
    have hb1 := hbyte (c.val.toNat % 0x40 + 0x80) (by omega)
    generalize UInt8.ofNat (c.val.toNat / 64 % 0x20 + 0xc0) = b0 at hb0
    generalize UInt8.ofNat (c.val.toNat % 0x40 + 0x80) = b1 at hb1
    refine ⟨b0, b1 :: rest, rfl, (decode_two rest (by omega) (by omega)).trans ?_⟩
    rw [hback _ (by omega)]
    rfl
  · have hb0 := hbyte (c.val.toNat / 4096 % 0x10 + 0xe0) (by omega)
    have hb1 := hbyte (c.val.toNat / 64 % 0x40 + 0x80) (by omega)
    have hb2 := hbyte (c.val.toNat % 0x40 + 0x80) (by omega)
    generalize UInt8.ofNat (c.val.toNat / 4096 % 0x10 + 0xe0) = b0 at hb0
    generalize UInt8.ofNat (c.val.toNat / 64 % 0x40 + 0x80) = b1 at hb1
    generalize UInt8.ofNat (c.val.toNat % 0x40 + 0x80) = b2 at hb2
    have hsecond : secondOk b0 b1 = true := secondOk_iff.2 ⟨by omega, by omega, by omega, by omega, by omega⟩
    refine ⟨b0, b1 :: b2 :: rest, rfl, (decode_three rest (by omega) hsecond (by omega)).trans ?_⟩
    rw [hback _ (by omega)]
    rfl
  · have hb0 := hbyte (c.val.toNat / 262144 % 0x08 + 0xf0) (by omega)
    have hb1 := hbyte (c.val.toNat / 4096 % 0x40 + 0x80) (by omega)
    have hb2 := hbyte (c.val.toNat / 64 % 0x40 + 0x80) (by omega)
    have hb3 := hbyte (c.val.toNat % 0x40 + 0x80) (by omega)
    generalize UInt8.ofNat (c.val.toNat / 262144 % 0x08 + 0xf0) = b0 at hb0
    generalize UInt8.ofNat (c.val.toNat / 4096 % 0x40 + 0x80) = b1 at hb1
    generalize UInt8.ofNat (c.val.toNat / 64 % 0x40 + 0x80) = b2 at hb2
    generalize UInt8.ofNat (c.val.toNat % 0x40 + 0x80) = b3 at hb3
    have hsecond : secondOk b0 b1 = true := secondOk_iff.2 ⟨by omega, by omega, by omega, by omega, by omega⟩
    refine ⟨b0, b1 :: b2 :: b3 :: rest, rfl, (decode_four rest (by omega) hsecond (by omega) (by omega)).trans ?_⟩
    rw [hback _ (by omega)]
    rfl

theorem decodeLossy_encoded (cs : List Char) (fuel : ℕ) (h : (cs.flatMap String.utf8EncodeChar).length ≤ fuel) :
    decodeLossy fuel (cs.flatMap String.utf8EncodeChar) = cs := by
  induction cs generalizing fuel with
  | nil => cases fuel <;> rfl
  | cons c cs ih =>
    obtain ⟨b, tail, he, hdecode⟩ := decodeChar_encoded c (cs.flatMap String.utf8EncodeChar)
    have hpos : 0 < (String.utf8EncodeChar c).length := by
      rw [String.length_utf8EncodeChar]
      exact c.utf8Size_pos
    rw [List.flatMap_cons, List.length_append] at h
    obtain ⟨fuel, rfl⟩ := Nat.exists_eq_succ_of_ne_zero (by omega : fuel ≠ 0)
    rw [List.flatMap_cons, he, decodeLossy, hdecode, ← he]
    dsimp only
    rw [List.drop_left, ih fuel (by omega)]

theorem bytes_toList (s : String) : bytes s = s.toList.flatMap String.utf8EncodeChar := by
  rw [← bytes_ofList, String.ofList_toList]

/-- the bytes of a text are decoded to the text -/
theorem fromUtf8Lossy_bytes (s : String) : fromUtf8Lossy (bytes s) = s := by
  rw [fromUtf8Lossy, bytes_toList, decodeLossy_encoded _ _ le_rfl, String.ofList_toList]

/-- a text whose first byte is an ASCII character begins with that character -/
theorem ascii_head {s : String} {b : UInt8} {rest : Bytes} (h : bytes s = b :: rest) (hb : b.toNat < 0x80) :
    ∃ cs, s.toList = Char.ofNat b.toNat :: cs := by
  have hdecoded := congrArg String.toList (fromUtf8Lossy_bytes s)
  rw [h, fromUtf8Lossy, String.toList_ofList, List.length_cons, decodeLossy, decode_one rest hb] at hdecoded
  exact ⟨_, hdecoded.symm⟩

/-- NUL is decoded only from a zero byte -/
theorem decodeChar_nul {b0 : UInt8} {rest : Bytes} (h : (decodeChar b0 rest).1.toNat = 0) : b0 = 0 := by
  have hrep : replacement.toNat ≠ 0 := by decide
  have range : ∀ {lo hi b : UInt8}, (decide (lo ≤ b) && decide (b ≤ hi)) = true →
      lo.toNat ≤ b.toNat ∧ b.toNat ≤ hi.toNat := by
    intro lo hi b h
    simpa [UInt8.le_iff_toNat_le] using h
  revert h
  fun_cases decodeChar b0 rest
  case case1 hone =>
    intro h
    have hlt : b0.toNat < 128 := UInt8.lt_iff_toNat_lt.1 hone
    rw [toNat_ofNat (by left; omega)] at h
    exact UInt8.toNat_inj.1 h
  case case2 _ two b1 tail _ =>
    intro h
    have : 194 ≤ b0.toNat ∧ b0.toNat ≤ 223 := range two
    rw [toNat_ofNat (by left; omega)] at h
    omega
  case case5 _ _ three b1 hs b2 tail _ =>
    intro h
    have : 224 ≤ b0.toNat ∧ b0.toNat ≤ 239 := range three
    have := secondOk_range hs
    rw [toNat_ofNat (by unfold Nat.isValidChar; omega)] at h
    omega
  case case10 _ _ _ four b1 hs b2 _ b3 tail _ =>
    intro h
    have : 240 ≤ b0.toNat ∧ b0.toNat ≤ 244 := range four
    have := secondOk_range hs
    rw [toNat_ofNat (by unfold Nat.isValidChar; omega)] at h
    omega
  all_goals exact fun h => absurd h hrep

theorem nul_not_decoded {bs : Bytes} (h : 0 ∉ bs) (fuel : ℕ) : ∀ c ∈ decodeLossy fuel bs, c.toNat ≠ 0 := by
  induction fuel generalizing bs with
  | zero => exact List.forall_mem_nil _
  | succ fuel ih =>
    cases bs with
    | nil => exact List.forall_mem_nil _
    | cons b rest =>
      rw [List.mem_cons, not_or] at h
      rw [decodeLossy]
      refine List.forall_mem_cons.2 ⟨fun hnul => h.1 (decodeChar_nul hnul).symm, ih ?_⟩
      intro hm
      rcases List.mem_cons.1 (List.mem_of_mem_drop hm) with h0 | hrest
      · exact h.1 h0
      · exact h.2 hrest

/-- a zero byte encodes NUL and nothing else -/
theorem zero_not_encoded {c : Char} (h : c.toNat ≠ 0) : 0 ∉ String.utf8EncodeChar c := by
  have hc : c.val.toNat ≠ 0 := h
  have hbyte : ∀ n, n < 256 → n ≠ 0 → UInt8.ofNat n ≠ 0 := by
    intro n hn hne he
    have hn' : (UInt8.ofNat n).toNat = n := UInt8.toNat_ofNat_of_lt hn
    rw [he] at hn'
    exact hne hn'.symm
  unfold String.utf8EncodeChar
  simp only
  split_ifs
  all_goals
    simp only [List.mem_cons, List.not_mem_nil, or_false, not_or]
    repeat' apply And.intro
    all_goals exact (hbyte _ (by omega) (by omega)).symm

/-- decoding a text without zero bytes gives a text without zero bytes -/
theorem no_nul_decoded {bs : Bytes} (h : 0 ∉ bs) : 0 ∉ bytes (fromUtf8Lossy bs) := by
  rw [fromUtf8Lossy, bytes_ofList, List.mem_flatMap]
  intro hx
  obtain ⟨c, hc, h0⟩ := hx
  exact zero_not_encoded (nul_not_decoded h _ c hc) h0

end Core.Text
