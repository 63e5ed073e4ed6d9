/-
Rust's `str` and `[u8]` operations that the command line tool rests on, as functions on Lean strings. A Rust `String` is
a Lean `String`, its `len()` is `utf8ByteSize`, its bytes are the UTF-8 encoding; everything else goes through the list
of characters, so that it evaluates in the kernel.

- `trim`, `eqIgnoreAsciiCase`, `stripStart`: the `str` methods, Unicode white space included.
- `hex`: `format!("{:x}", bytes)`, two lower-case digits a byte.
- `isCharBoundary`, `floorCharBoundary`, `truncate`: cutting a string at a byte offset.
- `fromUtf8Lossy`: each maximal invalid piece becomes U+FFFD.

Results: `utf8ByteSize_truncate_le` (a cut at an offset has at most that many bytes), `floorCharBoundary_le`,
`length_le_fromUtf8Lossy` (lossy decoding never shortens a byte string), `hex_length` and `hex_chars`.
-/
import Mathlib

namespace Core.Text

/-- bytes of a string -/
abbrev Bytes := List UInt8

def bytes (s : String) : Bytes := s.toByteArray.data.toList

/-! ## ASCII classes -/

def isAsciiHexdigit (c : Char) : Bool := c.isDigit || ('a' ≤ c && c ≤ 'f') || ('A' ≤ c && c ≤ 'F')

/-- `to_ascii_lowercase`, character by character -/
def toAsciiLowercase (s : String) : String := String.ofList (s.toList.map Char.toLower)

/-- `to_ascii_uppercase`, character by character -/
def toAsciiUppercase (s : String) : String := String.ofList (s.toList.map Char.toUpper)

def eqIgnoreAsciiCase (a b : String) : Bool := toAsciiLowercase a == toAsciiLowercase b

theorem eqIgnoreAsciiCase_refl (a : String) : eqIgnoreAsciiCase a a = true := by
  simp [eqIgnoreAsciiCase]

/-! ## White space -/

/-- the code points with the Unicode property White_Space -/
def isWhitespace (c : Char) : Bool :=
  (0x9 ≤ c.toNat && c.toNat ≤ 0xd) || c.toNat == 0x20 || c.toNat == 0x85 || c.toNat == 0xa0 || c.toNat == 0x1680 ||
    (0x2000 ≤ c.toNat && c.toNat ≤ 0x200a) || c.toNat == 0x2028 || c.toNat == 0x2029 || c.toNat == 0x202f ||
    c.toNat == 0x205f || c.toNat == 0x3000

def trim (s : String) : String :=
  String.ofList ((s.toList.dropWhile isWhitespace).reverse.dropWhile isWhitespace).reverse

/-- `s.strip_prefix(start)` -/
def stripStart (start s : String) : Option String :=
  if start.toList.isPrefixOf s.toList then some (String.ofList (s.toList.drop start.toList.length)) else none

/-- `s.contains(pattern)` -/
def contains (s pattern : String) : Bool := s.toList.tails.any fun rest => pattern.toList.isPrefixOf rest

/-! ## Hexadecimal digits -/

theorem hexdigit_lt {c : Char} (h : isAsciiHexdigit c = true) : c.toNat < 103 := by
  simp only [isAsciiHexdigit, Char.isDigit, Bool.or_eq_true, Bool.and_eq_true, decide_eq_true_eq, ge_iff_le,
    Char.le_def, UInt32.le_iff_toNat_le] at h
  have hval : c.val.toNat = c.toNat := rfl
  simp at h
  omega

theorem hexdigit_not_whitespace {c : Char} (h : isAsciiHexdigit c = true) : isWhitespace c = false := by
  have hall : ∀ n < 103, isAsciiHexdigit (Char.ofNat n) = true → isWhitespace (Char.ofNat n) = false := by decide
  have hc := hall c.toNat (hexdigit_lt h)
  rw [Char.ofNat_toNat] at hc
  exact hc h

/-! ## Byte lengths -/

@[simp] theorem utf8ByteSize_cons (c : Char) (cs : List Char) :
    (String.ofList (c :: cs)).utf8ByteSize = c.utf8Size + (String.ofList cs).utf8ByteSize := by
  calc (String.ofList ([c] ++ cs)).utf8ByteSize = (String.ofList [c]).utf8ByteSize + (String.ofList cs).utf8ByteSize := by
        rw [String.ofList_append, String.utf8ByteSize_append]
    _ = c.utf8Size + (String.ofList cs).utf8ByteSize := by
        rw [← String.singleton_eq_ofList, String.utf8ByteSize_singleton]

/-! ## Encoding -/

theorem bytes_append (a b : String) : bytes (a ++ b) = bytes a ++ bytes b := by
  simp [bytes, String.toByteArray_append]

theorem bytes_inj {a b : String} : bytes a = bytes b ↔ a = b := by
  rw [← String.toByteArray_inj, bytes, bytes, Array.toList_inj, ByteArray.ext_iff]

theorem bytes_ofList (cs : List Char) : bytes (String.ofList cs) = cs.flatMap String.utf8EncodeChar := by
  induction cs with
  | nil => rfl
  | cons c cs ih =>
    calc bytes (String.ofList ([c] ++ cs)) = bytes (String.ofList [c]) ++ bytes (String.ofList cs) := by
          rw [String.ofList_append, bytes_append]
      _ = String.utf8EncodeChar c ++ cs.flatMap String.utf8EncodeChar := by
          rw [ih]
          simp [bytes, List.utf8Encode_singleton]
      _ = (c :: cs).flatMap String.utf8EncodeChar := rfl

/-- the bytes of an ASCII text are its code points -/
theorem bytes_ascii {cs : List Char} (h : ∀ c ∈ cs, c.utf8Size = 1) :
    bytes (String.ofList cs) = cs.map (·.val.toUInt8) := by
  rw [bytes_ofList]
  induction cs with
  | nil => rfl
  | cons c cs ih =>
    rw [List.flatMap_cons, List.map_cons, String.utf8EncodeChar_eq_singleton (h c List.mem_cons_self),
      ih fun d hd => h d (List.mem_cons_of_mem c hd)]
    rfl

theorem alphanum_ascii {c : Char} (h : c.isAlphanum = true) : c.utf8Size = 1 := by
  simp only [Char.isAlphanum, Char.isAlpha, Char.isUpper, Char.isLower, Char.isDigit, Bool.or_eq_true, Bool.and_eq_true,
    decide_eq_true_eq, ge_iff_le, UInt32.le_iff_toNat_le] at h
  simp only [Char.utf8Size, UInt32.le_iff_toNat_le]
  rw [if_pos]
  simp at h ⊢
  omega

/-- a text of letters, digits, hyphens and underscores -/
def isWord (s : String) : Bool := s.toList.all fun c => c.isAlphanum || c == '-' || c == '_'

theorem word_char_ascii {c : Char} (h : (c.isAlphanum || c == '-' || c == '_') = true) : c.utf8Size = 1 := by
  simp only [Bool.or_eq_true, beq_iff_eq] at h
  rcases h with (h | rfl) | rfl
  · exact alphanum_ascii h
  · rfl
  · rfl

theorem isWord_append {a b : String} (ha : isWord a = true) (hb : isWord b = true) : isWord (a ++ b) = true := by
  rw [isWord] at *
  rw [String.toList_append, List.all_append, ha, hb]
  rfl

/-- a word has as many bytes as characters -/
theorem word_utf8ByteSize {s : String} (h : isWord s = true) : s.utf8ByteSize = s.toList.length := by
  have hall := List.all_eq_true.1 h
  rw [← String.ofList_toList (s := s), String.toList_ofList]
  generalize s.toList = cs at hall
  induction cs with
  | nil => rfl
  | cons c cs ih =>
    rw [List.forall_mem_cons] at hall
    calc (String.ofList (c :: cs)).utf8ByteSize = c.utf8Size + (String.ofList cs).utf8ByteSize := utf8ByteSize_cons c cs
      _ = 1 + cs.length := by rw [word_char_ascii hall.1, ih hall.2]
      _ = (c :: cs).length := Nat.add_comm _ _

theorem alphanum_toLower (c : Char) : c.toLower.isAlphanum = c.isAlphanum := by
  by_cases hu : c.isUpper
  · simp [Char.isAlphanum, Char.isAlpha, hu]
  · rw [Char.toLower_eq_of_not_isUpper hu]

theorem toLower_eq_underscore {c : Char} (h : c.toLower = '_') : c = '_' := by
  have hword : c.isAlphanum = false := by rw [← alphanum_toLower, h]; rfl
  have hupper : ¬c.isUpper = true := by
    intro hupper
    simp [Char.isAlphanum, Char.isAlpha, hupper] at hword
  rwa [Char.toLower_eq_of_not_isUpper hupper] at h

/-- no byte of a word is that of a punctuation mark below the digits other than the hyphen -/
theorem byte_of_word {s : String} (h : isWord s = true) {b : UInt8} (hb : b ∈ bytes s) : b = 45 ∨ 48 ≤ b := by
  have hall := List.all_eq_true.1 h
  rw [← String.ofList_toList (s := s), bytes_ascii fun c hc => word_char_ascii (hall c hc)] at hb
  obtain ⟨c, hc, rfl⟩ := List.mem_map.1 hb
  have hword := hall c hc
  simp only [Bool.or_eq_true, beq_iff_eq] at hword
  rcases hword with (hw | rfl) | rfl
  · right
    simp only [Char.isAlphanum, Char.isAlpha, Char.isUpper, Char.isLower, Char.isDigit, Bool.or_eq_true,
      Bool.and_eq_true, decide_eq_true_eq, ge_iff_le, UInt32.le_iff_toNat_le] at hw
    rw [UInt8.le_iff_toNat_le, UInt32.toNat_toUInt8]
    simp at hw ⊢
    omega
  · left; rfl
  · right; decide

/-! ## Cutting at a byte offset -/

/-- byte offset `n` lies between two characters (or at an end) -/
def isCharBoundary : List Char → ℕ → Bool
  | _, 0 => true
  | [], _ + 1 => false
  | c :: cs, n + 1 => c.utf8Size ≤ n + 1 && isCharBoundary cs (n + 1 - c.utf8Size)

/-- the largest boundary at or below `n`: the countdown `while !is_char_boundary(n) { n -= 1 }` -/
def floorCharBoundary (cs : List Char) : ℕ → ℕ
  | 0 => 0
  | n + 1 => if isCharBoundary cs (n + 1) then n + 1 else floorCharBoundary cs n

/-- the characters that end at or before byte offset `n` -/
def truncate : List Char → ℕ → List Char
  | [], _ => []
  | c :: cs, n => if c.utf8Size ≤ n then c :: truncate cs (n - c.utf8Size) else []

theorem floorCharBoundary_le (cs : List Char) (n : ℕ) : floorCharBoundary cs n ≤ n := by
  induction n with
  | zero => exact le_rfl
  | succ n ih =>
    simp only [floorCharBoundary]
    split_ifs
    · exact le_rfl
    · exact Nat.le_succ_of_le ih

theorem isCharBoundary_floor (cs : List Char) (n : ℕ) : isCharBoundary cs (floorCharBoundary cs n) = true := by
  induction n with
  | zero => cases cs <;> rfl
  | succ n ih =>
    simp only [floorCharBoundary]
    split_ifs with h
    · exact h
    · exact ih

theorem utf8ByteSize_truncate_le (cs : List Char) (n : ℕ) : (String.ofList (truncate cs n)).utf8ByteSize ≤ n := by
  induction cs generalizing n with
  | nil => simp [truncate]
  | cons c cs ih =>
    simp only [truncate]
    split_ifs with h
    · have := ih (n - c.utf8Size)
      rw [utf8ByteSize_cons]; omega
    · simp

/-! ## Hexadecimal -/

def hexDigit (n : ℕ) : Char := if n < 10 then Char.ofNat (48 + n) else Char.ofNat (87 + n)

/-- `format!("{:x}", bytes)` on a digest: two digits a byte, high half first -/
def hex (bs : Bytes) : String := String.ofList (bs.flatMap fun b => [hexDigit (b.toNat / 16), hexDigit (b.toNat % 16)])

theorem hexDigit_ok : ∀ n < 16, isAsciiHexdigit (hexDigit n) = true ∧ (hexDigit n).isAlphanum = true ∧
    (hexDigit n).utf8Size = 1 := by
  decide

theorem hex_chars (bs : Bytes) : ∀ c ∈ (hex bs).toList, isAsciiHexdigit c = true ∧ c.isAlphanum = true ∧
    c.utf8Size = 1 := by
  intro c hc
  simp only [hex, String.toList_ofList, List.mem_flatMap, List.mem_cons, List.not_mem_nil, or_false] at hc
  obtain ⟨b, -, rfl | rfl⟩ := hc
  · exact hexDigit_ok _ (by have := b.toNat_lt; omega)
  · exact hexDigit_ok _ (by omega)

theorem hex_length (bs : Bytes) : (hex bs).toList.length = 2 * bs.length := by
  simp only [hex, String.toList_ofList]
  induction bs with
  | nil => rfl
  | cons b bs ih => simp only [List.flatMap_cons, List.length_append, List.length_cons, List.length_nil, ih]; omega

/-! ## Lossy UTF-8 decoding -/

def isContinuation (b : UInt8) : Bool := 0x80 ≤ b && b ≤ 0xbf

/-- the second byte that may follow a lead byte of three or four bytes -/
def secondOk (b0 b1 : UInt8) : Bool :=
  if b0 = 0xe0 then 0xa0 ≤ b1 && b1 ≤ 0xbf
  else if b0 = 0xed then 0x80 ≤ b1 && b1 ≤ 0x9f
  else if b0 = 0xf0 then 0x90 ≤ b1 && b1 ≤ 0xbf
  else if b0 = 0xf4 then 0x80 ≤ b1 && b1 ≤ 0x8f
  else isContinuation b1

def replacement : Char := Char.ofNat 0xfffd

/-- one character from the front of a byte string, and how many bytes it took; a maximal invalid piece is U+FFFD -/
def decodeChar (b0 : UInt8) (rest : Bytes) : Char × ℕ :=
  if b0 < 0x80 then (Char.ofNat b0.toNat, 1)
  else if 0xc2 ≤ b0 && b0 ≤ 0xdf then
    match rest with
    | b1 :: _ =>
      if isContinuation b1 then (Char.ofNat (b0.toNat % 32 * 64 + b1.toNat % 64), 2) else (replacement, 1)
    | [] => (replacement, 1)
  else if 0xe0 ≤ b0 && b0 ≤ 0xef then
    match rest with
    | b1 :: rest' =>
      if secondOk b0 b1 then
        match rest' with
        | b2 :: _ =>
          if isContinuation b2 then (Char.ofNat (b0.toNat % 16 * 4096 + b1.toNat % 64 * 64 + b2.toNat % 64), 3)
          else (replacement, 2)
        | [] => (replacement, 2)
      else (replacement, 1)
    | [] => (replacement, 1)
  else if 0xf0 ≤ b0 && b0 ≤ 0xf4 then
    match rest with
    | b1 :: rest' =>
      if secondOk b0 b1 then
        match rest' with
        | b2 :: rest'' =>
          if isContinuation b2 then
            match rest'' with
            | b3 :: _ =>
              if isContinuation b3 then
                (Char.ofNat (b0.toNat % 8 * 262144 + b1.toNat % 64 * 4096 + b2.toNat % 64 * 64 + b3.toNat % 64), 4)
              else (replacement, 3)
            | [] => (replacement, 3)
          else (replacement, 2)
        | [] => (replacement, 2)
      else (replacement, 1)
    | [] => (replacement, 1)
  else (replacement, 1)

/-- decoding with fuel: every step takes at least one byte, so the length of the input is enough -/
def decodeLossy : ℕ → Bytes → List Char
  | 0, _ => []
  | _ + 1, [] => []
  | fuel + 1, b :: rest =>
    let (c, taken) := decodeChar b rest
    c :: decodeLossy fuel ((b :: rest).drop taken)

def fromUtf8Lossy (bs : Bytes) : String := String.ofList (decodeLossy bs.length bs)

theorem utf8Size_ge (c : Char) : (0x80 ≤ c.toNat → 2 ≤ c.utf8Size) ∧ (0x800 ≤ c.toNat → 3 ≤ c.utf8Size) ∧
    (0x10000 ≤ c.toNat → 4 ≤ c.utf8Size) := by
  simp only [Char.utf8Size, Char.toNat, UInt32.le_iff_toNat_le]
  refine ⟨fun h => ?_, fun h => ?_, fun h => ?_⟩ <;> split_ifs <;> simp_all <;> omega

theorem toNat_ofNat {n : ℕ} (h : n.isValidChar) : (Char.ofNat n).toNat = n := by rw [Char.toNat_ofNat, if_pos h]

theorem secondOk_range {b0 b1 : UInt8} (h : secondOk b0 b1 = true) :
    0x80 ≤ b1.toNat ∧ b1.toNat ≤ 0xbf ∧ (b0.toNat = 0xe0 → 0xa0 ≤ b1.toNat) ∧ (b0.toNat = 0xed → b1.toNat ≤ 0x9f) ∧
      (b0.toNat = 0xf0 → 0x90 ≤ b1.toNat) ∧ (b0.toNat = 0xf4 → b1.toNat ≤ 0x8f) := by
  simp only [secondOk, isContinuation, ← UInt8.toNat_inj] at h
  split_ifs at h <;> simp_all [UInt8.le_iff_toNat_le] <;> omega

/-- a step takes at least one byte, at most what is there, and no more bytes than its character encodes to -/
theorem decodeChar_taken (b0 : UInt8) (rest : Bytes) :
    1 ≤ (decodeChar b0 rest).2 ∧ (decodeChar b0 rest).2 ≤ rest.length + 1 ∧
      (decodeChar b0 rest).2 ≤ (decodeChar b0 rest).1.utf8Size := by
  have hrep : replacement.utf8Size = 3 := by decide
  have h1 : ∀ c : Char, 1 ≤ c.utf8Size := fun c => Char.utf8Size_pos c
  have range : ∀ {lo hi b : UInt8}, (decide (lo ≤ b) && decide (b ≤ hi)) = true →
      lo.toNat ≤ b.toNat ∧ b.toNat ≤ hi.toNat := by
    intro lo hi b h
    simpa [UInt8.le_iff_toNat_le] using h
  fun_cases decodeChar b0 rest
  case case2 _ two b1 tail _ =>
    have : 194 ≤ b0.toNat ∧ b0.toNat ≤ 223 := range two
    refine ⟨by simp, by simp, (utf8Size_ge _).1 ?_⟩
    rw [toNat_ofNat (by left; omega)]; omega
  case case5 _ _ three b1 hs b2 tail _ =>
    have : 224 ≤ b0.toNat ∧ b0.toNat ≤ 239 := range three
    have := secondOk_range hs
    refine ⟨by simp, by simp, (utf8Size_ge _).2.1 ?_⟩
    rw [toNat_ofNat (by unfold Nat.isValidChar; omega)]; omega
  case case10 _ _ _ four b1 hs b2 _ b3 tail _ =>
    have : 240 ≤ b0.toNat ∧ b0.toNat ≤ 244 := range four
    have := secondOk_range hs
    refine ⟨by simp, by simp, (utf8Size_ge _).2.2 ?_⟩
    rw [toNat_ofNat (by unfold Nat.isValidChar; omega)]; omega
  all_goals simp [hrep, h1]

theorem length_le_decodeLossy (fuel : ℕ) (bs : Bytes) (h : bs.length ≤ fuel) :
    bs.length ≤ (String.ofList (decodeLossy fuel bs)).utf8ByteSize := by
  induction fuel generalizing bs with
  | zero => omega
  | succ fuel ih =>
    cases bs with
    | nil => simp
    | cons b rest =>
      obtain ⟨h1, h2, h3⟩ := decodeChar_taken b rest
      have hd : ((b :: rest).drop (decodeChar b rest).2).length = rest.length + 1 - (decodeChar b rest).2 := by simp
      have := ih ((b :: rest).drop (decodeChar b rest).2) (by simp only [List.length_cons] at h; omega)
      simp only [decodeLossy, utf8ByteSize_cons, List.length_cons]
      omega

/-- **Lossy decoding never shortens.** Each invalid piece has at most three bytes and U+FFFD encodes to three. -/
theorem length_le_fromUtf8Lossy (bs : Bytes) : bs.length ≤ (fromUtf8Lossy bs).utf8ByteSize :=
  length_le_decodeLossy bs.length bs le_rfl

end Core.Text
