/-
Cutting the evidence of a failed evaluation to the limit, as the code does it: a countdown to a character boundary,
`String::truncate`, and the flag. The countdown and the cut can panic.

- `bounded_string_exact`: they do not; the text left is the longest one of the limit, and the flag tells of a cut.
- `trustworthy_flag`: over both texts of a lifecycle, the flag is raised exactly by a cut, and it stays raised.
-/
import PhenoCompose.Core.Boundary
import PhenoCompose.Evaluation

namespace PhenoCompose

open Core.Text

/-! ## Model -/

/-- `while !value.is_char_boundary(boundary) { boundary -= 1 }`, in checked arithmetic -/
def boundaryBelow (value : String) : ℕ → Result ℕ
  | 0 =>
    if isByteBoundary (bytes value) 0 then .ok 0
    else .error (.panic "attempt to subtract with overflow")
  | boundary + 1 =>
    if isByteBoundary (bytes value) (boundary + 1) then .ok (boundary + 1)
    else boundaryBelow value boundary

/-- `String::truncate` -/
def truncateString (value : String) (newLen : ℕ) : Result String :=
  if newLen ≤ value.utf8ByteSize then
    if isByteBoundary (bytes value) newLen then .ok (String.ofList (truncate value.toList newLen))
    else .error (.panic "assertion failed: self.is_char_boundary(new_len)")
  else .ok value

/-- `boundedString` with its panics: the text, and what is left in the caller's flag -/
def boundedStringChecked (value : String) (limit : ℕ) (truncated : Bool) : Result (String × Bool) :=
  if value.utf8ByteSize ≤ limit then .ok (value, truncated)
  else do
    let boundary ← boundaryBelow value limit
    let value ← truncateString value boundary
    .ok (value, true)

/-- the text is the longest front of the value within the limit, and the flag says whether any of it is missing -/
structure Bounded (value : String) (limit : ℕ) (truncated : Bool) (text : String) (flag : Bool) : Prop where
  front : bytes text = (bytes value).take text.utf8ByteSize
  boundary : isByteBoundary (bytes value) text.utf8ByteSize = true
  le_limit : text.utf8ByteSize ≤ limit
  longest : ∀ n ≤ limit, isByteBoundary (bytes value) n = true → n ≤ text.utf8ByteSize
  dropped : min limit value.utf8ByteSize ≤ text.utf8ByteSize + 3
  raised : flag = true ↔ truncated = true ∨ text ≠ value

/-! ## No panic -/

theorem byte_boundary_toList (value : String) (n : ℕ) :
    isByteBoundary (bytes value) n = isCharBoundary value.toList n := by
  rw [bytes_toList, byte_boundary_encoded]

/-- the countdown ends at the largest boundary below the limit: 0 is one -/
theorem boundaryBelow_ok (value : String) (n : ℕ) :
    boundaryBelow value n = .ok (floorCharBoundary value.toList n) := by
  induction n with
  | zero => rfl
  | succ n ih =>
    rw [boundaryBelow, floorCharBoundary, byte_boundary_toList]
    split_ifs
    · rfl
    · exact ih

theorem truncateString_ok {value : String} {n : ℕ} (h : isCharBoundary value.toList n = true) :
    truncateString value n = .ok (String.ofList (truncate value.toList n)) := by
  have hle : n ≤ value.utf8ByteSize := by
    have := boundary_le_length h
    rwa [← bytes_toList] at this
  rw [truncateString, if_pos hle, byte_boundary_toList, if_pos h]

theorem boundedStringChecked_ok (value : String) (limit : ℕ) (truncated : Bool) :
    boundedStringChecked value limit truncated = .ok (boundedString value limit truncated) := by
  rw [boundedStringChecked, boundedString]
  split_ifs
  · rfl
  · rw [boundaryBelow_ok]
    change truncateString value (floorCharBoundary value.toList limit) >>= _ = _
    rw [truncateString_ok (isCharBoundary_floor _ _)]
    rfl

/-! ## The text left -/

theorem size_truncate {value : String} {n : ℕ} (h : isCharBoundary value.toList n = true) :
    bytes (String.ofList (truncate value.toList n)) = (bytes value).take n ∧
      (String.ofList (truncate value.toList n)).utf8ByteSize = n := by
  have hbytes : bytes (String.ofList (truncate value.toList n)) = (bytes value).take n := by
    rw [bytes_ofList, take_encoded h, ← bytes_toList]
  have hle : n ≤ (bytes value).length := bytes_toList value ▸ boundary_le_length h
  refine ⟨hbytes, ?_⟩
  have hlength := congrArg List.length hbytes
  rwa [List.length_take, min_eq_left hle] at hlength

theorem bounded_kept {value : String} {limit : ℕ} (h : value.utf8ByteSize ≤ limit) (truncated : Bool) :
    Bounded value limit truncated value truncated where
  front := (List.take_of_length_le le_rfl).symm
  boundary := byte_boundary_end (bytes value)
  le_limit := h
  longest n _ hn := by
    rw [byte_boundary_toList] at hn
    exact (boundary_le_length hn).trans (bytes_toList value ▸ le_rfl)
  dropped := (min_le_right _ _).trans (Nat.le_add_right _ _)
  raised := by simp

theorem bounded_cut {value : String} {limit : ℕ} (h : limit < value.utf8ByteSize) (truncated : Bool) :
    Bounded value limit truncated
      (String.ofList (truncate value.toList (floorCharBoundary value.toList limit))) true := by
  have hfloor := isCharBoundary_floor value.toList limit
  have hle := floorCharBoundary_le value.toList limit
  obtain ⟨hbytes, hsize⟩ := size_truncate hfloor
  refine ⟨?_, ?_, ?_, ?_, ?_, ?_⟩
  · rw [hsize, hbytes]
  · rw [hsize, byte_boundary_toList, hfloor]
  · rw [hsize]
    exact hle
  · intro n hn hboundary
    rw [hsize]
    exact boundary_le_floor hn (byte_boundary_toList value n ▸ hboundary)
  · have hnear : limit ≤ floorCharBoundary value.toList limit + 3 := floor_near (bytes_toList value ▸ h.le)
    rw [hsize]
    exact (min_le_left _ _).trans hnear
  · have hne : String.ofList (truncate value.toList (floorCharBoundary value.toList limit)) ≠ value := by
      intro he
      rw [he] at hsize
      omega
    simp [hne]

theorem boundedString_bounded (value : String) (limit : ℕ) (truncated : Bool) :
    Bounded value limit truncated (boundedString value limit truncated).1
      (boundedString value limit truncated).2 := by
  rw [boundedString]
  split_ifs with h
  · exact bounded_kept h truncated
  · exact bounded_cut (not_le.1 h) truncated

/-- **A cut text is the longest one that fits.** For every text and every limit the countdown ends without underflow
and the cut does not panic. What is left is the longest front of the text that ends between two characters and has at
most the limit's bytes, within three bytes of the limit; the flag is raised exactly by a cut, and stays raised. -/
theorem bounded_string_exact (value : String) (limit : ℕ) (truncated : Bool) :
    ∃ text flag, boundedStringChecked value limit truncated = .ok (text, flag) ∧
      Bounded value limit truncated text flag :=
  ⟨_, _, boundedStringChecked_ok value limit truncated, boundedString_bounded value limit truncated⟩

/-- `é` has two bytes: a limit inside it leaves nothing of it -/
example : boundedStringChecked "né" 2 false = .ok ("n", true) := by decide

/-- the second text does not clear the flag that the first one raised -/
theorem trustworthy_flag (lib : Externals) (lifecycle : Lifecycle) (maxOutputBytes : ℕ) :
    (trustworthyFailureLifecycle lib lifecycle maxOutputBytes).truncated = true ↔
      lifecycle.truncated = true ∨
        (trustworthyFailureLifecycle lib lifecycle maxOutputBytes).stdout ≠ lifecycle.stdout ∨
        (trustworthyFailureLifecycle lib lifecycle maxOutputBytes).stderr ≠ lifecycle.stderr := by
  have hstdout := (boundedString_bounded lifecycle.stdout maxOutputBytes lifecycle.truncated).raised
  have hstderr := (boundedString_bounded lifecycle.stderr maxOutputBytes
    (boundedString lifecycle.stdout maxOutputBytes lifecycle.truncated).2).raised
  rw [trustworthyFailureLifecycle, hstderr, hstdout, or_assoc]

end PhenoCompose
