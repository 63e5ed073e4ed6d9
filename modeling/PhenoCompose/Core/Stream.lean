/-
Readers: a call for some bytes gives at most as many, and none at the end of the stream.

- `Delivers`: the pieces in which a reader hands over a stream, up to and including the read that finds the end; no piece
  is empty and each fits (`Delivers.sizes`).
- `Pipe`: a reader that hands over what was written, as it was written where it fits (`Pipe.delivers`).
- `Pipe.read_contents`: one read takes its piece off the front of what the pipe holds, and leaves less behind.
-/
import PhenoCompose.Core.Text

namespace Core.Stream

open Core.Text

/-- `std::io::Read`: one call, with room for so many bytes -/
class Read (ε : outParam Type) (ρ : Type) where
  read : ρ → ℕ → Except ε Bytes × ρ
  read_le : ∀ {reader reader' : ρ} {room : ℕ} {piece : Bytes}, read reader room = (.ok piece, reader') →
    piece.length ≤ room

/-- read after read with this much room, the reader hands over these pieces, and then the end of the stream -/
inductive Delivers {ε ρ : Type} [Read ε ρ] (room : ℕ) : ρ → List Bytes → ρ → Prop where
  | ended {reader reader' : ρ} (ended : Read.read reader room = (.ok [], reader')) : Delivers room reader [] reader'
  | piece {reader reader' rest : ρ} {piece : Bytes} {pieces : List Bytes}
      (handed : Read.read reader room = (.ok piece, reader')) (nonempty : piece ≠ [])
      (later : Delivers room reader' pieces rest) : Delivers room reader (piece :: pieces) rest

/-- the pieces are those that one read can hand over -/
theorem Delivers.sizes {ε ρ : Type} [Read ε ρ] {room : ℕ} {reader rest : ρ} {pieces : List Bytes}
    (h : Delivers room reader pieces rest) : ∀ piece ∈ pieces, 1 ≤ piece.length ∧ piece.length ≤ room := by
  induction h with
  | ended => exact List.forall_mem_nil _
  | piece handed nonempty later ih =>
    exact List.forall_mem_cons.2 ⟨⟨List.length_pos_of_ne_nil nonempty, Read.read_le handed⟩, ih⟩

/-! ## Pipes -/

/-- what the reads from a pipe still have to give: pieces as they were written, or errors; then the end -/
structure Pipe (ε : Type) where
  pieces : List (Except ε Bytes)

variable {ε : Type}

def Pipe.read (pipe : Pipe ε) (room : ℕ) : Except ε Bytes × Pipe ε :=
  match pipe.pieces with
  | [] => (.ok [], pipe)
  | .error error :: pieces => (.error error, ⟨pieces⟩)
  | .ok piece :: pieces =>
    if piece.length ≤ room then (.ok piece, ⟨pieces⟩)
    else (.ok (piece.take room), ⟨.ok (piece.drop room) :: pieces⟩)

instance : Read ε (Pipe ε) where
  read := Pipe.read
  read_le {pipe pipe' room piece} h := by
    unfold Pipe.read at h
    split at h
    · cases h
      exact Nat.zero_le _
    · cases h
    · split_ifs at h with hfits
      · cases h
        exact hfits
      · cases h
        exact List.length_take_le _ _

/-- pieces that fit are handed over as they were written -/
theorem Pipe.delivers {room : ℕ} (pieces : List Bytes) (h : ∀ piece ∈ pieces, piece ≠ [] ∧ piece.length ≤ room) :
    Delivers room (⟨pieces.map .ok⟩ : Pipe ε) pieces ⟨[]⟩ := by
  induction pieces with
  | nil => exact .ended rfl
  | cons piece pieces ih =>
    obtain ⟨⟨hne, hfits⟩, hrest⟩ := List.forall_mem_cons.1 h
    exact .piece (if_pos hfits) hne (ih hrest)

/-- what the reads give together: all that was written, or the first error; a read that gives nothing is the end -/
def Pipe.contentsOf : List (Except ε Bytes) → Except ε Bytes
  | [] => .ok []
  | .error error :: _ => .error error
  | .ok [] :: _ => .ok []
  | .ok (byte :: piece) :: pieces => (byte :: piece ++ ·) <$> contentsOf pieces

def Pipe.contents (pipe : Pipe ε) : Except ε Bytes := Pipe.contentsOf pipe.pieces

/-- more than the reads that it takes to come to the end -/
def Pipe.size (pipe : Pipe ε) : ℕ :=
  (pipe.pieces.map fun
    | .ok piece => piece.length + 1
    | .error _ => 1).sum

theorem Pipe.contents_cons {piece : Bytes} (h : piece ≠ []) (pieces : List (Except ε Bytes)) :
    Pipe.contents ⟨.ok piece :: pieces⟩ = (piece ++ ·) <$> Pipe.contents ⟨pieces⟩ := by
  obtain ⟨byte, piece, rfl⟩ := List.exists_cons_of_ne_nil h
  rfl

/-- what a read gives says of what there is: an error, the end, or the front of it, with less left behind -/
inductive Pipe.Gives (pipe pipe' : Pipe ε) : Except ε Bytes → Prop where
  | failed {error : ε} (contents : pipe.contents = .error error) : Gives pipe pipe' (.error error)
  | ended (contents : pipe.contents = .ok []) : Gives pipe pipe' (.ok [])
  | piece {piece : Bytes} (nonempty : piece ≠ []) (contents : pipe.contents = (piece ++ ·) <$> pipe'.contents)
      (smaller : pipe'.size < pipe.size) : Gives pipe pipe' (.ok piece)

theorem Pipe.read_contents {pipe pipe' : Pipe ε} {room : ℕ} {r : Except ε Bytes} (hroom : 0 < room)
    (h : Pipe.read pipe room = (r, pipe')) : Pipe.Gives pipe pipe' r := by
  obtain ⟨_ | ⟨error | piece, pieces⟩⟩ := pipe
  · cases h
    exact .ended rfl
  · cases h
    exact .failed rfl
  · unfold Pipe.read at h
    dsimp only at h
    split_ifs at h with hfits
    · cases h
      cases piece with
      | nil => exact .ended rfl
      | cons byte piece =>
        refine .piece (List.cons_ne_nil _ _) rfl ?_
        simp only [Pipe.size, List.map_cons, List.sum_cons]
        omega
    · -- a piece that does not fit is cut, and its rest stays at the front
      cases h
      have hlong : room < piece.length := Nat.lt_of_not_le hfits
      have htaken : piece.take room ≠ [] := List.ne_nil_of_length_pos (by rw [List.length_take]; omega)
      have hleft : piece.drop room ≠ [] := List.ne_nil_of_length_pos (by rw [List.length_drop]; omega)
      refine .piece htaken ?_ ?_
      · rw [Pipe.contents_cons (fun he => by rw [he] at hlong; cases hlong), Pipe.contents_cons hleft,
          ← LawfulFunctor.comp_map]
        refine congrArg (· <$> Pipe.contents ⟨pieces⟩) (funext fun rest => ?_)
        rw [Function.comp, ← List.append_assoc, List.take_append_drop]
      · simp only [Pipe.size, List.map_cons, List.sum_cons, List.length_drop]
        omega

end Core.Stream
