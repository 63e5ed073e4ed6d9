/-
SHA-256: a message is padded to blocks of 64 bytes, and the blocks are folded into a digest of eight words.
-/
import PhenoCompose.Core.Text

namespace Core.Sha256

open Core.Text

/-- the round constants: the first 32 bits of the fractional parts of the cube roots of the first 64 primes -/
def constants : List UInt32 :=
  [0x428a2f98, 0x71374491, 0xb5c0fbcf, 0xe9b5dba5, 0x3956c25b, 0x59f111f1, 0x923f82a4, 0xab1c5ed5,
   0xd807aa98, 0x12835b01, 0x243185be, 0x550c7dc3, 0x72be5d74, 0x80deb1fe, 0x9bdc06a7, 0xc19bf174,
   0xe49b69c1, 0xefbe4786, 0x0fc19dc6, 0x240ca1cc, 0x2de92c6f, 0x4a7484aa, 0x5cb0a9dc, 0x76f988da,
   0x983e5152, 0xa831c66d, 0xb00327c8, 0xbf597fc7, 0xc6e00bf3, 0xd5a79147, 0x06ca6351, 0x14292967,
   0x27b70a85, 0x2e1b2138, 0x4d2c6dfc, 0x53380d13, 0x650a7354, 0x766a0abb, 0x81c2c92e, 0x92722c85,
   0xa2bfe8a1, 0xa81a664b, 0xc24b8b70, 0xc76c51a3, 0xd192e819, 0xd6990624, 0xf40e3585, 0x106aa070,
   0x19a4c116, 0x1e376c08, 0x2748774c, 0x34b0bcb5, 0x391c0cb3, 0x4ed8aa4a, 0x5b9cca4f, 0x682e6ff3,
   0x748f82ee, 0x78a5636f, 0x84c87814, 0x8cc70208, 0x90befffa, 0xa4506ceb, 0xbef9a3f7, 0xc67178f2]

structure Digest where
  a : UInt32
  b : UInt32
  c : UInt32
  d : UInt32
  e : UInt32
  f : UInt32
  g : UInt32
  h : UInt32

def Digest.initial : Digest :=
  ⟨0x6a09e667, 0xbb67ae85, 0x3c6ef372, 0xa54ff53a, 0x510e527f, 0x9b05688c, 0x1f83d9ab, 0x5be0cd19⟩

def Digest.words (s : Digest) : List UInt32 := [s.a, s.b, s.c, s.d, s.e, s.f, s.g, s.h]

def rotr (x n : UInt32) : UInt32 := (x >>> n) ||| (x <<< (32 - n))

/-- a number in this many bytes, the most significant first -/
def bigEndian (n size : ℕ) : Bytes := (List.range size).reverse.map fun i => UInt8.ofNat (n >>> (8 * i))

/-- the message, a one bit, zeros, and the length of the message in bits -/
def pad (message : Bytes) : Bytes :=
  message ++ 0x80 :: List.replicate ((119 - message.length % 64) % 64) 0 ++ bigEndian (8 * message.length) 8

def word (bytes : Bytes) : UInt32 := UInt32.ofNat (bytes.foldl (fun n b => 256 * n + b.toNat) 0)

/-- one more word of the schedule, which is kept with its latest word first -/
def extend (ws : List UInt32) : List UInt32 :=
  match ws[15]?, ws[14]?, ws[6]?, ws[1]? with
  | some w₀, some w₁, some w₉, some w₁₄ =>
    let s₀ := rotr w₁ 7 ^^^ rotr w₁ 18 ^^^ (w₁ >>> 3)
    let s₁ := rotr w₁₄ 17 ^^^ rotr w₁₄ 19 ^^^ (w₁₄ >>> 10)
    (w₀ + s₀ + w₉ + s₁) :: ws
  | _, _, _, _ => ws

/-- the sixteen words of a block, extended to sixty-four -/
def schedule (block : Bytes) : List UInt32 := (extend^[48] ((block.toChunks 4).map word).reverse).reverse

def round (s : Digest) (kw : UInt32 × UInt32) : Digest :=
  let s₁ := rotr s.e 6 ^^^ rotr s.e 11 ^^^ rotr s.e 25
  let ch := (s.e &&& s.f) ^^^ (~~~s.e &&& s.g)
  let t₁ := s.h + s₁ + ch + kw.1 + kw.2
  let s₀ := rotr s.a 2 ^^^ rotr s.a 13 ^^^ rotr s.a 22
  let maj := (s.a &&& s.b) ^^^ (s.a &&& s.c) ^^^ (s.b &&& s.c)
  ⟨t₁ + (s₀ + maj), s.a, s.b, s.c, s.d + t₁, s.e, s.f, s.g⟩

def compress (s : Digest) (block : Bytes) : Digest :=
  let u := (constants.zip (schedule block)).foldl round s
  ⟨s.a + u.a, s.b + u.b, s.c + u.c, s.d + u.d, s.e + u.e, s.f + u.f, s.g + u.g, s.h + u.h⟩

def Digest.bytes (s : Digest) : Bytes := s.words.flatMap fun w => bigEndian w.toNat 4

theorem Digest.bytes_length (s : Digest) : s.bytes.length = 32 := by
  simp [Digest.bytes, Digest.words, bigEndian]

def sha256 (message : Bytes) : Vector UInt8 32 :=
  let digest := ((pad message).toChunks 64).foldl compress .initial
  ⟨digest.bytes.toArray, digest.bytes_length⟩

example : hex (sha256 (bytes "abc")).toList = "ba7816bf8f01cfea414140de5dae2223b00361a396177a9cb410ff61f20015ad" := by
  decide +kernel

end Core.Sha256
