import ScriptTrace.Bytes

/-!
The SHA-256 digest of FIPS 180-4 on byte strings. A message is padded to whole blocks of 64 bytes,
each block is expanded to a schedule of 64 words, and the blocks are folded into a state of eight
words whose big-endian bytes are the digest (`length_sha256`).
-/

set_option autoImplicit false

namespace ScriptTrace

namespace Sha256

/-- The eight chaining words. -/
structure State where
  a : UInt32
  b : UInt32
  c : UInt32
  d : UInt32
  e : UInt32
  f : UInt32
  g : UInt32
  h : UInt32

/-- The round constants: fractional parts of the cube roots of the first 64 primes. -/
def roundConstants : List UInt32 :=
  [0x428a2f98, 0x71374491, 0xb5c0fbcf, 0xe9b5dba5, 0x3956c25b, 0x59f111f1, 0x923f82a4, 0xab1c5ed5,
   0xd807aa98, 0x12835b01, 0x243185be, 0x550c7dc3, 0x72be5d74, 0x80deb1fe, 0x9bdc06a7, 0xc19bf174,
   0xe49b69c1, 0xefbe4786, 0x0fc19dc6, 0x240ca1cc, 0x2de92c6f, 0x4a7484aa, 0x5cb0a9dc, 0x76f988da,
   0x983e5152, 0xa831c66d, 0xb00327c8, 0xbf597fc7, 0xc6e00bf3, 0xd5a79147, 0x06ca6351, 0x14292967,
   0x27b70a85, 0x2e1b2138, 0x4d2c6dfc, 0x53380d13, 0x650a7354, 0x766a0abb, 0x81c2c92e, 0x92722c85,
   0xa2bfe8a1, 0xa81a664b, 0xc24b8b70, 0xc76c51a3, 0xd192e819, 0xd6990624, 0xf40e3585, 0x106aa070,
   0x19a4c116, 0x1e376c08, 0x2748774c, 0x34b0bcb5, 0x391c0cb3, 0x4ed8aa4a, 0x5b9cca4f, 0x682e6ff3,
   0x748f82ee, 0x78a5636f, 0x84c87814, 0x8cc70208, 0x90befffa, 0xa4506ceb, 0xbef9a3f7, 0xc67178f2]

/-- The starting state: fractional parts of the square roots of the first eight primes. -/
def start : State :=
  ⟨0x6a09e667, 0xbb67ae85, 0x3c6ef372, 0xa54ff53a, 0x510e527f, 0x9b05688c, 0x1f83d9ab, 0x5be0cd19⟩

/-- Rotation of a word to the right. -/
def rotr (x n : UInt32) : UInt32 := (x >>> n) ||| (x <<< (32 - n))

/-- The big-endian bytes of a word. -/
def wordBytes (w : UInt32) : Bytes := (Bytes.ofUInt32 w).reverse

/-- The big-endian words of a block. -/
def words : Bytes → List UInt32
  | a :: b :: c :: d :: rest => Bytes.toUInt32 [d, c, b, a] :: words rest
  | _ => []

/-- The schedule extended by `count` words, from its last sixteen words held newest first. -/
def extend : Nat → List UInt32 → List UInt32
  | 0, _ => []
  | count + 1, window =>
    let w2 := window.getD 1 0
    let w7 := window.getD 6 0
    let w15 := window.getD 14 0
    let w16 := window.getD 15 0
    let s0 := rotr w15 7 ^^^ rotr w15 18 ^^^ (w15 >>> 3)
    let s1 := rotr w2 17 ^^^ rotr w2 19 ^^^ (w2 >>> 10)
    let w := w16 + s0 + w7 + s1
    w :: extend count (w :: window.take 15)

/-- The 64 schedule words of a block. -/
def schedule (block : Bytes) : List UInt32 :=
  let first := words block
  first ++ extend 48 first.reverse

/-- One round with its constant and schedule word. -/
def round (s : State) (k w : UInt32) : State :=
  let s1 := rotr s.e 6 ^^^ rotr s.e 11 ^^^ rotr s.e 25
  let choice := (s.e &&& s.f) ^^^ ((s.e ^^^ 0xffffffff) &&& s.g)
  let t1 := s.h + s1 + choice + k + w
  let s0 := rotr s.a 2 ^^^ rotr s.a 13 ^^^ rotr s.a 22
  let majority := (s.a &&& s.b) ^^^ (s.a &&& s.c) ^^^ (s.b &&& s.c)
  ⟨t1 + (s0 + majority), s.a, s.b, s.c, s.d + t1, s.e, s.f, s.g⟩

/-- The rounds of a block, one constant and one schedule word each. -/
def rounds (s : State) : List UInt32 → List UInt32 → State
  | k :: ks, w :: ws => rounds (round s k w) ks ws
  | _, _ => s

/-- The state after one block. -/
def compress (s : State) (block : Bytes) : State :=
  let t := rounds s roundConstants (schedule block)
  ⟨s.a + t.a, s.b + t.b, s.c + t.c, s.d + t.d, s.e + t.e, s.f + t.f, s.g + t.g, s.h + t.h⟩

/-- The state after `count` blocks. -/
def absorb : Nat → State → Bytes → State
  | 0, s, _ => s
  | count + 1, s, bs => absorb count (compress s (bs.take 64)) (bs.drop 64)

/-- The message, a one bit, zeros, and the length in bits as eight big-endian bytes. -/
def pad (message : Bytes) : Bytes :=
  let zeros := (119 - message.length % 64) % 64
  message ++ 0x80 :: List.replicate zeros 0 ++ (Bytes.ofNat 8 (8 * message.length)).reverse

end Sha256

open Sha256 in
/-- The 32-byte SHA-256 digest. -/
def sha256 (message : Bytes) : Bytes :=
  let padded := pad message
  let s := absorb (padded.length / 64) start padded
  [s.a, s.b, s.c, s.d, s.e, s.f, s.g, s.h].flatMap wordBytes

theorem length_sha256 (message : Bytes) : (sha256 message).length = 32 := by
  simp [sha256, Sha256.wordBytes, Bytes.ofUInt32]

end ScriptTrace
