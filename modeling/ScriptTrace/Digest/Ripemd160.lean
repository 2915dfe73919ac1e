import ScriptTrace.Bytes

/-!
The RIPEMD-160 digest on byte strings. Each block of 64 bytes runs through two lines of eighty
steps, whose word orders and rotations are the tables below; the two results are combined crosswise
into the five chaining words, whose little-endian bytes are the digest (`length_ripemd160`).
-/

set_option autoImplicit false

namespace ScriptTrace

namespace Ripemd160

/-- The five chaining words. -/
structure State where
  a : UInt32
  b : UInt32
  c : UInt32
  d : UInt32
  e : UInt32

def start : State := ⟨0x67452301, 0xefcdab89, 0x98badcfe, 0x10325476, 0xc3d2e1f0⟩

/-- Rotation of a word to the left. -/
def rotl (x n : UInt32) : UInt32 := (x <<< n) ||| (x >>> (32 - n))

/-- The nonlinear function of each group of sixteen steps. -/
def mix (group : Nat) (x y z : UInt32) : UInt32 :=
  match group with
  | 0 => x ^^^ y ^^^ z
  | 1 => (x &&& y) ||| ((x ^^^ 0xffffffff) &&& z)
  | 2 => (x ||| (y ^^^ 0xffffffff)) ^^^ z
  | 3 => (x &&& z) ||| (y &&& (z ^^^ 0xffffffff))
  | _ => x ^^^ (y ||| (z ^^^ 0xffffffff))

/-- What each group of sixteen steps of a line uses: its function, its constant, and for each step
the message word and the rotation. -/
structure Group where
  mixer : Nat
  constant : UInt32
  order : List Nat
  rotations : List UInt32

def leftLine : List Group :=
  [⟨0, 0x00000000, [0, 1, 2, 3, 4, 5, 6, 7, 8, 9, 10, 11, 12, 13, 14, 15],
      [11, 14, 15, 12, 5, 8, 7, 9, 11, 13, 14, 15, 6, 7, 9, 8]⟩,
   ⟨1, 0x5a827999, [7, 4, 13, 1, 10, 6, 15, 3, 12, 0, 9, 5, 2, 14, 11, 8],
      [7, 6, 8, 13, 11, 9, 7, 15, 7, 12, 15, 9, 11, 7, 13, 12]⟩,
   ⟨2, 0x6ed9eba1, [3, 10, 14, 4, 9, 15, 8, 1, 2, 7, 0, 6, 13, 11, 5, 12],
      [11, 13, 6, 7, 14, 9, 13, 15, 14, 8, 13, 6, 5, 12, 7, 5]⟩,
   ⟨3, 0x8f1bbcdc, [1, 9, 11, 10, 0, 8, 12, 4, 13, 3, 7, 15, 14, 5, 6, 2],
      [11, 12, 14, 15, 14, 15, 9, 8, 9, 14, 5, 6, 8, 6, 5, 12]⟩,
   ⟨4, 0xa953fd4e, [4, 0, 5, 9, 7, 12, 2, 10, 14, 1, 3, 8, 11, 6, 15, 13],
      [9, 15, 5, 11, 6, 8, 13, 12, 5, 12, 13, 14, 11, 8, 5, 6]⟩]

def rightLine : List Group :=
  [⟨4, 0x50a28be6, [5, 14, 7, 0, 9, 2, 11, 4, 13, 6, 15, 8, 1, 10, 3, 12],
      [8, 9, 9, 11, 13, 15, 15, 5, 7, 7, 8, 11, 14, 14, 12, 6]⟩,
   ⟨3, 0x5c4dd124, [6, 11, 3, 7, 0, 13, 5, 10, 14, 15, 8, 12, 4, 9, 1, 2],
      [9, 13, 15, 7, 12, 8, 9, 11, 7, 7, 12, 7, 6, 15, 13, 11]⟩,
   ⟨2, 0x6d703ef3, [15, 5, 1, 3, 7, 14, 6, 9, 11, 8, 12, 2, 10, 0, 4, 13],
      [9, 7, 15, 11, 8, 6, 6, 14, 12, 13, 5, 14, 13, 13, 7, 5]⟩,
   ⟨1, 0x7a6d76e9, [8, 6, 4, 1, 3, 11, 15, 0, 5, 12, 2, 13, 9, 7, 10, 14],
      [15, 5, 8, 11, 14, 14, 6, 14, 6, 9, 12, 9, 12, 5, 15, 8]⟩,
   ⟨0, 0x00000000, [12, 15, 10, 4, 1, 5, 8, 7, 6, 2, 13, 14, 0, 3, 9, 11],
      [8, 5, 12, 9, 12, 5, 14, 6, 8, 13, 6, 5, 15, 13, 11, 11]⟩]

/-- The little-endian words of a block. -/
def words : Bytes → List UInt32
  | a :: b :: c :: d :: rest => Bytes.toUInt32 [a, b, c, d] :: words rest
  | _ => []

/-- The steps of one group. -/
def steps (group : Group) (block : Array UInt32) (s : State) : State :=
  (group.order.zip group.rotations).foldl (fun s (index, rotation) =>
    let t := s.a + mix group.mixer s.b s.c s.d + block.getD index 0 + group.constant
    ⟨s.e, rotl t rotation + s.e, s.b, rotl s.c 10, s.d⟩) s

/-- The state after one block. -/
def compress (s : State) (block : Bytes) : State :=
  let ws := (words block).toArray
  let l := leftLine.foldl (fun s group => steps group ws s) s
  let r := rightLine.foldl (fun s group => steps group ws s) s
  ⟨s.b + l.c + r.d, s.c + l.d + r.e, s.d + l.e + r.a, s.e + l.a + r.b, s.a + l.b + r.c⟩

/-- The state after `count` blocks. -/
def absorb : Nat → State → Bytes → State
  | 0, s, _ => s
  | count + 1, s, bs => absorb count (compress s (bs.take 64)) (bs.drop 64)

/-- The message, a one bit, zeros, and the length in bits as eight little-endian bytes. -/
def pad (message : Bytes) : Bytes :=
  let zeros := (119 - message.length % 64) % 64
  message ++ 0x80 :: List.replicate zeros 0 ++ Bytes.ofNat 8 (8 * message.length)

end Ripemd160

open Ripemd160 in
/-- The 20-byte RIPEMD-160 digest. -/
def ripemd160 (message : Bytes) : Bytes :=
  let padded := pad message
  let s := absorb (padded.length / 64) start padded
  [s.a, s.b, s.c, s.d, s.e].flatMap Bytes.ofUInt32

theorem length_ripemd160 (message : Bytes) : (ripemd160 message).length = 20 := by
  simp [ripemd160, Bytes.ofUInt32]

end ScriptTrace
