import ScriptTrace.Bytes.Hex
import ScriptTrace.Digest.Sha256
import ScriptTrace.Digest.Ripemd160

/-!
The 160-bit hash that identifies a script or a deployed contract. Its twenty bytes are stored least
significant first; the text form is `0x` and the hexadecimal digits of the bytes in reverse, and
reading takes the digits of either case with at most one leading `0x`. Hashes are ordered by their
stored bytes.
-/

set_option autoImplicit false

namespace ScriptTrace

/-- Twenty bytes identifying a script or a deployed contract. -/
structure Hash where
  bytes : Bytes
  length_bytes : bytes.length = 20
deriving DecidableEq

namespace Hash

/-- The all-zero hash, which no script has in practice. -/
def zero : Hash := ⟨List.replicate 20 0, rfl⟩

instance : Inhabited Hash := ⟨zero⟩

/-- The hash with these stored bytes, if they are twenty. -/
def ofBytes? (bs : Bytes) : Option Hash :=
  if h : bs.length = 20 then some ⟨bs, h⟩ else none

/-- Whether every byte is zero. -/
def isZero (h : Hash) : Bool := h == zero

/-- The identity of a script: the RIPEMD-160 digest of the SHA-256 digest of its bytes. -/
def ofScript (code : Bytes) : Hash := ⟨ripemd160 (sha256 code), length_ripemd160 _⟩

/-- The text form: `0x` and the digits of the bytes in reverse. -/
def display (h : Hash) : String := "0x" ++ Bytes.hex h.bytes.reverse

/-- The text without one leading `0x`, as UTF-8 bytes. -/
def digitsOf (text : String) : Bytes :=
  match Bytes.ofString text with
  | 0x30 :: 0x78 :: rest => rest
  | bs => bs

/-- The hash a text names. -/
def parse (text : String) : Except HexError Hash :=
  match Bytes.ofHex 20 (digitsOf text) with
  | .error e => .error e
  | .ok bs => if h : bs.reverse.length = 20 then .ok ⟨bs.reverse, h⟩ else .error .wrongLength

/-- The order of stored bytes, first byte first. -/
def le (a b : Hash) : Bool := decide (a.bytes ≤ b.bytes)

end Hash

end ScriptTrace
