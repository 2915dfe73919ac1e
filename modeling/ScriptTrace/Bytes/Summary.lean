import ScriptTrace.Bytes.Hex

/-!
Short texts for long byte strings: the length, a 64-bit digest, and the first and last sixteen
bytes.
-/

set_option autoImplicit false

namespace ScriptTrace

namespace Bytes

/-- The 64-bit digest that takes each byte in by exclusive or and multiplies by a fixed prime. -/
def fnv (bs : Bytes) : UInt64 :=
  bs.foldl (fun h b => (h ^^^ b.toUInt64) * 0x100000001b3) 0xcbf29ce484222325

/-- The digits of at most `limit` bytes, else a summary. -/
def summary (limit : Nat) (bs : Bytes) : String :=
  let count := bs.length
  if count ≤ limit then hex bs
  else "#" ++ toString count ++ ":" ++ hex (ofNat 8 (fnv bs).toNat).reverse ++ ":" ++
    hex (bs.take 16) ++ ":" ++ hex (bs.drop (count - 16))

end Bytes

end ScriptTrace
