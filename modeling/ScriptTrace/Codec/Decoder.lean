import ScriptTrace.Bytes.Signed
import ScriptTrace.Codec.Error
import ScriptTrace.Codec.Encoder
import ScriptTrace.Record

/-!
Decoding as a program of requests. A `Decoder` either is done, refuses what it has seen, or asks for
an exact number of further bytes; what it asks for next depends on the bytes it got, never on how
they were delivered. `Decoder.run` answers the requests from a byte string: a request for more bytes
than are left takes them all and ends in `CodecError.truncated`.
-/

set_option autoImplicit false

namespace ScriptTrace

/-- A program that asks for bytes until it has a value or refuses them. -/
inductive Decoder (α : Type) where
  | done (value : α)
  | refuse (reason : Malformed)
  | take (count : Nat) (next : { bs : Bytes // bs.length = count } → Decoder α)

namespace Decoder

variable {α β : Type}

/-- Go on with the value of the first program. -/
def bind : Decoder α → (α → Decoder β) → Decoder β
  | done a, f => f a
  | refuse reason, _ => refuse reason
  | take count next, f => take count fun bs => (next bs).bind f

instance : Monad Decoder where
  pure := done
  bind := bind

/-- The first `count` bytes and the rest, if there are so many. -/
def split (count : Nat) (bs : Bytes) : Option ({ head : Bytes // head.length = count } × Bytes) :=
  let head := bs.take count
  if h : head.length = count then some (⟨head, h⟩, bs.drop count) else none

/-- Answer the requests of a program from a byte string, leaving the bytes after the last one. -/
def run : Decoder α → Bytes → EStateM.Result CodecError Bytes α
  | done a, bs => .ok a bs
  | refuse reason, bs => .error (.malformed reason) bs
  | take count next, bs =>
    match split count bs with
    | some (head, rest) => (next head).run rest
    | none => .error .truncated []

/-- The values of `count` runs of a program, behind those in `seen`, which is reversed. -/
def timesOnto (d : Decoder α) : Nat → List α → Decoder (List α)
  | 0, seen => done seen.reverse
  | count + 1, seen => d.bind fun a => timesOnto d count (a :: seen)

/-- The values of `count` runs of a program. -/
def times (count : Nat) (d : Decoder α) : Decoder (List α) := timesOnto d count []

def byte : Decoder UInt8 := take 1 fun bs => done (bs.val.headD 0)

def uint32 : Decoder UInt32 := take 4 fun bs => done (Bytes.toUInt32 bs.val)

def int32 : Decoder Int32 := take 4 fun bs => done (Bytes.toInt32 bs.val)

def int64 : Decoder Int64 := take 8 fun bs => done (Bytes.toInt64 bs.val)

def hash : Decoder Hash := take 20 fun bs => done ⟨bs.val, bs.property⟩

/-- A length and that many bytes. -/
def blob : Decoder Bytes := do
  let length ← uint32
  take length.toNat fun bs => done bs.val

/-- A length and that many bytes of UTF-8. -/
def text : Decoder String := do
  let bs ← blob
  match Bytes.toString? bs with
  | some s => pure s
  | none => refuse (.text (Utf8.fault bs))

/-- A length and that many values. -/
def list (d : Decoder α) : Decoder (List α) := do
  let length ← uint32
  times length.toNat d

def state : Decoder VmState := do
  let code ← byte
  match VmState.ofCode? code with
  | some s => pure s
  | none => refuse (.state code)

def boolean : Decoder Bool := do
  let b ← byte
  if b = 0 then pure false
  else if b = 1 then pure true
  else refuse (.boolean b)

/-- An item of at most `room` levels. -/
def item : Nat → Decoder Item
  | 0 => refuse .tooDeep
  | room + 1 => do
    let tag ← byte
    match tag with
    | 0x00 => pure .null
    | 0x10 => return .pointer (← uint32)
    | 0x20 => return .boolean (← boolean)
    | 0x21 => return .integer (Bytes.toInt (← blob))
    | 0x28 => return .byteString (← blob)
    | 0x30 => return .buffer (← blob)
    | 0x40 => return .array (← list (item room))
    | 0x41 => return .struct (← list (item room))
    | 0x48 => return .map (← list do return (← item room, ← item room))
    | 0x60 => return .interop (← text)
    | tag => refuse (.itemTag tag)

/-- A list of items of at most `maxItemDepth` levels each. -/
def stack : Decoder (List Item) := list (item maxItemDepth)

def frame : Decoder FrameRecord := do
  let count ← uint32
  if count ≠ Encoder.frameFields then refuse (.frame count Encoder.frameFields)
  else return {
    scriptHash := ← hash
    instructionPointer := ← uint32
    hasCatch := ← boolean
    evaluationStack := ← stack
    localVariables := ← stack
    staticFields := ← stack
    arguments := ← stack }

def entry : Decoder StorageEntry := return { key := ← blob, value := ← blob }

/-- The fields of a record of this kind. -/
def fields : RecordKind → Decoder Record
  | .trace => return .trace (← state) (← list frame)
  | .notify => return .notify (← hash) (← text) (← stack)
  | .log => return .log (← hash) (← text)
  | .results => return .results (← state) (← int64) (← stack)
  | .fault => return .fault (← text)
  | .script => return .script (← hash) (← blob)
  | .storage => return .storage (← hash) (← list entry)
  | .settings => return .settings (← uint32) (← byte)

/-- One record. -/
def record : Decoder Record := do
  let elements ← uint32
  if elements ≠ 2 then refuse (.container elements)
  else
    let code ← int32
    match RecordKind.ofDiscriminator? code with
    | none => refuse (.discriminator code)
    | some kind =>
      let count ← uint32
      if count ≠ kind.fieldCount then refuse (.payload count kind.fieldCount)
      else fields kind

end Decoder

/-- The record at the start of a byte string, leaving the bytes after it. -/
def Record.decodeFrom (bs : Bytes) : EStateM.Result CodecError Bytes Record :=
  Decoder.record.run bs

/-- The record a whole byte string encodes. -/
def Record.decode (bs : Bytes) : Except CodecError Record :=
  match Record.decodeFrom bs with
  | .ok r [] => .ok r
  | .ok _ rest => .error (.malformed (.trailing rest.length))
  | .error e _ => .error e

end ScriptTrace
