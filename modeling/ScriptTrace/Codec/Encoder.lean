import ScriptTrace.Bytes.Signed
import ScriptTrace.Codec.Error
import ScriptTrace.Record

/-!
The bytes of a record: the number 2, the discriminator, the number of fields, and the fields. Byte
strings, texts and lists are preceded by their length; all numbers are little-endian and lengths
have 32 bits. A record has no bytes when one of its items has more than `maxItemDepth` levels or a
length does not fit.
-/

set_option autoImplicit false

namespace ScriptTrace

namespace Encoder

/-- A length in front of a byte string or list. -/
def length (n : Nat) : Except Malformed Bytes :=
  if n < UInt32.size then .ok (Bytes.ofNat 4 n) else .error (.tooLong n)

/-- A byte string after its length. -/
def blob (bs : Bytes) : Except Malformed Bytes := do
  return (← length bs.length) ++ bs

/-- A text after the length of its UTF-8 bytes. -/
def text (s : String) : Except Malformed Bytes := blob (Bytes.ofString s)

def boolean (b : Bool) : UInt8 := if b then 1 else 0

mutual

/-- An item of at most `room` levels: its tag and its content. -/
def item (room : Nat) (x : Item) : Except Malformed Bytes :=
  match room, x with
  | 0, _ => .error .tooDeep
  | _ + 1, .null => .ok [0x00]
  | _ + 1, .pointer position => .ok (0x10 :: Bytes.ofUInt32 position)
  | _ + 1, .boolean value => .ok [0x20, boolean value]
  | _ + 1, .integer value => do return 0x21 :: (← blob (Bytes.ofInt value))
  | _ + 1, .byteString bs => do return 0x28 :: (← blob bs)
  | _ + 1, .buffer bs => do return 0x30 :: (← blob bs)
  | room + 1, .array xs => do return 0x40 :: (← length xs.length) ++ (← items room xs)
  | room + 1, .struct xs => do return 0x41 :: (← length xs.length) ++ (← items room xs)
  | room + 1, .map xs => do return 0x48 :: (← length xs.length) ++ (← entries room xs)
  | _ + 1, .interop typeName => do return 0x60 :: (← text typeName)

/-- Items of at most `room` levels, one after the other. -/
def items (room : Nat) (xs : List Item) : Except Malformed Bytes :=
  match xs with
  | [] => .ok []
  | x :: rest => do return (← item room x) ++ (← items room rest)

/-- The keys and values of a map, of at most `room` levels each. -/
def entries (room : Nat) (xs : List (Item × Item)) : Except Malformed Bytes :=
  match xs with
  | [] => .ok []
  | (key, value) :: rest => do
    return (← item room key) ++ (← item room value) ++ (← entries room rest)

end

/-- A list of items after its length, each of at most `maxItemDepth` levels. -/
def stack (xs : List Item) : Except Malformed Bytes := do
  return (← length xs.length) ++ (← items maxItemDepth xs)

/-- Concatenated encodings of the elements of a list. -/
def concat {α : Type} (f : α → Except Malformed Bytes) : List α → Except Malformed Bytes
  | [] => .ok []
  | x :: rest => do return (← f x) ++ (← concat f rest)

/-- The encodings of the elements of a list after its length. -/
def list {α : Type} (f : α → Except Malformed Bytes) (xs : List α) : Except Malformed Bytes := do
  return (← length xs.length) ++ (← concat f xs)

/-- The number of fields of a stack frame. -/
def frameFields : UInt32 := 7

def frame (f : FrameRecord) : Except Malformed Bytes := do
  return Bytes.ofUInt32 frameFields ++ f.scriptHash.bytes ++ Bytes.ofUInt32 f.instructionPointer ++
    [boolean f.hasCatch] ++ (← stack f.evaluationStack) ++ (← stack f.localVariables) ++
    (← stack f.staticFields) ++ (← stack f.arguments)

def entry (e : StorageEntry) : Except Malformed Bytes := do
  return (← blob e.key) ++ (← blob e.value)

/-- The fields of a record. -/
def fields : Record → Except Malformed Bytes
  | .trace state frames => do return state.code :: (← list frame frames)
  | .notify hash eventName state => do return hash.bytes ++ (← text eventName) ++ (← stack state)
  | .log hash message => do return hash.bytes ++ (← text message)
  | .results state gas results => do return state.code :: Bytes.ofInt64 gas ++ (← stack results)
  | .fault exception => text exception
  | .script hash code => do return hash.bytes ++ (← blob code)
  | .storage hash es => do return hash.bytes ++ (← list entry es)
  | .settings network addressVersion => .ok (Bytes.ofUInt32 network ++ [addressVersion])

/-- What stands in front of the fields of a record of this kind. -/
def header (k : RecordKind) : Bytes :=
  Bytes.ofUInt32 2 ++ Bytes.ofInt32 k.discriminator ++ Bytes.ofUInt32 k.fieldCount

end Encoder

/-- The bytes of a record. -/
def Record.encode (r : Record) : Except CodecError Bytes :=
  match Encoder.fields r with
  | .ok bs => .ok (Encoder.header r.kind ++ bs)
  | .error reason => .error (.malformed reason)

end ScriptTrace
