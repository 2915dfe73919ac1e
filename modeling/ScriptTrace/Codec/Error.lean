import ScriptTrace.Bytes.Hex
import ScriptTrace.IoError
import ScriptTrace.Text.Utf8

/-!
Why a record cannot be encoded or decoded. `Malformed` lists the ways in which bytes fail to be a
record, `CodecError` adds the end of the stream and failures of the stream itself.
-/

set_option autoImplicit false

namespace ScriptTrace

/-- The most levels of nesting an encoded item may have. -/
def maxItemDepth : Nat := 512

/-- Why bytes do not describe a record, or a record has no bytes. -/
inductive Malformed where
  /-- The outer container does not hold two elements. -/
  | container (elements : UInt32)
  | discriminator (code : Int32)
  /-- The payload does not hold the fields of its kind. -/
  | payload (fields expected : UInt32)
  | frame (fields expected : UInt32)
  | state (code : UInt8)
  | boolean (byte : UInt8)
  | text (fault : Utf8.Fault)
  | itemTag (tag : UInt8)
  | tooDeep
  /-- A length is beyond 32 bits. -/
  | tooLong (length : Nat)
  /-- Bytes are left over after the record. -/
  | trailing (count : Nat)
deriving DecidableEq, Repr

def Malformed.message : Malformed → String
  | container n => s!"record container holds {n} elements, expected 2"
  | discriminator code => s!"unknown record discriminator {code}"
  | payload n expected => s!"record payload holds {n} fields, expected {expected}"
  | frame n expected => s!"stack frame holds {n} fields, expected {expected}"
  | state code => s!"invalid vm state {code}"
  | boolean byte => s!"invalid boolean byte {byte}"
  | text fault => "invalid utf-8 text: " ++ fault.message
  | itemTag tag => "unknown stack item type 0x" ++ Bytes.hex [tag]
  | tooDeep => s!"stack item nesting exceeds {maxItemDepth}"
  | tooLong length => s!"length {length} does not fit in u32"
  | trailing count => s!"{count} trailing bytes after record"

/-- Why encoding or decoding a record failed. -/
inductive CodecError where
  /-- The bytes do not describe a record, or the record has no bytes. -/
  | malformed (reason : Malformed)
  /-- The stream ended in the middle of a record. -/
  | truncated
  /-- The stream failed. -/
  | io (error : IoError)
deriving DecidableEq, Repr

namespace CodecError

def message : CodecError → String
  | malformed reason => "malformed trace record: " ++ reason.message
  | truncated => "trace stream ended before the record was complete"
  | io error => "trace stream i/o error: " ++ error.message

/-- A stream that reports its own early end counts as ended. -/
def ofRead (e : IoError) : CodecError :=
  if e.kind = .unexpectedEof then truncated else io e

end CodecError

end ScriptTrace
