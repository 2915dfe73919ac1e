import ScriptTrace.Codec.Source

/-!
Reading the records of a stream one after the other. A stream that ends between two records ends
cleanly; an error is reported once, and after either the reader has nothing more to give.
-/

set_option autoImplicit false

namespace ScriptTrace

/-- A reader of consecutive records. -/
structure RecordReader where
  source : Source
  finished : Bool

namespace RecordReader

/-- A reader at the start of a stream. -/
def ofSource (s : Source) : RecordReader := ⟨s, false⟩

/-- A reader of records in memory. -/
def ofBytes (bs : Bytes) : RecordReader := ofSource (Source.ofBytes bs)

/-- The next record or error, or nothing at the end. The byte that tells a record from the end is
put back in front of the stream. -/
def next (r : RecordReader) : Option (Except CodecError Record) × RecordReader :=
  if r.finished then (none, r)
  else
    match r.source.next 1 with
    | (.error e, s) => (some (.error (.ofRead e)), ⟨s, true⟩)
    | (.ok [], s) => (none, ⟨s, true⟩)
    | (.ok (first :: _), s) =>
      match Record.readFrom { s with bytes := first :: s.bytes } with
      | .ok record s => (some (.ok record), ⟨s, false⟩)
      | .error e s => (some (.error e), ⟨s, true⟩)

/-- The records of a reader up to its end, at most `count`, or its first error. -/
def collect : Nat → RecordReader → Except CodecError (List Record)
  | 0, _ => .ok []
  | count + 1, r =>
    match r.next with
    | (none, _) => .ok []
    | (some (.error e), _) => .error e
    | (some (.ok record), r) => do return record :: (← collect count r)

/-- The answers of at most `count` calls, up to the one after which `ends` calls found nothing. -/
def replies : (count ends : Nat) → RecordReader →
    List (Option (Except CodecError Record)) × RecordReader
  | 0, _, r => ([], r)
  | _, 0, r => ([], r)
  | count + 1, ends + 1, r =>
    let (reply, r) := r.next
    let (rest, r) := replies count (if reply.isNone then ends else ends + 1) r
    (reply :: rest, r)

end RecordReader

/-- Every record of a complete trace in memory, or the first error. -/
def Record.readAll (bs : Bytes) : Except CodecError (List Record) :=
  (RecordReader.ofBytes bs).collect (bs.length + 1)

end ScriptTrace
