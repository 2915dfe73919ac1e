import ScriptTrace.Codec.Decoder

/-!
Byte streams that deliver their bytes in pieces. A `Source` answers each read with a piece of
bounded size, may interrupt any read a number of times beforehand, and after its last byte either
ends or fails. `Source.gather` repeats reads until it has the bytes it was asked for, and
`Decoder.readFrom` answers the requests of a decoder with it.
-/

set_option autoImplicit false

namespace ScriptTrace

/-- How one read is answered: after so many interruptions, with at most `size + 1` bytes. -/
structure Delivery where
  interruptions : Nat
  size : Nat

/-- A stream of bytes. -/
structure Source where
  /-- The bytes not yet delivered. -/
  bytes : Bytes
  /-- How the reads are answered, by their number. -/
  plan : Nat → Delivery
  /-- The number of reads answered with bytes so far. -/
  turn : Nat
  /-- The interruptions that the current read has suffered. -/
  suffered : Nat
  /-- The failure of reads after the last byte; without one they find the end. -/
  failure : Option IoError

/-- What a read is answered with. -/
inductive Reply where
  /-- Bytes, none at the end of the stream. -/
  | piece (bs : Bytes)
  | interrupted
  | failed (error : IoError)

namespace Source

/-- A stream of bytes in memory, which delivers all it is asked for. -/
def ofBytes (bs : Bytes) : Source :=
  let size := bs.length
  { bytes := bs, plan := fun _ => ⟨0, size⟩, turn := 0, suffered := 0, failure := none }

/-- One read of at most `want` bytes. -/
def read (want : Nat) (s : Source) : Reply × Source :=
  let delivery := s.plan s.turn
  if s.suffered < delivery.interruptions then
    (.interrupted, { s with suffered := s.suffered + 1 })
  else
    let answered := { s with turn := s.turn + 1, suffered := 0 }
    match s.bytes, s.failure with
    | [], some e => (.failed e, answered)
    | [], none => (.piece [], answered)
    | bs, _ =>
      let size := min want (delivery.size + 1)
      (.piece (bs.take size), { answered with bytes := bs.drop size })

/-- Reads of at most `want` bytes, at most `tries` of them, until one is not interrupted. -/
def persist (want : Nat) : Nat → Source → Except IoError Bytes × Source
  | 0, s => (.ok [], s)
  | tries + 1, s =>
    match s.read want with
    | (.piece bs, s) => (.ok bs, s)
    | (.failed e, s) => (.error e, s)
    | (.interrupted, s) => persist want tries s

/-- One read of at most `want` bytes, however often it is interrupted. -/
def next (want : Nat) (s : Source) : Except IoError Bytes × Source :=
  s.persist want ((s.plan s.turn).interruptions - s.suffered + 1)

/-- `want` bytes behind those in `seen`, by at most `rounds` reads. -/
def gather : Nat → Nat → Bytes → Source → Except CodecError Bytes × Source
  | 0, _, seen, s => (.ok seen, s)
  | rounds + 1, want, seen, s =>
    if want = 0 then (.ok seen, s)
    else
      match s.next want with
      | (.error e, s) => (.error (.ofRead e), s)
      | (.ok [], s) => (.error .truncated, s)
      | (.ok piece, s) => gather rounds (want - piece.length) (seen ++ piece) s

end Source

/-- Answer the requests of a decoder from a stream. -/
def Decoder.readFrom {α : Type} : Decoder α → Source → EStateM.Result CodecError Source α
  | done a, s => .ok a s
  | refuse reason, s => .error (.malformed reason) s
  | take count next, s =>
    match s.gather count count [] with
    | (.error e, s) => .error e s
    | (.ok bs, s) =>
      if h : bs.length = count then (next ⟨bs, h⟩).readFrom s else .error .truncated s

/-- The next record of a stream. -/
def Record.readFrom (s : Source) : EStateM.Result CodecError Source Record :=
  Decoder.record.readFrom s

end ScriptTrace
