import Mathlib.Computability.Language
import ScriptTrace.Codec.Encoder
import ScriptTrace.Proofs.Bytes.Fixed
import ScriptTrace.Proofs.Bytes.Signed

/-!
The format of encoded records, as languages. A `Token` is one byte of an encoding, except that the
payload of an integer is one token together with the length in front of it: nothing else in an
encoding may vary while its record stays the same. `Format.record r` holds every spelling of `r`,
and every definition below it says in what order the parts of a value are spelled. The tags, codes
and numbers are those of the domain; how bytes are produced or consumed is not said here.
-/

set_option autoImplicit false
set_option relaxedAutoImplicit false

namespace ScriptTrace

/-- A unit of an encoded record. -/
inductive Token where
  | byte (value : UInt8)
  /-- The payload of an integer, with its length in front. -/
  | integer (payload : Bytes) (length_lt : payload.length < 2 ^ 32)
deriving DecidableEq

namespace Token

/-- The bytes of a token. -/
def bytes : Token → Bytes
  | byte value => [value]
  | integer payload _ => Bytes.ofNat 4 payload.length ++ payload

/-- The token with the payload of an integer in its shortest form. -/
def shorten : Token → Token
  | byte value => byte value
  | integer payload length_lt =>
    integer (Bytes.ofInt (Bytes.toInt payload)) (by
      have hle := Bytes.length_ofInt_toInt_le payload
      omega)

/-- Whether the payload of an integer is in its shortest form. -/
def IsShortest : Token → Prop
  | byte _ => True
  | integer payload _ => Bytes.IsShortest payload

/-- One token is another with the payload of an integer in the shortest form of its value. -/
inductive ShortensTo : Token → Token → Prop
  | byte (value : UInt8) : ShortensTo (byte value) (byte value)
  | integer {payload short : Bytes} (payload_lt : payload.length < 2 ^ 32)
    (short_lt : short.length < 2 ^ 32) (value_eq : Bytes.toInt short = Bytes.toInt payload)
    (isShortest : Bytes.IsShortest short) :
    ShortensTo (integer payload payload_lt) (integer short short_lt)

theorem shortensTo_shorten (t : Token) : t.ShortensTo t.shorten := by
  cases t with
  | byte value => exact .byte value
  | integer payload length_lt =>
    exact .integer length_lt _ (Bytes.toInt_ofInt _) (Bytes.isShortest_ofInt _)

/-- A zero in its shortest form is one zero byte. -/
theorem ShortensTo.eq_of_toInt_eq_zero {t : Token} {payload : Bytes}
    {length_lt : payload.length < 2 ^ 32} (h : t.ShortensTo (.integer payload length_lt))
    (hzero : Bytes.toInt payload = 0) : payload = [0] := by
  cases h with
  | integer _ _ _ isShortest => exact Bytes.eq_of_isShortest_of_toInt_eq_zero isShortest hzero

theorem forall₂_shortensTo (ts : List Token) : List.Forall₂ ShortensTo ts (ts.map shorten) := by
  rw [List.forall₂_map_right_iff]
  exact List.forall₂_same.mpr fun t _ ↦ shortensTo_shorten t

theorem shorten_eq_iff (t : Token) : t.shorten = t ↔ t.IsShortest := by
  cases t with
  | byte value => simp [shorten, IsShortest]
  | integer payload length_lt => simp [shorten, IsShortest, Bytes.ofInt_toInt_eq_iff]

theorem map_shorten_eq_iff (ts : List Token) :
    ts.map shorten = ts ↔ ∀ t ∈ ts, t.IsShortest := by
  have hself := List.map_inj_left (l := ts) (f := shorten) (g := id)
  rw [List.map_id] at hself
  simpa only [id, shorten_eq_iff] using hself

/-- Bytes that spell no integer. -/
def plain (bs : Bytes) : List Token := bs.map byte

/-- The bytes of a text of tokens. -/
def spell (ts : List Token) : Bytes := ts.flatMap bytes

@[simp] theorem map_shorten_plain (bs : Bytes) : (plain bs).map shorten = plain bs := by
  simp [plain, shorten]

@[simp] theorem spell_nil : spell [] = [] := rfl

@[simp] theorem spell_append (ts us : List Token) : spell (ts ++ us) = spell ts ++ spell us :=
  List.flatMap_append

@[simp] theorem spell_plain (bs : Bytes) : spell (plain bs) = bs := by
  induction bs with
  | nil => rfl
  | cons b bs ih => exact congrArg (b :: ·) ih

@[simp] theorem spell_integer (payload : Bytes) (length_lt : payload.length < 2 ^ 32) :
    spell [integer payload length_lt] = Bytes.ofNat 4 payload.length ++ payload :=
  List.append_nil _

/-- Two texts of tokens that shorten to the same text have different bytes unless they are the same:
at the first token that differs, payloads of one length stand for one value. -/
theorem eq_of_spell_eq {ts us : List Token} (hshort : ts.map shorten = us.map shorten)
    (h : spell ts = spell us) : ts = us := by
  induction ts generalizing us with
  | nil =>
    rw [List.map_nil, eq_comm, List.map_eq_nil_iff] at hshort
    exact hshort.symm
  | cons t ts ih =>
    cases us with
    | nil => simp at hshort
    | cons u us =>
      rw [List.map_cons, List.map_cons, List.cons.injEq] at hshort
      obtain ⟨hhead, htail⟩ := hshort
      rw [spell, spell, List.flatMap_cons, List.flatMap_cons] at h
      cases t with
      | byte value =>
        cases u with
        | byte value' =>
          obtain rfl : value = value' := byte.inj hhead
          rw [ih htail (List.append_cancel_left h)]
        | integer payload' length_lt' => exact Token.noConfusion hhead
      | integer payload length_lt =>
        cases u with
        | byte value' => exact Token.noConfusion hhead
        | integer payload' length_lt' =>
          simp only [bytes, List.append_assoc] at h
          obtain ⟨hlength, hrest⟩ := List.append_inj h (by simp)
          have hwidth := Bytes.ofNat_inj length_lt length_lt' hlength
          have hpayload : payload = payload' := (List.append_inj hrest hwidth).1
          subst hpayload
          rw [ih htail (List.append_cancel_left hrest)]

end Token

open Token

namespace Format

/-- A length has 32 bits. -/
def length (n : Nat) : Language Token := {ts | n < 2 ^ 32 ∧ ts = plain (Bytes.ofNat 4 n)}

/-- A byte string after its length. -/
def blob (bs : Bytes) : Language Token := length bs.length * {plain bs}

/-- A text after the length of its UTF-8 bytes. -/
def text (s : String) : Language Token := blob (Bytes.ofString s)

/-- An integer in any of its forms. -/
def integer (i : Int) : Language Token :=
  {ts | ∃ payload length_lt, Bytes.toInt payload = i ∧ ts = [.integer payload length_lt]}

/-- A truth value is one byte, zero or one. -/
def boolean (b : Bool) : Language Token := {plain [if b then 1 else 0]}

/-- The elements of a list after their number. -/
def list {α : Type} (element : α → Language Token) (xs : List α) : Language Token :=
  length xs.length * (xs.map element).prod

/-- What follows the tag of an item whose parts are spelled by `inner`. -/
def content (inner : Item → Language Token) : Item → Language Token
  | .null => 1
  | .pointer position => {plain (Bytes.ofUInt32 position)}
  | .boolean value => boolean value
  | .integer value => integer value
  | .byteString bs => blob bs
  | .buffer bs => blob bs
  | .array items => list inner items
  | .struct items => list inner items
  | .map entries => list (fun e ↦ inner e.1 * inner e.2) entries
  | .interop typeName => text typeName

/-- An item of at most so many levels. -/
def item : Nat → Item → Language Token
  | 0, _ => 0
  | room + 1, x => {plain [x.tag]} * content (item room) x

/-- A list of items of at most `maxItemDepth` levels each. -/
def stack (items : List Item) : Language Token := list (item maxItemDepth) items

/-- A stack frame is announced by the number of its fields. -/
def frame (f : FrameRecord) : Language Token :=
  {plain (Bytes.ofUInt32 7)} * {plain f.scriptHash.bytes} *
    {plain (Bytes.ofUInt32 f.instructionPointer)} * boolean f.hasCatch *
    stack f.evaluationStack * stack f.localVariables * stack f.staticFields * stack f.arguments

def entry (e : StorageEntry) : Language Token := blob e.key * blob e.value

/-- The fields of a record. -/
def fields : Record → Language Token
  | .trace state frames => {plain [state.code]} * list frame frames
  | .notify hash eventName state => {plain hash.bytes} * text eventName * stack state
  | .log hash message => {plain hash.bytes} * text message
  | .results state gas results =>
    {plain [state.code]} * {plain (Bytes.ofInt64 gas)} * stack results
  | .fault exception => text exception
  | .script hash code => {plain hash.bytes} * blob code
  | .storage hash entries => {plain hash.bytes} * list entry entries
  | .settings network addressVersion => {plain (Bytes.ofUInt32 network)} * {plain [addressVersion]}

/-- The number 2, the discriminator, the number of fields, and the fields. -/
def record (r : Record) : Language Token :=
  {plain (Bytes.ofUInt32 2)} * {plain (Bytes.ofInt32 r.kind.discriminator)} *
    {plain (Bytes.ofUInt32 r.kind.fieldCount)} * fields r

end Format

end ScriptTrace
