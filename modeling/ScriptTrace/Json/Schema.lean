import ScriptTrace.Json.Reader
import ScriptTrace.Json.Writer
import ScriptTrace.Record
import ScriptTrace.Settings

/-!
Records, items and configurations as JSON. A case of a choice is an object with one member, named
for the case; a case without content may be written as its bare name. A structure is an object with
its fields, in any order and among unknown members, or an array of all its fields in order. Bytes
and hashes are arrays of numbers, an integer is its sign and its base 2 ^ 32 digits, least
significant first. What is read may nest 127 arrays and objects; members that are not looked at may
nest without a limit. Configurations take missing fields from their defaults.
-/

set_option autoImplicit false

namespace ScriptTrace

namespace Json

/-- The arrays and objects that may be nested in what is read. -/
def maxNesting : Nat := 127

/-- One level less of nesting, if any is left. -/
def enter? : Nat → Option Nat
  | 0 => none
  | room + 1 => some room

/-- The elements of an array, and the nesting left for them. -/
def elements? (room : Nat) : Json → Option (Nat × List Json)
  | array elements => (enter? room).map (·, elements)
  | _ => none

/-- The elements of an array of fixed length. -/
def tuple? (count room : Nat) (j : Json) : Option (Nat × List Json) := do
  let (room, elements) ← elements? room j
  if elements.length = count then return (room, elements) else none

/-- The members of an object by name; a name that is not a text has none. -/
def members? (members : List (List Nat × Json)) : Option (List (String × Json)) :=
  members.mapM fun (name, value) => (textOf? name).map (·, value)

/-- The fields of a structure in the order of their names, absent where an object lacks them or an
array ends before them. Repeated fields and surplus elements are refused. -/
def fields? (names : List String) (room : Nat) (j : Json) : Option (Nat × List (Option Json)) :=
  match j with
  | array elements => do
    let room ← enter? room
    if elements.length ≤ names.length then
      return (room, (List.range names.length).map fun i => elements[i]?)
    else none
  | object members => do
    let room ← enter? room
    let members ← members? members
    if names.all fun name => (members.countP fun m => m.1 == name) ≤ 1 then
      return (room, names.map fun name => members.lookup name)
    else none
  | _ => none

/-- The fields of a structure, none of which may be missing. -/
def allFields? (names : List String) (room : Nat) (j : Json) : Option (Nat × List Json) := do
  let (room, fields) ← fields? names room j
  let fields ← fields.mapM id
  return (room, fields)

/-- The case of a choice with its content; a bare name has none. -/
def case? (room : Nat) : Json → Option (Nat × String × Option Json)
  | string units => (textOf? units).map (room, ·, none)
  | object [(name, value)] => do
    let room ← enter? room
    let name ← textOf? name
    return (room, name, some value)
  | _ => none

/-- The case of a choice without contents. -/
def bareCase? (room : Nat) (j : Json) : Option String := do
  let (_, name, content) ← case? room j
  match content with
  | none => return name
  | some null => return name
  | some _ => none

/-- The object of a case with its content. -/
def ofCase (name : String) (content : Json) : Json := ofMembers [(name, content)]

/-- Bytes as an array of numbers. -/
def ofBytes (bs : Bytes) : Json := array (bs.map fun b => int b.toNat)

def byte? (j : Json) : Option UInt8 := (int? 0 255 j).map fun i => UInt8.ofNat i.toNat

def uint32? (j : Json) : Option UInt32 :=
  (int? 0 0xFFFFFFFF j).map fun i => UInt32.ofNat i.toNat

def int64? (j : Json) : Option Int64 :=
  (int? (-0x8000000000000000) 0x7FFFFFFFFFFFFFFF j).map Int64.ofInt

def bytes? (room : Nat) (j : Json) : Option Bytes := do
  let (_, elements) ← elements? room j
  elements.mapM byte?

/-- A list of values, each read with the nesting left. -/
def list? {α : Type} (f : Nat → Json → Option α) (room : Nat) (j : Json) : Option (List α) := do
  let (room, elements) ← elements? room j
  elements.mapM (f room)

/-- The base 2 ^ 32 digits of a number, least significant first, at most `count`. -/
def wideDigits : Nat → Nat → List Nat
  | 0, _ => []
  | count + 1, n => if n = 0 then [] else n % 2 ^ 32 :: wideDigits count (n / 2 ^ 32)

/-- An integer by its sign and digits. -/
def ofInteger (i : Int) : Json :=
  let n := i.natAbs
  array [int i.sign, array ((wideDigits (n.log2 / 32 + 1) n).map fun (d : Nat) => int d)]

/-- The integer with a sign and digits; the sign zero makes it zero. -/
def integer? (room : Nat) (j : Json) : Option Int := do
  let (room, parts) ← tuple? 2 room j
  match parts with
  | [sign, digits] =>
    let sign ← int? (-1) 1 sign
    let digits ← list? (fun _ d => uint32? d) room digits
    return sign * (digits.foldr (fun d n => d.toNat + 0x100000000 * n) 0 : Nat)
  | _ => none

end Json

open Json

def Hash.toJson (h : Hash) : Json := Json.ofBytes h.bytes

def Hash.ofJson? (room : Nat) (j : Json) : Option Hash := do
  Hash.ofBytes? (← Json.bytes? room j)

def VmState.caseName : VmState → String
  | .none => "None"
  | .halt => "Halt"
  | .fault => "Fault"
  | .break => "Break"

def VmState.toJson (s : VmState) : Json := Json.text s.caseName

def VmState.ofJson? (room : Nat) (j : Json) : Option VmState := do
  let name ← bareCase? room j
  [VmState.none, .halt, .fault, .break].find? fun s => s.caseName == name

namespace Item

mutual

def toJson : Item → Json
  | null => Json.text "Null"
  | pointer position => ofCase "Pointer" (int position.toNat)
  | boolean value => ofCase "Boolean" (bool value)
  | integer value => ofCase "Integer" (ofInteger value)
  | byteString bs => ofCase "ByteString" (ofBytes bs)
  | buffer bs => ofCase "Buffer" (ofBytes bs)
  | array items => ofCase "Array" (Json.array (listToJson items))
  | struct items => ofCase "Struct" (Json.array (listToJson items))
  | map entries => ofCase "Map" (Json.array (entriesToJson entries))
  | interop typeName => ofCase "InteropInterface" (Json.text typeName)

def listToJson : List Item → List Json
  | [] => []
  | item :: rest => item.toJson :: listToJson rest

def entriesToJson : List (Item × Item) → List Json
  | [] => []
  | (key, value) :: rest => Json.array [key.toJson, value.toJson] :: entriesToJson rest

end

/-- The item of a case without items in it. -/
def leafOfJson? (room : Nat) (name : String) (content : Json) : Option Item :=
  if name = "Null" then match content with
    | .null => some null
    | _ => none
  else if name = "Pointer" then (Json.uint32? content).map pointer
  else if name = "Boolean" then (Json.bool? content).map boolean
  else if name = "Integer" then (Json.integer? room content).map integer
  else if name = "ByteString" then (Json.bytes? room content).map byteString
  else if name = "Buffer" then (Json.bytes? room content).map buffer
  else if name = "InteropInterface" then (Json.text? content).map interop
  else none

/-- The item of a value; `levels` bounds the nesting of items and is ample if it is the room. -/
def ofJsonWithin? : Nat → Nat → Json → Option Item
  | levels, room, j => do
    let (room, name, content) ← case? room j
    match content with
    | none => if name = "Null" then return null else none
    | some content =>
      match levels with
      | 0 => leafOfJson? room name content
      | levels + 1 =>
        if name = "Array" then
          return array (← list? (ofJsonWithin? levels) room content)
        else if name = "Struct" then
          return struct (← list? (ofJsonWithin? levels) room content)
        else if name = "Map" then
          let entries ← list? (fun room pair => do
            let (room, parts) ← tuple? 2 room pair
            match parts with
            | [key, value] =>
              return (← ofJsonWithin? levels room key, ← ofJsonWithin? levels room value)
            | _ => none) room content
          return map entries
        else leafOfJson? room name content

def ofJson? (room : Nat) (j : Json) : Option Item := ofJsonWithin? room room j

end Item

namespace FrameRecord

def fieldNames : List String :=
  ["script_hash", "instruction_pointer", "has_catch", "evaluation_stack", "local_variables",
   "static_fields", "arguments"]

def toJson (f : FrameRecord) : Json :=
  ofMembers (fieldNames.zip [f.scriptHash.toJson, int f.instructionPointer.toNat,
    bool f.hasCatch, Json.array (Item.listToJson f.evaluationStack),
    Json.array (Item.listToJson f.localVariables), Json.array (Item.listToJson f.staticFields),
    Json.array (Item.listToJson f.arguments)])

def ofJson? (room : Nat) (j : Json) : Option FrameRecord := do
  let (room, fields) ← allFields? fieldNames room j
  match fields with
  | [hash, pointer, hasCatch, stack, locals, statics, arguments] =>
    return {
      scriptHash := ← Hash.ofJson? room hash
      instructionPointer := ← uint32? pointer
      hasCatch := ← bool? hasCatch
      evaluationStack := ← list? Item.ofJson? room stack
      localVariables := ← list? Item.ofJson? room locals
      staticFields := ← list? Item.ofJson? room statics
      arguments := ← list? Item.ofJson? room arguments }
  | _ => none

end FrameRecord

namespace StorageEntry

def fieldNames : List String := ["key", "value"]

def toJson (e : StorageEntry) : Json :=
  ofMembers (fieldNames.zip [ofBytes e.key, ofBytes e.value])

def ofJson? (room : Nat) (j : Json) : Option StorageEntry := do
  let (room, fields) ← allFields? fieldNames room j
  match fields with
  | [key, value] => return ⟨← bytes? room key, ← bytes? room value⟩
  | _ => none

end StorageEntry

namespace RecordKind

def caseName : RecordKind → String
  | trace => "Trace"
  | notify => "Notify"
  | log => "Log"
  | results => "Results"
  | fault => "Fault"
  | script => "Script"
  | storage => "Storage"
  | settings => "ProtocolSettings"

/-- The names of the fields of a record of this kind. -/
def fieldNames : RecordKind → List String
  | trace => ["state", "stack_frames"]
  | notify => ["script_hash", "event_name", "state"]
  | log => ["script_hash", "message"]
  | results => ["state", "gas_consumed", "result_stack"]
  | fault => ["exception"]
  | script => ["script_hash", "script"]
  | storage => ["script_hash", "entries"]
  | settings => ["network", "address_version"]

def all : List RecordKind := [trace, notify, log, results, fault, script, storage, settings]

end RecordKind

namespace Record

/-- The fields of a record in order. -/
def fieldsToJson : Record → List Json
  | trace state frames => [state.toJson, Json.array (frames.map FrameRecord.toJson)]
  | notify hash eventName state =>
    [hash.toJson, Json.text eventName, Json.array (Item.listToJson state)]
  | log hash message => [hash.toJson, Json.text message]
  | results state gas stack => [state.toJson, int gas.toInt, Json.array (Item.listToJson stack)]
  | fault exception => [Json.text exception]
  | script hash code => [hash.toJson, ofBytes code]
  | storage hash entries => [hash.toJson, Json.array (entries.map StorageEntry.toJson)]
  | settings network addressVersion => [int network.toNat, int addressVersion.toNat]

def toJson (r : Record) : Json :=
  ofCase r.kind.caseName (ofMembers (r.kind.fieldNames.zip r.fieldsToJson))

/-- The record of a kind with these fields. -/
def ofFields? (room : Nat) : RecordKind → List Json → Option Record
  | .trace, [state, frames] =>
    return .trace (← VmState.ofJson? room state) (← list? FrameRecord.ofJson? room frames)
  | .notify, [hash, eventName, state] =>
    return .notify (← Hash.ofJson? room hash) (← text? eventName) (← list? Item.ofJson? room state)
  | .log, [hash, message] => return .log (← Hash.ofJson? room hash) (← text? message)
  | .results, [state, gas, stack] =>
    return .results (← VmState.ofJson? room state) (← int64? gas) (← list? Item.ofJson? room stack)
  | .fault, [exception] => return .fault (← text? exception)
  | .script, [hash, code] => return .script (← Hash.ofJson? room hash) (← bytes? room code)
  | .storage, [hash, entries] =>
    return .storage (← Hash.ofJson? room hash) (← list? StorageEntry.ofJson? room entries)
  | .settings, [network, addressVersion] =>
    return .settings (← uint32? network) (← byte? addressVersion)
  | _, _ => none

def ofJson? (room : Nat) (j : Json) : Option Record := do
  let (room, name, content) ← case? room j
  let kind ← RecordKind.all.find? fun k => k.caseName == name
  let (room, fields) ← allFields? kind.fieldNames room (← content)
  ofFields? room kind fields

end Record

namespace Settings

def fieldNames : List String := ["network", "address_version"]

def toJson (s : Settings) : Json :=
  ofMembers (fieldNames.zip [int s.network.toNat, int s.addressVersion.toNat])

def ofJson? (room : Nat) (j : Json) : Option Settings := do
  let (_, fields) ← allFields? fieldNames room j
  match fields with
  | [network, addressVersion] => return ⟨← uint32? network, ← byte? addressVersion⟩
  | _ => none

end Settings

namespace CoverageConfig

def fieldNames : List String := ["output_dir"]

def toJson (c : CoverageConfig) : Json := ofMembers (fieldNames.zip [Json.text c.outputDir])

def ofJson? (room : Nat) (j : Json) : Option CoverageConfig := do
  let (_, fields) ← fields? fieldNames room j
  match fields with
  | [some dir] => return ⟨← text? dir⟩
  | _ => return default

end CoverageConfig

namespace TraceConfig

def fieldNames : List String := ["capture_storage"]

def toJson (c : TraceConfig) : Json := ofMembers (fieldNames.zip [bool c.captureStorage])

def ofJson? (room : Nat) (j : Json) : Option TraceConfig := do
  let (_, fields) ← fields? fieldNames room j
  match fields with
  | [some capture] => return ⟨← bool? capture⟩
  | _ => return default

end TraceConfig

/-- A type whose values are written as JSON. -/
class JsonForm (α : Type) where
  toJson : α → Json
  /-- The value of a JSON value, of which the given levels of nesting may be read. -/
  ofJson? : Nat → Json → Option α

instance : JsonForm Record := ⟨Record.toJson, Record.ofJson?⟩

instance : JsonForm Item := ⟨Item.toJson, Item.ofJson?⟩

instance : JsonForm Hash := ⟨Hash.toJson, Hash.ofJson?⟩

instance : JsonForm VmState := ⟨VmState.toJson, VmState.ofJson?⟩

instance : JsonForm Settings := ⟨Settings.toJson, Settings.ofJson?⟩

instance : JsonForm CoverageConfig := ⟨CoverageConfig.toJson, CoverageConfig.ofJson?⟩

instance : JsonForm TraceConfig := ⟨TraceConfig.toJson, TraceConfig.ofJson?⟩

/-- The text of a value. -/
def Json.textFor {α : Type} [JsonForm α] (a : α) : String := (JsonForm.toJson a).render

/-- The value of a whole text. -/
def Json.readText? {α : Type} [JsonForm α] (s : String) : Option α := do
  JsonForm.ofJson? maxNesting (← Json.parse? s)

end ScriptTrace
