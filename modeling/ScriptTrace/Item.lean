import ScriptTrace.Bytes
import ScriptTrace.Text.Quoted

/-!
The values a virtual machine keeps on its stacks and in its slots. An item is a primitive, an array
or struct of items, a map in insertion order, or an opaque object of the host known by its type
name. `Item.depth` counts the levels of nesting, an item without elements being one level deep;
`Item.describe` is the text used in messages.
-/

set_option autoImplicit false

namespace ScriptTrace

/-- A value of the virtual machine. -/
inductive Item where
  | null
  /-- A position inside the script that created it. -/
  | pointer (position : UInt32)
  | boolean (value : Bool)
  | integer (value : Int)
  | byteString (bytes : Bytes)
  | buffer (bytes : Bytes)
  | array (items : List Item)
  | struct (items : List Item)
  /-- Entries in insertion order. -/
  | map (entries : List (Item × Item))
  /-- An object of the host, known by its type name. -/
  | interop (typeName : String)
deriving Inhabited

namespace Item

/-- The type code written in front of an item. -/
def tag : Item → UInt8
  | null => 0x00
  | pointer _ => 0x10
  | boolean _ => 0x20
  | integer _ => 0x21
  | byteString _ => 0x28
  | buffer _ => 0x30
  | array _ => 0x40
  | struct _ => 0x41
  | map _ => 0x48
  | interop _ => 0x60

/-- The bytes of a byte string or buffer. -/
def bytes? : Item → Option Bytes
  | byteString bs | buffer bs => some bs
  | _ => none

/-- The byte string holding the UTF-8 bytes of a text. -/
def ofString (s : String) : Item := byteString (Bytes.ofString s)

/-- Whether an item counts as true: null, false, zero and all-zero bytes do not. -/
def isTrue : Item → Bool
  | null => false
  | boolean b => b
  | integer i => i != 0
  | byteString bs | buffer bs => bs.any (· != 0)
  | _ => true

mutual

/-- Whether two items are equal, by comparing them level by level. -/
def same : Item → Item → Bool
  | null, null => true
  | pointer a, pointer b => a == b
  | boolean a, boolean b => a == b
  | integer a, integer b => a == b
  | byteString a, byteString b => a == b
  | buffer a, buffer b => a == b
  | array a, array b => sameList a b
  | struct a, struct b => sameList a b
  | map a, map b => sameEntries a b
  | interop a, interop b => a == b
  | _, _ => false

/-- Whether two lists of items are equal. -/
def sameList : List Item → List Item → Bool
  | [], [] => true
  | a :: as, b :: bs => same a b && sameList as bs
  | _, _ => false

/-- Whether two lists of entries are equal. -/
def sameEntries : List (Item × Item) → List (Item × Item) → Bool
  | [], [] => true
  | (k, v) :: as, (l, w) :: bs => same k l && same v w && sameEntries as bs
  | _, _ => false

end

mutual

theorem same_iff : ∀ a b : Item, same a b = true ↔ a = b
  | null, b => by cases b <;> simp [same]
  | pointer _, b => by cases b <;> simp [same]
  | boolean _, b => by cases b <;> simp [same]
  | integer _, b => by cases b <;> simp [same]
  | byteString _, b => by cases b <;> simp [same]
  | buffer _, b => by cases b <;> simp [same]
  | array as, b => by cases b <;> simp [same, sameList_iff as]
  | struct as, b => by cases b <;> simp [same, sameList_iff as]
  | map as, b => by cases b <;> simp [same, sameEntries_iff as]
  | interop _, b => by cases b <;> simp [same]

theorem sameList_iff : ∀ as bs : List Item, sameList as bs = true ↔ as = bs
  | [], bs => by cases bs <;> simp [sameList]
  | a :: as, bs => by cases bs <;> simp [sameList, same_iff a, sameList_iff as]

theorem sameEntries_iff : ∀ as bs : List (Item × Item), sameEntries as bs = true ↔ as = bs
  | [], bs => by cases bs <;> simp [sameEntries]
  | (k, v) :: as, bs => by
    cases bs <;> simp [sameEntries, same_iff k, same_iff v, sameEntries_iff as, Prod.ext_iff]

end

instance : DecidableEq Item := fun a b => decidable_of_iff _ (same_iff a b)

mutual

/-- The levels of nesting, the item itself being one. -/
def depth : Item → Nat
  | array items | struct items => depthList items + 1
  | map entries => depthEntries entries + 1
  | _ => 1

/-- The depth of the deepest item of a list, zero for none. -/
def depthList : List Item → Nat
  | [] => 0
  | item :: rest => max item.depth (depthList rest)

/-- The depth of the deepest key or value, zero for none. -/
def depthEntries : List (Item × Item) → Nat
  | [] => 0
  | (key, value) :: rest => max (max key.depth value.depth) (depthEntries rest)

end

/-- Texts separated by commas. -/
def commaSeparated (parts : List String) : String := ", ".intercalate parts

/-- Bytes as decimal numbers in brackets. -/
def describeBytes (bs : Bytes) : String :=
  "[" ++ commaSeparated (bs.map fun b => toString b.toNat) ++ "]"

mutual

/-- The text of an item in messages. -/
def describe : Item → String
  | null => "Null"
  | pointer position => "Pointer(" ++ toString position.toNat ++ ")"
  | boolean value => "Boolean(" ++ toString value ++ ")"
  | integer value => "Integer(" ++ toString value ++ ")"
  | byteString bs => "ByteString(" ++ describeBytes bs ++ ")"
  | buffer bs => "Buffer(" ++ describeBytes bs ++ ")"
  | array items => "Array([" ++ commaSeparated (describeList items) ++ "])"
  | struct items => "Struct([" ++ commaSeparated (describeList items) ++ "])"
  | map entries => "Map([" ++ commaSeparated (describeEntries entries) ++ "])"
  | interop typeName => "InteropInterface(" ++ Quoting.text.quote typeName ++ ")"

/-- The texts of a list of items. -/
def describeList : List Item → List String
  | [] => []
  | item :: rest => item.describe :: describeList rest

/-- The texts of the entries of a map. -/
def describeEntries : List (Item × Item) → List String
  | [] => []
  | (key, value) :: rest =>
    ("(" ++ key.describe ++ ", " ++ value.describe ++ ")") :: describeEntries rest

end

end Item

end ScriptTrace
