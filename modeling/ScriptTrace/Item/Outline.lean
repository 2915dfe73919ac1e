import ScriptTrace.Item

/-!
Items on one line, with the type of every part named. How bytes are written is left open, so that
long ones can be shortened.
-/

set_option autoImplicit false

namespace ScriptTrace

namespace Item

variable (bytesText : Bytes → String)

mutual

/-- The line for an item. -/
def outline : Item → String
  | null => "null"
  | pointer position => "ptr:" ++ toString position.toNat
  | boolean value => "bool:" ++ toString value
  | integer value => "int:" ++ toString value
  | byteString bs => "bs:" ++ bytesText bs
  | buffer bs => "buf:" ++ bytesText bs
  | array items => "arr[" ++ ",".intercalate (outlines items) ++ "]"
  | struct items => "struct[" ++ ",".intercalate (outlines items) ++ "]"
  | map entries => "map\x7b" ++ ",".intercalate (entryOutlines entries) ++ "\x7d"
  | interop typeName => "iface:" ++ bytesText (Bytes.ofString typeName)

/-- The lines for a list of items. -/
def outlines : List Item → List String
  | [] => []
  | item :: rest => outline item :: outlines rest

/-- The lines for the entries of a map. -/
def entryOutlines : List (Item × Item) → List String
  | [] => []
  | (key, value) :: rest => (outline key ++ "=>" ++ outline value) :: entryOutlines rest

end

end Item

end ScriptTrace
