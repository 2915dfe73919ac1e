import ScriptTrace.Bytes
import ScriptTrace.Table

/-!
Trees of directories and files. An entry is addressed by the names that lead to it from the root.
-/

set_option autoImplicit false

namespace ScriptTrace

/-- A file or a directory with its entries. -/
inductive Node where
  | file (content : Bytes)
  | directory (entries : List (String × Node))

namespace Node

/-- The entries of a directory; a file has none. -/
def entries : Node → List (String × Node)
  | file _ => []
  | directory es => es

/-- What is at the end of a chain of names. -/
def at? : List String → Node → Option Node
  | [], node => some node
  | name :: rest, node => (Table.find name node.entries).bind (at? rest)

/-- Put a node at the end of a chain of names, making the directories that are missing. Nothing is
put below a file. -/
def place (new : Node) : List String → Node → Node
  | [], _ => new
  | _ :: _, file content => file content
  | name :: rest, directory es =>
    directory (Table.put name (place new rest ((Table.find name es).getD (directory []))) es)

/-- Drop what is at the end of a chain of names. -/
def erase : List String → Node → Node
  | name :: rest, directory es =>
    if rest = [] then directory (es.filter (·.1 ≠ name))
    else
      match Table.find name es with
      | none => directory es
      | some node => directory (Table.put name (erase rest node) es)
  | _, node => node

mutual

/-- The files with their contents, and the directories, whose paths end in a slash. -/
def listing (path : String) : Node → List (String × Option Bytes)
  | file content => [(path, some content)]
  | directory es => (path ++ "/", none) :: listings (path ++ "/") es

/-- The listings of the entries of a directory. -/
def listings (above : String) : List (String × Node) → List (String × Option Bytes)
  | [] => []
  | (name, node) :: rest => listing (above ++ name) node ++ listings above rest

end

end Node

end ScriptTrace
