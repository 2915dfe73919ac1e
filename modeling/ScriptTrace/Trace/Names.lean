import ScriptTrace.Script.Package
import ScriptTrace.Table

/-!
The names of contracts, looked up at most once for each hash. A hash that is not deployed when it is
first looked up has the empty name from then on.
-/

set_option autoImplicit false

namespace ScriptTrace

/-- The names looked up so far. -/
structure NameCache where
  names : Table Hash String

namespace NameCache

def empty : NameCache := ⟨Table.empty⟩

/-- The name of a hash, by a lookup of the contract the first time. -/
def resolve {m : Type → Type} [Monad m] (contract? : Hash → m (Option Contract)) (hash : Hash)
    (c : NameCache) : m (String × NameCache) :=
  match c.names.get? hash with
  | some name => pure (name, c)
  | none => do
    let name := match ← contract? hash with
      | some contract => contract.name
      | none => ""
    return (name, ⟨c.names.set hash name⟩)

/-- The name of a hash looked up before. -/
def get? (c : NameCache) (hash : Hash) : Option String := c.names.get? hash

/-- The number of hashes looked up. -/
def size (c : NameCache) : Nat := c.names.size

end NameCache

end ScriptTrace
