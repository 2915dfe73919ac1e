import ScriptTrace.Script.Package

/-!
Scripts that entered the call stack and the files they are kept in. A deployed contract is kept as
its package, any other script as its bare code; the name of the file is made from the hash.
-/

set_option autoImplicit false

namespace ScriptTrace

/-- A script that entered the call stack. -/
inductive ExecutedScript where
  /-- Code that is not deployed. -/
  | script (hash : Hash) (code : Bytes)
  | contract (contract : Contract)
deriving DecidableEq

namespace ExecutedScript

def hash : ExecutedScript → Hash
  | script hash _ => hash
  | contract c => c.hash

def code : ExecutedScript → Bytes
  | script _ code => code
  | contract c => c.code

def fileExtension : ExecutedScript → String
  | script .. => "neo-script"
  | contract _ => "nef"

/-- The name of the file. -/
def fileName (s : ExecutedScript) : String := s.hash.display ++ "." ++ s.fileExtension

/-- The content of the file. -/
def artifact : ExecutedScript → Bytes
  | script _ code => code
  | contract c => c.package.toBytes

end ExecutedScript

end ScriptTrace
