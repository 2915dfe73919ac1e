import ScriptTrace.Hash

/-!
The text that stands for a script in messages: its hash and its length.
-/

set_option autoImplicit false

namespace ScriptTrace

/-- A script by its hash and length. -/
def describeScript (code : Bytes) : String :=
  "Script \x7b hash: " ++ (Hash.ofScript code).display ++ ", len: " ++ toString code.length ++
    " \x7d"

end ScriptTrace
