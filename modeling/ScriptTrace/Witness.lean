import ScriptTrace.Session
import ScriptTrace.Syscall

/-!
Witness checks answered by a predicate of the host instead of the machine.
-/

set_option autoImplicit false

namespace ScriptTrace

/-- A predicate on the accounts that count as having signed. -/
abbrev WitnessChecker := Hash → Bool

/-- The system call that answers witness checks by a predicate. -/
def WitnessChecker.handler (checker : WitnessChecker) : SyscallHandler := fun _ arguments =>
  match arguments with
  | [] => .error "missing witness argument"
  | argument :: _ =>
    match witnessTarget argument with
    | .error e => .error e.message
    | .ok target => .ok (some (.boolean (checker target)))

namespace Session

variable {M σ : Type}

/-- Answer witness checks by a predicate. -/
def overrideWitness (checker : WitnessChecker) (s : Session M σ) : Session M σ :=
  s.override Syscall.checkWitness.hash checker.handler

/-- Leave witness checks to the machine again, answering whether they were replaced. -/
def restoreWitness (s : Session M σ) : Bool × Session M σ :=
  s.removeOverride Syscall.checkWitness.hash

end Session

end ScriptTrace
