import ScriptTrace.Hash
import ScriptTrace.Item

/-!
System calls and witnesses. A system call is identified by the first four bytes of the digest of its
name. A witness argument names an account, either by the hash of its script or by a compressed
public key, whose account script is `Syscall.redeemScript`.
-/

set_option autoImplicit false

namespace ScriptTrace

/-- The system calls a script may use. -/
inductive Syscall where
  | log
  | notify
  | checkWitness
  | call
  | checkSignature
deriving DecidableEq, Repr

namespace Syscall

def name : Syscall → String
  | log => "System.Runtime.Log"
  | notify => "System.Runtime.Notify"
  | checkWitness => "System.Runtime.CheckWitness"
  | call => "System.Contract.Call"
  | checkSignature => "System.Crypto.CheckSig"

/-- The number of items a system call takes from the stack. -/
def parameters : Syscall → Nat
  | log => 1
  | notify => 2
  | checkWitness => 1
  | call => 4
  | checkSignature => 1

/-- The identity of a system call by any name. -/
def hashOfName (name : String) : UInt32 :=
  Bytes.toUInt32 ((sha256 (Bytes.ofString name)).take 4)

/-- The identity of a system call. -/
def hash (s : Syscall) : UInt32 := hashOfName s.name

def all : List Syscall := [log, notify, checkWitness, call, checkSignature]

/-- The system calls with their identities. -/
def table : List (UInt32 × Syscall) := all.map fun s => (s.hash, s)

/-- The system call with this identity. -/
def ofHash? (hash : UInt32) : Option Syscall := table.lookup hash

/-- The script of an account with a single signature: push the key, check the signature. -/
def redeemScript (key : Bytes) : Bytes :=
  [0x0C, UInt8.ofNat key.length] ++ key ++ 0x41 :: Bytes.ofUInt32 checkSignature.hash

end Syscall

/-- Why an item names no account. -/
inductive WitnessError where
  | notBytes (argument : Item)
  | length (count : Nat)

def WitnessError.message : WitnessError → String
  | notBytes argument => "witness argument must be bytes, got " ++ argument.describe
  | length count => s!"invalid witness argument length {count}"

/-- The account a witness argument names. -/
def witnessTarget (argument : Item) : Except WitnessError Hash :=
  match argument.bytes? with
  | none => .error (.notBytes argument)
  | some bs =>
    match Hash.ofBytes? bs with
    | some h => .ok h
    | none =>
      if bs.length = 33 then .ok (Hash.ofScript (Syscall.redeemScript bs))
      else .error (.length bs.length)

end ScriptTrace
