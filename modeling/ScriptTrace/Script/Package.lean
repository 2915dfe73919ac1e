import ScriptTrace.Digest.Sha256
import ScriptTrace.Hash

/-!
Deployed contracts and the package their code is deployed in. The bytes of a package are a body and
the checksum after it; the body names the compiler in a field of 64 bytes and holds the source and
the code as byte strings after lengths of variable width. The checksum of a package as built is
computed from its body, but a package may carry any.
-/

set_option autoImplicit false

namespace ScriptTrace

/-- A number below 2 ^ 64 in one, three, five or nine bytes. -/
def Bytes.ofVarInt (n : Nat) : Bytes :=
  if n < 0xFD then Bytes.ofNat 1 n
  else if n ≤ 0xFFFF then 0xFD :: Bytes.ofNat 2 n
  else if n ≤ 0xFFFFFFFF then 0xFE :: Bytes.ofNat 4 n
  else 0xFF :: Bytes.ofNat 8 n

/-- The executable package of a contract. -/
structure Package where
  /-- Name and version of the compiler. -/
  compiler : String
  /-- Where the source code is. -/
  source : String
  code : Bytes
  checksum : UInt32
deriving DecidableEq

namespace Package

/-- The bytes `NEF3` as a number. -/
def magic : UInt32 := 0x3346454E

/-- The width of the compiler field. -/
def compilerWidth : Nat := 64

/-- The compiler field: the first bytes of the text, filled up with zeros. -/
def compilerField (compiler : String) : Bytes :=
  let bs := (Bytes.ofString compiler).take compilerWidth
  bs ++ List.replicate (compilerWidth - bs.length) 0

/-- A byte string after its length. -/
def varBytes (bs : Bytes) : Bytes := Bytes.ofVarInt bs.length ++ bs

/-- Everything in front of the checksum. -/
def body (compiler source : String) (code : Bytes) : Bytes :=
  Bytes.ofUInt32 magic ++ compilerField compiler ++ varBytes (Bytes.ofString source) ++
    [0] ++ Bytes.ofVarInt 0 ++ [0, 0] ++ varBytes code

/-- The first four bytes of the double digest of the body. -/
def computeChecksum (compiler source : String) (code : Bytes) : UInt32 :=
  Bytes.toUInt32 ((sha256 (sha256 (body compiler source code))).take 4)

/-- A package with its computed checksum. -/
def make (compiler source : String) (code : Bytes) : Package :=
  ⟨compiler, source, code, computeChecksum compiler source code⟩

/-- The bytes of a package. -/
def toBytes (p : Package) : Bytes :=
  body p.compiler p.source p.code ++ Bytes.ofUInt32 p.checksum

end Package

/-- A contract deployed on the chain. -/
structure Contract where
  /-- The number its storage is kept under. -/
  id : Int32
  hash : Hash
  name : String
  package : Package
deriving DecidableEq

/-- The code of a contract. -/
def Contract.code (c : Contract) : Bytes := c.package.code

end ScriptTrace
