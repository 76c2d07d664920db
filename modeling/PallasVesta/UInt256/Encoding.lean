import PallasVesta.UInt256.Division

namespace PallasVesta

def Limb.ofBytes (bytes : List UInt8) : Limb :=
  bytes.foldr (fun byte limb => byte.toUInt64 + 256 * limb) 0

namespace UInt256

def ofBytes (bytes : Vector UInt8 32) : UInt256 :=
  let bytes := bytes.toList
  ⟨.ofBytes (bytes.take 8), .ofBytes ((bytes.drop 8).take 8),
    .ofBytes ((bytes.drop 16).take 8), .ofBytes (bytes.drop 24)⟩

def byte (a : UInt256) (index : Nat) : UInt8 :=
  (a.limb (index / 8) >>> (8 * (index % 8)).toUInt64).toUInt8

def toBytes (a : UInt256) : Vector UInt8 32 :=
  Vector.ofFn fun index => a.byte index

/-- Any number of bytes, as long as those past the 32nd are zero. -/
def ofByteList (bytes : List UInt8) : Except ArithmeticError UInt256 :=
  if (bytes.drop byteCount).any (· != 0) then .error (.overflow byteCount)
  else .ok (ofBytes (Vector.ofFn fun index => bytes.getD index 0))

/-- The shortest encoding, in which zero takes no byte. -/
def minimalBytes (a : UInt256) : List UInt8 :=
  (a.toBytes.toList.reverse.dropWhile (· == 0)).reverse

/-- The shortest encoding, with zeros appended up to `length` bytes where one is given. Any length is
admitted: what a machine can allocate is not modelled. -/
def toByteList (a : UInt256) (length : Option Nat) : Except ArithmeticError (List UInt8) :=
  let bytes := a.minimalBytes
  match length with
  | none => .ok bytes
  | some length =>
    if length < bytes.length then .error (.overflow length)
    else .ok (bytes ++ List.replicate (length - bytes.length) 0)

end UInt256

/-- The value of an ASCII digit, or of an ASCII letter of either case from ten up, below `radix`. -/
def digitValue? (radix : Nat) (c : Char) : Option Nat :=
  let value :=
    if '0' ≤ c ∧ c ≤ '9' then some (c.toNat - '0'.toNat)
    else if 'a' ≤ c ∧ c ≤ 'z' then some (c.toNat - 'a'.toNat + 10)
    else if 'A' ≤ c ∧ c ≤ 'Z' then some (c.toNat - 'A'.toNat + 10)
    else none
  value.filter (· < radix)

namespace UInt256

def appendDigit (radix : Nat) (acc : UInt256) (c : Char) : Except ArithmeticError UInt256 :=
  match digitValue? radix c with
  | none => .error .invalidNumeral
  | some digit =>
    let (next, carry) := acc.mulAddLimb (.ofNat radix) (.ofNat digit)
    if carry == 0 then .ok next else .error (.overflow byteCount)

/-- Reads a numeral without sign or separator. The first digit that is foreign or brings the
value to `2 ^ 256` decides the error. -/
def ofNumeral (text : String) (radix : Nat) : Except ArithmeticError UInt256 :=
  if radix < 2 ∨ 36 < radix then .error (.invalidRadix radix)
  else if text.isEmpty then .error .invalidNumeral
  else text.toList.foldlM (appendDigit radix) zero

def ofDecimal (text : String) : Except ArithmeticError UInt256 := ofNumeral text 10

def decimalBase : Limb := 10000000000000000000

/-- Digits in base `decimalBase`, least significant first. -/
def decimalChunks (a : UInt256) : List Limb :=
  if a.isZero then []
  else (a.divLimb decimalBase).2 :: decimalChunks (a.divLimb decimalBase).1
termination_by a.toNat
decreasing_by exact divLimb_quotient_lt (by simpa using ‹¬a.isZero = true›) (by decide)

def paddedDecimal (limb : Limb) : List Char :=
  let digits := Nat.toDigits 10 limb.toNat
  List.replicate (19 - digits.length) '0' ++ digits

def toDecimal (a : UInt256) : String :=
  match a.decimalChunks.reverse with
  | [] => "0"
  | leading :: rest => .ofList (Nat.toDigits 10 leading.toNat ++ rest.flatMap paddedDecimal)

end UInt256

end PallasVesta
