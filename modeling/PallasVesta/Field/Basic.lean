import PallasVesta.UInt256.Encoding
import PallasVesta.UInt512

namespace PallasVesta

structure FieldParams where
  name : String
  modulus : UInt256
  /-- The odd `t` with `modulus - 1 = t * 2 ^ 32`. -/
  oddFactor : UInt256
  /-- An element of multiplicative order `2 ^ 32`. -/
  twoAdicRoot : UInt256

namespace FieldParams

def twoAdicity : Nat := 32

def sizeInBits : Nat := 255

def groupOrder (M : FieldParams) : UInt256 := M.modulus.wrappingSub .one

/-- Coordinates of Pallas, scalars of Vesta. -/
def fp : FieldParams where
  name := "pasta_fp"
  modulus := ⟨0x992d30ed00000001, 0x224698fc094cf91b, 0x0000000000000000, 0x4000000000000000⟩
  oddFactor := ⟨0x094cf91b992d30ed, 0x00000000224698fc, 0x0000000000000000, 0x0000000040000000⟩
  twoAdicRoot := ⟨0xbdad6fabd87ea32f, 0xea322bf2b7bb7584, 0x362120830561f81a, 0x2bce74deac30ebda⟩

/-- Coordinates of Vesta, scalars of Pallas. -/
def fq : FieldParams where
  name := "pasta_fq"
  modulus := ⟨0x8c46eb2100000001, 0x224698fc0994a8dd, 0x0000000000000000, 0x4000000000000000⟩
  oddFactor := ⟨0x0994a8dd8c46eb21, 0x00000000224698fc, 0x0000000000000000, 0x0000000040000000⟩
  twoAdicRoot := ⟨0xa70e2c1102b6d05f, 0x9bb97ea3c106f049, 0x9e5c4dfd492ae26e, 0x2de6a9b8746d3f58⟩

end FieldParams

structure FieldElement (M : FieldParams) where
  value : UInt256
deriving DecidableEq

abbrev Fp := FieldElement .fp

abbrev Fq := FieldElement .fq

namespace FieldElement

variable {M : FieldParams}

/-- The representative lies below the modulus. Every operation gives such an element. -/
def IsCanonical (a : FieldElement M) : Prop := a.value.toNat < M.modulus.toNat

instance : Zero (FieldElement M) := ⟨⟨.zero⟩⟩

instance : One (FieldElement M) := ⟨⟨.one⟩⟩

instance : Inhabited (FieldElement M) := ⟨0⟩

def reduce (a : Signed) : FieldElement M := ⟨a.residue M.modulus⟩

instance : Add (FieldElement M) := ⟨fun a b => reduce (.ofUInt512 (a.value.wideningAdd b.value))⟩

instance : Sub (FieldElement M) := ⟨fun a b => reduce (.difference a.value b.value)⟩

instance : Mul (FieldElement M) := ⟨fun a b => reduce (.ofUInt512 (a.value.wideningMul b.value))⟩

instance : Neg (FieldElement M) := ⟨fun a => reduce (.difference .zero a.value)⟩

def square (a : FieldElement M) : FieldElement M := a * a

def double (a : FieldElement M) : FieldElement M := a + a

def isZero (a : FieldElement M) : Bool := a.value.isZero

protected def compare (a b : FieldElement M) : Ordering := a.value.compare b.value

def ofInteger (value : UInt256) : Except ArithmeticError (FieldElement M) :=
  if value < M.modulus then .ok ⟨value⟩ else .error .nonCanonical

def toInteger (a : FieldElement M) : UInt256 := a.value

/-- The residue of a signed machine integer. Its magnitude fits in 64 bits even for `-2 ^ 63`. -/
def ofInt64 (n : Int64) : FieldElement M :=
  if n < 0 then reduce ⟨true, .ofUInt256 (.ofLimb (-n).toUInt64)⟩
  else reduce (.ofUInt256 (.ofLimb n.toUInt64))

def ofUInt64 (n : UInt64) : FieldElement M := reduce (.ofUInt256 (.ofLimb n))

def toBytes (a : FieldElement M) : Vector UInt8 32 := a.value.toBytes

def ofBytes (bytes : Vector UInt8 32) : Except ArithmeticError (FieldElement M) :=
  ofInteger (.ofBytes bytes)

def ofByteList (bytes : List UInt8) : Except ArithmeticError (FieldElement M) :=
  if h : bytes.length = 32 then ofBytes ⟨bytes.toArray, h⟩
  else .error (.length 32 bytes.length)

def ofDecimal (text : String) : Except ArithmeticError (FieldElement M) := do
  ofInteger (← UInt256.ofDecimal text)

def toDecimal (a : FieldElement M) : String := a.value.toDecimal

def twoAdicRoot : FieldElement M := ⟨M.twoAdicRoot⟩

/-- Divides until nothing is left. At each step `coefficient` times the element is `dividend` and
`next` times the element is `divisor`, modulo the modulus. -/
def euclid (dividend divisor : UInt256) (coefficient next : FieldElement M) :
    Except ArithmeticError (FieldElement M) :=
  if divisor.isZero then
    if dividend = .one then .ok coefficient else .error .uninvertible
  else
    match _h : dividend.divMod divisor with
    | .error cause => .error cause
    | .ok (quotient, remainder) =>
      euclid divisor remainder next (coefficient - next * reduce (.ofUInt256 quotient))
termination_by divisor.toNat
decreasing_by exact UInt256.divMod_remainder_lt _h

def inverse (a : FieldElement M) : Except ArithmeticError (FieldElement M) :=
  if a.isZero then .error .uninvertible else euclid M.modulus a.value 0 1

def div (a b : FieldElement M) : Except ArithmeticError (FieldElement M) := do
  return a * (← b.inverse)

end FieldElement

end PallasVesta
