import PallasVesta.Field.Power
import PallasVesta.Trace.Record

namespace PallasVesta

inductive Value where
  | number (value : Nat)
  | flag (value : Bool)
  | text (value : String)
  | bytes (value : List UInt8)
  | order (value : Ordering)
  | integer (value : UInt256)
  | element {M : FieldParams} (value : FieldElement M)
  | element? {M : FieldParams} (value : Option (FieldElement M))
  | point {C : CurveParams} (value : JacobianPoint C)
  | affine {C : CurveParams} (value : AffinePoint C)

inductive IntegerCall where
  | limbCount
  | bytesPerLimb
  | ofBytes (bytes : List UInt8)
  | toBytes (a : UInt256)
  | ofDecimal (text : String)
  | ofNumeral (text : String) (radix : Nat)
  | toDecimal (a : UInt256)
  | testBit (a : UInt256) (index : Nat)
  | compare (a b : UInt256)
  | div (a b : UInt256)
  | copy (a : UInt256)

namespace IntegerCall

def op : IntegerCall → String
  | limbCount => "num_limbs"
  | bytesPerLimb => "bytes_per_limb"
  | ofBytes .. => "of_bytes"
  | toBytes .. => "to_bytes"
  | ofDecimal .. => "of_decimal_string"
  | ofNumeral .. => "of_numeral"
  | toDecimal .. => "to_string"
  | testBit .. => "test_bit"
  | compare .. => "compare"
  | div .. => "div"
  | copy .. => "deep_copy"

def args : IntegerCall → List Trace.Argument
  | limbCount | bytesPerLimb => []
  | ofBytes bytes => [.bytes bytes]
  | toBytes a | toDecimal a | copy a => [.integer a]
  | ofDecimal text => [.text text]
  | ofNumeral text radix => [.text text, .int radix]
  | testBit a index => [.integer a, .int index]
  | compare a b | div a b => [.integer a, .integer b]

def answer : IntegerCall → Except ArithmeticError Value
  | limbCount => .ok (.number UInt256.limbCount)
  | bytesPerLimb => .ok (.number UInt256.bytesPerLimb)
  | ofBytes bytes => .integer <$> UInt256.ofByteList bytes
  | toBytes a => .bytes <$> a.toByteList (some UInt256.byteCount)
  | ofDecimal text => .integer <$> UInt256.ofDecimal text
  | ofNumeral text radix => .integer <$> UInt256.ofNumeral text radix
  | toDecimal a => .ok (.text a.toDecimal)
  | testBit a index => .ok (.flag (a.bit index))
  | compare a b => .ok (.order (a.compare b))
  | div a b => (fun (quotient, _) => .integer quotient) <$> a.divMod b
  | copy a => .ok (.integer a)

end IntegerCall

inductive FieldCall (M : FieldParams) where
  | size
  | sizeInBits
  | add (a b : FieldElement M)
  | sub (a b : FieldElement M)
  | negate (a : FieldElement M)
  | mul (a b : FieldElement M)
  | div (a b : FieldElement M)
  | inverse (a : FieldElement M)
  | square (a : FieldElement M)
  | pow (a : FieldElement M) (exponent : UInt256)
  | isSquare (a : FieldElement M)
  | sqrt (a : FieldElement M)
  | ofInt (n : Int64)
  | ofDecimal (text : String)
  | toDecimal (a : FieldElement M)
  | compare (a b : FieldElement M)
  | equal (a b : FieldElement M)
  /-- A draw from the bytes that the surroundings provide, which are no argument. -/
  | random (entropy : ByteStream)
  | ofSeed (seed : UInt64)
  | toInteger (a : FieldElement M)
  | ofInteger (value : UInt256)
  | twoAdicRoot
  | domainGenerator (log2Size : Nat)
  | toBytes (a : FieldElement M)
  | ofBytes (bytes : List UInt8)
  | copy (a : FieldElement M)

namespace FieldCall

variable {M : FieldParams}

def op : FieldCall M → String
  | size => "size"
  | sizeInBits => "size_in_bits"
  | add .. => "add"
  | sub .. => "sub"
  | negate .. => "negate"
  | mul .. => "mul"
  | div .. => "div"
  | inverse .. => "inv"
  | square .. => "square"
  | pow .. => "pow"
  | isSquare .. => "is_square"
  | sqrt .. => "sqrt"
  | ofInt .. => "of_int"
  | ofDecimal .. => "of_decimal_string"
  | toDecimal .. => "to_string"
  | compare .. => "compare"
  | equal .. => "equal"
  | random .. => "random"
  | ofSeed .. => "rng"
  | toInteger .. => "to_bigint"
  | ofInteger .. => "of_bigint"
  | twoAdicRoot => "two_adic_root_of_unity"
  | domainGenerator .. => "domain_generator"
  | toBytes .. => "to_bytes"
  | ofBytes .. => "of_bytes"
  | copy .. => "deep_copy"

def args : FieldCall M → List Trace.Argument
  | size | sizeInBits | random _ | twoAdicRoot => []
  | add a b | sub a b | mul a b | div a b | compare a b | equal a b => [.element a, .element b]
  | negate a | inverse a | square a | isSquare a | sqrt a | toDecimal a | toInteger a | toBytes a
  | copy a => [.element a]
  | pow a exponent => [.element a, .integer exponent]
  | ofInt n => [.int n.toInt]
  | ofDecimal text => [.text text]
  | ofSeed seed => [.int seed.toNat]
  | ofInteger value => [.integer value]
  | domainGenerator log2Size => [.int log2Size]
  | ofBytes bytes => [.bytes bytes]

def answer : FieldCall M → Except ArithmeticError Value
  | size => .ok (.integer M.modulus)
  | sizeInBits => .ok (.number FieldParams.sizeInBits)
  | add a b => .ok (.element (a + b))
  | sub a b => .ok (.element (a - b))
  | negate a => .ok (.element (-a))
  | mul a b => .ok (.element (a * b))
  | div a b => .element <$> a.div b
  | inverse a => .element <$> a.inverse
  | square a => .ok (.element a.square)
  | pow a exponent => .ok (.element (a.pow exponent))
  | isSquare a => .ok (.flag a.isSquare)
  | sqrt a => .ok (.element? a.sqrt)
  | ofInt n => .ok (.element (.ofInt64 n : FieldElement M))
  | ofDecimal text => (fun a : FieldElement M => .element a) <$> FieldElement.ofDecimal text
  | toDecimal a => .ok (.text a.toDecimal)
  | compare a b => .ok (.order (a.compare b))
  | equal a b => .ok (.flag (a == b))
  | random entropy => .ok (.element (.ofStream entropy : FieldElement M))
  | ofSeed seed => .ok (.element (.ofSeed seed : FieldElement M))
  | toInteger a => .ok (.integer a.toInteger)
  | ofInteger value => (fun a : FieldElement M => .element a) <$> FieldElement.ofInteger value
  | twoAdicRoot => .ok (.element (.twoAdicRoot : FieldElement M))
  | domainGenerator log2Size =>
    (fun a : FieldElement M => .element a) <$> FieldElement.domainGenerator log2Size
  | toBytes a => .ok (.bytes a.toBytes.toList)
  | ofBytes bytes => (fun a : FieldElement M => .element a) <$> FieldElement.ofByteList bytes
  | copy a => .ok (.element a)

end FieldCall

inductive CurveCall (C : CurveParams) where
  | one
  | add (p q : JacobianPoint C)
  | sub (p q : JacobianPoint C)
  | negate (p : JacobianPoint C)
  | double (p : JacobianPoint C)
  | scale (p : JacobianPoint C) (k : FieldElement C.scalar)
  | endoBase
  | endoScalar
  | toAffine (p : JacobianPoint C)
  | ofCoordinates (x y : FieldElement C.base)
  | random (entropy : ByteStream)
  | ofSeed (seed : UInt64)

namespace CurveCall

variable {C : CurveParams}

def op : CurveCall C → String
  | one => "one"
  | add .. => "add"
  | sub .. => "sub"
  | negate .. => "negate"
  | double .. => "double"
  | scale .. => "scale"
  | endoBase => "endo_base"
  | endoScalar => "endo_scalar"
  | toAffine .. => "to_affine"
  | ofCoordinates .. => "of_affine_coordinates"
  | random .. => "random"
  | ofSeed .. => "rng"

def args : CurveCall C → List Trace.Argument
  | one | endoBase | endoScalar | random _ => []
  | add p q | sub p q => [.point p, .point q]
  | negate p | double p | toAffine p => [.point p]
  | scale p k => [.point p, .element k]
  | ofCoordinates x y => [.element x, .element y]
  | ofSeed seed => [.int seed.toNat]

def answer (normalization : Normalization) : CurveCall C → Value
  | one => .point (.generator : JacobianPoint C)
  | add p q => .point (p.add q)
  | sub p q => .point (p.sub q)
  | negate p => .point p.negate
  | double p => .point p.double
  | scale p k => .point (p.scale k)
  | endoBase => .element C.endoBaseElement
  | endoScalar => .element C.endoScalarElement
  | toAffine p => .affine (p.toAffine normalization)
  | ofCoordinates x y => .point (.ofCoordinates x y : JacobianPoint C)
  | random entropy => .point (.ofStream entropy : JacobianPoint C)
  | ofSeed seed => .point (.ofSeed seed : JacobianPoint C)

end CurveCall

end PallasVesta
