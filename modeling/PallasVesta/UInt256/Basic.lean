import PallasVesta.Limb

namespace PallasVesta

structure UInt256 where
  limb0 : Limb
  limb1 : Limb
  limb2 : Limb
  limb3 : Limb
deriving DecidableEq, Inhabited, Hashable

/-- One more than the highest index below `bound` at which `bit` holds, or zero. -/
def bitLengthBelow (bit : Nat → Bool) : Nat → Nat
  | 0 => 0
  | n + 1 => if bit n then n + 1 else bitLengthBelow bit n

namespace UInt256

def limbCount : Nat := 4

def bytesPerLimb : Nat := 8

def byteCount : Nat := 32

/-- The number of integers there are, `2 ^ 256`. -/
abbrev size : Nat := 0x10000000000000000000000000000000000000000000000000000000000000000

def toNat (a : UInt256) : Nat :=
  a.limb0.toNat + Limb.size * (a.limb1.toNat + Limb.size * (a.limb2.toNat +
    Limb.size * a.limb3.toNat))

def ofLimb (limb : Limb) : UInt256 := ⟨limb, 0, 0, 0⟩

def zero : UInt256 := ofLimb 0

def one : UInt256 := ofLimb 1

def limb (a : UInt256) : Nat → Limb
  | 0 => a.limb0
  | 1 => a.limb1
  | 2 => a.limb2
  | 3 => a.limb3
  | _ => 0

def setLimb (a : UInt256) (index : Nat) (limb : Limb) : UInt256 :=
  match index with
  | 0 => { a with limb0 := limb }
  | 1 => { a with limb1 := limb }
  | 2 => { a with limb2 := limb }
  | 3 => { a with limb3 := limb }
  | _ => a

def isZero (a : UInt256) : Bool :=
  a.limb0 == 0 && a.limb1 == 0 && a.limb2 == 0 && a.limb3 == 0

def bit (a : UInt256) (index : Nat) : Bool :=
  (a.limb (index / 64) >>> (index % 64).toUInt64) &&& 1 == 1

def setBit (a : UInt256) (index : Nat) : UInt256 :=
  a.setLimb (index / 64) (a.limb (index / 64) ||| 1 <<< (index % 64).toUInt64)

def isOdd (a : UInt256) : Bool := a.bit 0

def bitLength (a : UInt256) : Nat := bitLengthBelow a.bit 256

/-- The bits up to the highest one set, least significant first. -/
def bits (a : UInt256) : List Bool := (List.range a.bitLength).map a.bit

@[inline] protected def compare (a b : UInt256) : Ordering :=
  (compare a.limb3 b.limb3).then <| (compare a.limb2 b.limb2).then <|
    (compare a.limb1 b.limb1).then (compare a.limb0 b.limb0)

instance : Ord UInt256 := ⟨UInt256.compare⟩

instance : LT UInt256 := ⟨fun a b => a.compare b = .lt⟩

instance : LE UInt256 := ⟨fun a b => a.compare b ≠ .gt⟩

@[inline] instance (a b : UInt256) : Decidable (a < b) :=
  inferInstanceAs (Decidable (a.compare b = .lt))

@[inline] instance (a b : UInt256) : Decidable (a ≤ b) :=
  inferInstanceAs (Decidable (a.compare b ≠ .gt))

@[inline] def addCarry (a b : UInt256) : UInt256 × Bool :=
  let (sum0, carry) := a.limb0.addCarry b.limb0 false
  let (sum1, carry) := a.limb1.addCarry b.limb1 carry
  let (sum2, carry) := a.limb2.addCarry b.limb2 carry
  let (sum3, carry) := a.limb3.addCarry b.limb3 carry
  (⟨sum0, sum1, sum2, sum3⟩, carry)

/-- The difference modulo `size`, and whether it fell below zero. -/
@[inline] def subBorrow (a b : UInt256) : UInt256 × Bool :=
  let (difference0, borrow) := a.limb0.subBorrow b.limb0 false
  let (difference1, borrow) := a.limb1.subBorrow b.limb1 borrow
  let (difference2, borrow) := a.limb2.subBorrow b.limb2 borrow
  let (difference3, borrow) := a.limb3.subBorrow b.limb3 borrow
  (⟨difference0, difference1, difference2, difference3⟩, borrow)

@[inline] def wrappingSub (a b : UInt256) : UInt256 := (a.subBorrow b).1

/-- `2 * a`, plus one if `carry` is set, modulo `size`, and the bit that left the top. -/
@[inline] def shiftLeftOne (a : UInt256) (carry : Bool) : UInt256 × Bool :=
  (⟨a.limb0 <<< 1 ||| carry.toUInt64, a.limb1 <<< 1 ||| a.limb0 >>> 63,
    a.limb2 <<< 1 ||| a.limb1 >>> 63, a.limb3 <<< 1 ||| a.limb2 >>> 63⟩, a.limb3 >>> 63 == 1)

def shiftRightOne (a : UInt256) : UInt256 :=
  ⟨a.limb0 >>> 1 ||| a.limb1 <<< 63, a.limb1 >>> 1 ||| a.limb2 <<< 63,
    a.limb2 >>> 1 ||| a.limb3 <<< 63, a.limb3 >>> 1⟩

end UInt256

end PallasVesta
