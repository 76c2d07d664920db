import PallasVesta.UInt256.Division

namespace PallasVesta

structure UInt512 where
  low : UInt256
  high : UInt256
deriving DecidableEq, Inhabited

namespace UInt512

def toNat (a : UInt512) : Nat := a.low.toNat + UInt256.size * a.high.toNat

def ofUInt256 (a : UInt256) : UInt512 := ⟨a, .zero⟩

def zero : UInt512 := ofUInt256 .zero

def isZero (a : UInt512) : Bool := a.low.isZero && a.high.isZero

def limb (a : UInt512) (index : Nat) : Limb :=
  if index < 4 then a.low.limb index else a.high.limb (index - 4)

def setLimb (a : UInt512) (index : Nat) (limb : Limb) : UInt512 :=
  if index < 4 then { a with low := a.low.setLimb index limb }
  else { a with high := a.high.setLimb (index - 4) limb }

def bit (a : UInt512) (index : Nat) : Bool :=
  if index < 256 then a.low.bit index else a.high.bit (index - 256)

def bitLength (a : UInt512) : Nat := bitLengthBelow a.bit 512

def reduceSteps (a : UInt512) (modulus : UInt256) : Nat → UInt256 → UInt256
  | 0, remainder => remainder
  | n + 1, remainder =>
    reduceSteps a modulus n (UInt256.remainderStep modulus remainder (a.bit n)).1

def reduce (a : UInt512) (modulus : UInt256) : UInt256 :=
  reduceSteps a modulus a.bitLength .zero

end UInt512

namespace UInt256

def wideningAdd (a b : UInt256) : UInt512 :=
  let (sum, carry) := a.addCarry b
  ⟨sum, ofLimb carry.toUInt64⟩

def mulSteps (factor : Limb) (b : UInt256) (offset : Nat) (acc : UInt512) : Nat → UInt512 × Limb
  | 0 => (acc, 0)
  | n + 1 =>
    let (acc, carry) := mulSteps factor b offset acc n
    let (limb, carry) := Limb.mulAdd (acc.limb (offset + n)) factor (b.limb n) carry
    (acc.setLimb (offset + n) limb, carry)

/-- Adds `factor * b`, shifted by `offset` limbs, into `acc`. The last carry is stored and not
added: no earlier row reaches its limb. -/
def mulRow (factor : Limb) (b : UInt256) (offset : Nat) (acc : UInt512) : UInt512 :=
  let (acc, carry) := mulSteps factor b offset acc 4
  acc.setLimb (offset + 4) carry

def mulRows (a b : UInt256) : Nat → UInt512
  | 0 => .zero
  | n + 1 => mulRow (a.limb n) b n (mulRows a b n)

def wideningMul (a b : UInt256) : UInt512 := mulRows a b 4

end UInt256

/-- A magnitude with a sign. Zero may carry either sign. -/
structure Signed where
  negative : Bool
  magnitude : UInt512
deriving DecidableEq, Inhabited

namespace Signed

def ofUInt512 (magnitude : UInt512) : Signed := ⟨false, magnitude⟩

def ofUInt256 (magnitude : UInt256) : Signed := ofUInt512 (.ofUInt256 magnitude)

def toInt (a : Signed) : Int :=
  if a.negative then -a.magnitude.toNat else a.magnitude.toNat

def difference (a b : UInt256) : Signed :=
  if b ≤ a then ⟨false, .ofUInt256 (a.wrappingSub b)⟩
  else ⟨true, .ofUInt256 (b.wrappingSub a)⟩

/-- Whether the integer lies below zero, which a zero with a negative sign does not. -/
def isNegative (a : Signed) : Bool := a.negative && !a.magnitude.isZero

/-- The integer modulo a nonzero `modulus`, from zero up, also for a negative integer. -/
def residue (a : Signed) (modulus : UInt256) : UInt256 :=
  let remainder := a.magnitude.reduce modulus
  if a.isNegative && !remainder.isZero then modulus.wrappingSub remainder else remainder

end Signed

end PallasVesta
