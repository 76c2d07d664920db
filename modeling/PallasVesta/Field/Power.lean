import PallasVesta.Field.Basic

namespace PallasVesta.FieldElement

variable {M : FieldParams}

def squareTimes (a : FieldElement M) : Nat → FieldElement M
  | 0 => a
  | n + 1 => a.square.squareTimes n

/-- One bit of an exponent: the product so far takes in the second part, which is `a` raised to
the weight of the bit, and that part is squared for the next bit. -/
def powStep (state : FieldElement M × FieldElement M) (bit : Bool) :
    FieldElement M × FieldElement M :=
  (if bit then state.1 * state.2 else state.1, state.2.square)

def powBits (a : FieldElement M) (bits : List Bool) : FieldElement M :=
  (bits.foldl powStep (1, a)).1

/-- The power whose exponent is reduced modulo the group order first, which changes nothing for a
nonzero element of a prime field. -/
def pow (a : FieldElement M) (exponent : UInt256) : FieldElement M :=
  a.powBits ((Signed.ofUInt256 exponent).residue M.groupOrder).bits

/-- Euler's criterion. Zero is a square. -/
def isSquare (a : FieldElement M) : Bool :=
  a.isZero || a.pow M.groupOrder.shiftRightOne == 1

def domainGenerator (log2Size : Nat) : Except ArithmeticError (FieldElement M) :=
  if log2Size = 0 then .ok 1
  else if log2Size ≤ FieldParams.twoAdicity then
    .ok (twoAdicRoot.squareTimes (FieldParams.twoAdicity - log2Size))
  else .error (.domainTooLarge log2Size)

structure RootSearch (M : FieldParams) where
  /-- An exponent above that of the order of `residue`, if the element is a square. -/
  bound : Nat
  /-- An element of order `2 ^ bound`. -/
  cofactor : FieldElement M
  residue : FieldElement M
  root : FieldElement M

/-- How many squarings take `a` to one, or `limit` if fewer do not. -/
def squaringsToOne (a : FieldElement M) : Nat → Nat
  | 0 => 0
  | limit + 1 => if a = 1 then 0 else a.square.squaringsToOne limit + 1

namespace RootSearch

def start (a : FieldElement M) : RootSearch M where
  bound := FieldParams.twoAdicity
  cofactor := twoAdicRoot.pow M.oddFactor
  residue := a.pow M.oddFactor
  root := a.pow (M.oddFactor.shiftRightOne.addCarry .one).1

/-- Makes the order of `residue` smaller than `2 ^ least`, which it was. -/
def advance (search : RootSearch M) (least : Nat) : RootSearch M :=
  let step := search.cofactor.squareTimes (search.bound - least - 1)
  { bound := least
    cofactor := step.square
    residue := search.residue * step.square
    root := search.root * step }

def run (search : RootSearch M) : Option (FieldElement M) :=
  if search.residue.isZero then some 0
  else if search.residue = 1 then some search.root
  else
    let least := search.residue.squaringsToOne search.bound
    if least < search.bound then (search.advance least).run else none
termination_by search.bound

end RootSearch

def sqrt (a : FieldElement M) : Option (FieldElement M) := (RootSearch.start a).run

end PallasVesta.FieldElement
