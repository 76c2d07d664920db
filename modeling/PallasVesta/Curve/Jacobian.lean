import PallasVesta.Curve.Affine
import PallasVesta.Field.Sampling

namespace PallasVesta

/-- A triple of coordinates, not checked to lie on the curve. Equality is that of triples. -/
structure JacobianPoint (C : CurveParams) where
  x : FieldElement C.base
  y : FieldElement C.base
  z : FieldElement C.base
deriving DecidableEq

inductive Normalization where
  /-- From `x`, as `x / z ^ 3`. -/
  | compatible
  /-- From `y`, as `y / z ^ 3`. -/
  | exact
deriving DecidableEq, Repr

namespace JacobianPoint

variable {C : CurveParams}

def identity : JacobianPoint C := ⟨1, 1, 0⟩

instance : Inhabited (JacobianPoint C) := ⟨identity⟩

def generator : JacobianPoint C := ⟨⟨C.generatorX⟩, ⟨C.generatorY⟩, 1⟩

def ofCoordinates (x y : FieldElement C.base) : JacobianPoint C := ⟨x, y, 1⟩

def isIdentity (p : JacobianPoint C) : Bool := p.z.isZero

/-- The weighted form of the curve equation, `y ^ 2 = x ^ 3 + b * z ^ 6`. -/
def IsOnCurve (p : JacobianPoint C) : Prop :=
  p.y.square = p.x.square * p.x + C.b * (p.z.square * p.z).square

instance (p : JacobianPoint C) : Decidable p.IsOnCurve :=
  inferInstanceAs (Decidable (_ = _))

def negate (p : JacobianPoint C) : JacobianPoint C := { p with y := -p.y }

/-- The chord through two finite points with different affine `x`. No other case is treated
apart: a point and itself give `(0, 0, 0)`, and so does a point and the identity. -/
def add (p q : JacobianPoint C) : JacobianPoint C :=
  let z1z1 := p.z.square
  let z2z2 := q.z.square
  let u1 := p.x * z2z2
  let u2 := q.x * z1z1
  let s1 := p.y * q.z * z2z2
  let s2 := q.y * p.z * z1z1
  let h := u2 - u1
  let i := h.double.square
  let j := h * i
  let r := (s2 - s1).double
  let v := u1 * i
  let x := r.square - j - v.double
  { x
    y := r * (v - x) - (s1 * j).double
    z := ((p.z + q.z).square - z1z1 - z2z2) * h }

def sub (p q : JacobianPoint C) : JacobianPoint C := p.add q.negate

def double (p : JacobianPoint C) : JacobianPoint C :=
  if p.isIdentity then p
  else
    let a := p.x.square
    let b := p.y.square
    let c := b.square
    let d := ((p.x + b).square - a - c).double
    let e := a.double + a
    let x := e.square - d.double
    { x
      y := e * (d - x) - c.double.double.double
      z := (p.y * p.z).double }

def accumulate (acc power : JacobianPoint C) : JacobianPoint C :=
  if acc.isIdentity then power else acc.add power

/-- One bit of a scalar: the sum so far takes in the second part, which is the point times the
weight of the bit, and that part is doubled for the next bit. -/
def scaleStep (state : JacobianPoint C × JacobianPoint C) (bit : Bool) :
    JacobianPoint C × JacobianPoint C :=
  (if bit then state.1.accumulate state.2 else state.1, state.2.double)

def scaleBits (p : JacobianPoint C) (bits : List Bool) : JacobianPoint C :=
  (bits.foldl scaleStep (identity, p)).1

def scale (p : JacobianPoint C) (k : FieldElement C.scalar) : JacobianPoint C :=
  p.scaleBits k.toInteger.bits

/-- The affine point. Only an invertible `z` gives a finite one. -/
def toAffine (p : JacobianPoint C) (normalization : Normalization) : AffinePoint C :=
  if p.z = 1 then .finite p.x p.y
  else
    match p.z.inverse with
    | .error _ => .identity
    | .ok inverse =>
      let numerator := match normalization with
        | .compatible => p.x
        | .exact => p.y
      .finite (p.x * inverse.square) (numerator * inverse * inverse.square)

end JacobianPoint

def AffinePoint.toJacobian {C : CurveParams} (p : AffinePoint C) : JacobianPoint C :=
  if p.infinity then .identity else .ofCoordinates p.x p.y

namespace JacobianPoint

variable {C : CurveParams}

def draw (stream : ByteStream) (position limit : Nat) : Option (JacobianPoint C × Nat) :=
  (FieldElement.draw stream position limit).map fun (k, position) => (generator.scale k, position)

def drawMany (stream : ByteStream) (limit position count : Nat) :
    Option (List (JacobianPoint C) × Nat) :=
  (FieldElement.drawMany stream limit position count).map fun (scalars, position) =>
    (scalars.map generator.scale, position)

def ofStream (stream : ByteStream) : JacobianPoint C := generator.scale (.ofStream stream)

def ofSeed (seed : UInt64) : JacobianPoint C := generator.scale (.ofSeed seed)

end JacobianPoint

end PallasVesta
