import PallasVesta.Field.Basic

namespace PallasVesta

structure CurveParams where
  name : String
  base : FieldParams
  scalar : FieldParams
  generatorX : UInt256
  generatorY : UInt256
  endoBase : UInt256
  /-- The cube root of unity in the scalar field with which scaling multiplies `x` by `endoBase`
  and keeps `y`. -/
  endoScalar : UInt256

namespace CurveParams

def coefficient : UInt64 := 5

def b (C : CurveParams) : FieldElement C.base := .ofUInt64 coefficient

def endoBaseElement (C : CurveParams) : FieldElement C.base := ⟨C.endoBase⟩

def endoScalarElement (C : CurveParams) : FieldElement C.scalar := ⟨C.endoScalar⟩

def pallas : CurveParams where
  name := "pallas"
  base := .fp
  scalar := .fq
  generatorX := .one
  generatorY := ⟨0x19cf7a23caed2abb, 0x8f655bd4333d4771, 0x53dfa9f06378ee54, 0x1b74b5a30a12937c⟩
  endoBase := ⟨0x7b7fd22f0201b547, 0x05270d29d19fc7d2, 0xd3552a23a8554e50, 0x2d33357cb532458e⟩
  endoScalar := ⟨0x619d1840af55f1b1, 0x1259527ec1d4752e, 0xaee24b27e308f0a6, 0x397e65a7d7c1ad71⟩

def vesta : CurveParams where
  name := "vesta"
  base := .fq
  scalar := .fp
  generatorX := .one
  generatorY := ⟨0x4e4389b9b0276a62, 0xacce3a7f298ba20c, 0x13b64e3aae89754c, 0x1943666ea922ae6b⟩
  endoBase := ⟨0x2aa9d2e050aa0e4f, 0x0fed467d47c033af, 0x511db4d81cf70f5a, 0x06819a58283e528e⟩
  endoScalar := ⟨0x1dad5ebdfdfe4ab9, 0x1d1f8bd237ad3149, 0x2caad5dc57aab1b0, 0x12ccca834acdba71⟩

end CurveParams

/-- A pair of coordinates, not checked to lie on the curve, or the point at infinity. -/
structure AffinePoint (C : CurveParams) where
  x : FieldElement C.base
  y : FieldElement C.base
  infinity : Bool
deriving DecidableEq

namespace AffinePoint

variable {C : CurveParams}

def finite (x y : FieldElement C.base) : AffinePoint C := ⟨x, y, false⟩

/-- The point at infinity, written with both coordinates one. -/
def identity : AffinePoint C := ⟨1, 1, true⟩

instance : Inhabited (AffinePoint C) := ⟨identity⟩

def isOnCurve (p : AffinePoint C) : Bool :=
  p.infinity || p.y.square == p.x.square * p.x + C.b

end AffinePoint

end PallasVesta
