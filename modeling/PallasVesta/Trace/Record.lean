import PallasVesta.Curve.Jacobian
import PallasVesta.Text

namespace PallasVesta

/-- The lowest `n` hexadecimal digits, most significant first. -/
def hexDigits (value : Nat) : Nat → List Char
  | 0 => []
  | n + 1 => hexDigits (value / 16) n ++ [Nat.digitChar (value % 16)]

def UInt256.toHex (a : UInt256) : String := .ofList (hexDigits a.toNat 64)

def UInt256.debugText (a : UInt256) : String := "U256(0x" ++ a.toHex ++ ")"

def UInt512.debugText (a : UInt512) : String :=
  "U512(0x" ++ .ofList (hexDigits a.toNat 128) ++ ")"

def FieldElement.debugText {M : FieldParams} (a : FieldElement M) : String :=
  M.name ++ "(" ++ a.toDecimal ++ ")"

def Signed.debugText (a : Signed) : String :=
  Layout.inline.record "Integer"
    [("negative", boolText a.negative), ("magnitude", a.magnitude.debugText)]

variable {C : CurveParams}

def JacobianPoint.debugText (p : JacobianPoint C) (layout : Layout) : String :=
  layout.record "ProjectivePoint"
    [("x", p.x.debugText), ("y", p.y.debugText), ("z", p.z.debugText)]

def AffinePoint.debugText (p : AffinePoint C) (layout : Layout) : String :=
  layout.record "AffinePoint"
    [("x", p.x.debugText), ("y", p.y.debugText), ("infinity", boolText p.infinity)]

namespace Trace

inductive Argument where
  | int (value : Int)
  | flag (value : Bool)
  | text (value : String)
  | bytes (value : List UInt8)
  | integer (value : UInt256)
  | element {M : FieldParams} (value : FieldElement M)
  | point {C : CurveParams} (value : JacobianPoint C)

structure Style where
  layout : Layout := .inline
  width : Nat := 0

def Style.number (style : Style) (value : Int) : String :=
  let padding : Padding := { align := .right, width := style.width }
  padding.apply (toString value)

/-- Numbers stand on the right of their width, truth values on the left. The elements of a byte
list are padded one by one, and nothing else is padded. -/
def Argument.render (style : Style) : Argument → String
  | int value => style.number value
  | flag value =>
    let padding : Padding := { width := style.width }
    padding.apply (boolText value)
  | text value => quote value
  | bytes value => style.layout.list (value.map fun byte => style.number byte.toNat)
  | integer value => value.debugText
  | element value => value.debugText
  | point value => value.debugText style.layout

structure Record where
  seq : UInt64
  family : String
  op : String
  args : List Argument

def Record.render (style : Style) (record : Record) : String :=
  "#" ++ toString record.seq.toNat ++ " " ++ record.family ++ "_" ++ record.op ++ "(" ++
    ", ".intercalate (record.args.map (Argument.render style)) ++ ")"

def Record.debugText (record : Record) : String :=
  Layout.inline.record "Record"
    [("seq", toString record.seq.toNat), ("family", quote record.family),
      ("op", quote record.op), ("args", Layout.inline.list (record.args.map (Argument.render {})))]

end Trace

end PallasVesta
