import PallasVesta.Surface.Backend

namespace PallasVesta

namespace Data

inductive Refusal where
  | malformed
  | nonCanonical
deriving DecidableEq, Repr

/-- A value other than a record, in whatever format. -/
inductive Datum where
  | flag (value : Bool)
  | keyword (text : String)
  | bytes (values : List UInt8)

/-- What a format must know of a value before it reads it. -/
inductive Shape where
  | flag
  | keyword
  | bytes (n : Nat)

def Shape.admits : Shape → Datum → Bool
  | flag, .flag _ => true
  | keyword, .keyword _ => true
  | bytes n, .bytes values => values.length == n + 1
  | _, _ => false

/-- How the values of a type are represented. Only data of the right shape are parsed. -/
structure Codec (α : Type) where
  shape : Shape
  encode : α → Datum
  parse : Datum → Except Refusal α

def Codec.decode {α : Type} (codec : Codec α) (datum : Datum) : Except Refusal α :=
  if codec.shape.admits datum then codec.parse datum else .error .malformed

structure RecordField where
  name : String
  {Value : Type}
  codec : Codec Value

/-- The values of the fields that have been read so far. -/
def Gathered : List RecordField → Type
  | [] => Unit
  | field :: fields => Option field.Value × Gathered fields

namespace Gathered

def cons {field : RecordField} {fields : List RecordField} (value : Option field.Value)
    (rest : Gathered fields) : Gathered (field :: fields) :=
  (value, rest)

def empty : (fields : List RecordField) → Gathered fields
  | [] => ()
  | _ :: fields => .cons none (empty fields)

def entries : {fields : List RecordField} → Gathered fields → List (String × Datum)
  | [], _ => []
  | field :: _, (value, rest) =>
    (value.map fun value => (field.name, field.codec.encode value)).toList ++ entries rest

/-- Reads the value of an entry into the field of its name, which must not have been read before.
An entry that is no field's is skipped. -/
def take {m : Type → Type} [Monad m] [MonadExceptOf Refusal m] (name : String)
    (read : (field : RecordField) → m field.Value) (skip : m Unit) :
    {fields : List RecordField} → Gathered fields → m (Gathered fields)
  | [], gathered => do
    skip
    return gathered
  | field :: _, (value, rest) => do
    if field.name = name then
      if value.isSome then throw Refusal.malformed else return .cons (some (← read field)) rest
    else return .cons value (← take name read skip rest)

end Gathered

def takeEntry {fields : List RecordField} (gathered : Gathered fields) (entry : String × Datum) :
    Except Refusal (Gathered fields) :=
  gathered.take entry.1 (fun field => field.codec.decode entry.2) (pure ())

def gather {fields : List RecordField} (gathered : Gathered fields)
    (data : List (String × Datum)) : Except Refusal (Gathered fields) :=
  data.foldlM takeEntry gathered

/-- How the values of a type are represented by the map of their fields. -/
structure Record (α : Type) where
  fields : List RecordField
  split : α → Gathered fields
  /-- Fails where a field that may not be missing is. -/
  join : Gathered fields → Except Refusal α

namespace Record

variable {α : Type}

def toData (record : Record α) (value : α) : List (String × Datum) := (record.split value).entries

def ofData (record : Record α) (data : List (String × Datum)) : Except Refusal α := do
  record.join (← gather (.empty record.fields) data)

end Record

def flagCodec : Codec Bool where
  shape := .flag
  encode := .flag
  parse
    | .flag value => .ok value
    | _ => .error .malformed

end Data

open Data

def FieldElement.codec {M : FieldParams} : Codec (FieldElement M) where
  shape := .bytes 31
  encode a := .bytes a.toBytes.toList
  parse
    | .bytes values => (ofByteList values).mapError fun _ => .nonCanonical
    | _ => .error .malformed

variable {C : CurveParams}

def JacobianPoint.record : Record (JacobianPoint C) where
  fields := [⟨"x", FieldElement.codec⟩, ⟨"y", FieldElement.codec⟩, ⟨"z", FieldElement.codec⟩]
  split p := (some p.x, some p.y, some p.z, ())
  join
    | (some x, some y, some z, ()) => .ok ⟨x, y, z⟩
    | _ => .error .malformed

def AffinePoint.record : Record (AffinePoint C) where
  fields := [⟨"x", FieldElement.codec⟩, ⟨"y", FieldElement.codec⟩, ⟨"infinity", flagCodec⟩]
  split a := (some a.x, some a.y, some a.infinity, ())
  join
    | (some x, some y, some infinity, ()) => .ok ⟨x, y, infinity⟩
    | _ => .error .malformed

namespace Normalization

def keyword : Normalization → String
  | compatible => "compatible"
  | exact => "exact"

def ofKeyword? : String → Option Normalization
  | "compatible" => some .compatible
  | "exact" => some .exact
  | _ => none

def codec : Codec Normalization where
  shape := .keyword
  encode normalization := .keyword normalization.keyword
  parse
    | .keyword text => (ofKeyword? text).elim (.error .malformed) .ok
    | _ => .error .malformed

end Normalization

/-- A setting that is missing takes its default. -/
def Settings.record : Record Settings where
  fields := [⟨"trace", flagCodec⟩, ⟨"affine", Normalization.codec⟩]
  split settings := (some settings.trace, some settings.affine, ())
  join
    | (trace, affine, ()) =>
      let standard : Settings := {}
      .ok ⟨trace.getD standard.trace, affine.getD standard.affine⟩

end PallasVesta
