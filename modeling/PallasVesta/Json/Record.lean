import PallasVesta.Json.Reader

namespace PallasVesta

namespace Json

open Data

def skipDigits : Reader Unit := do
  match ← digits with
  | [] => refuse
  | _ => return ()

def skipFraction : Reader Unit := do
  match ← get with
  | '.' :: rest =>
    set rest
    skipDigits
  | _ => return ()

def skipExponent : Reader Unit := do
  match ← get with
  | 'e' :: sign :: rest | 'E' :: sign :: rest =>
    set (if sign = '+' ∨ sign = '-' then rest else sign :: rest)
    skipDigits
  | ['e'] | ['E'] => refuse
  | _ => return ()

def skipMagnitude : Reader Unit := do
  match ← digits with
  | [] | '0' :: _ :: _ => refuse
  | _ =>
    skipFraction
    skipExponent

def skipScalar : Reader Unit := do
  match ← peek with
  | 'n' => word "null"
  | 't' => word "true"
  | 'f' => word "false"
  | '"' => skipString
  | '-' =>
    expect '-'
    skipMagnitude
  | _ => skipMagnitude

/-- A list or object that has been opened and not yet closed. -/
inductive Frame where
  | list
  | object

def Frame.close : Frame → Char
  | list => ']'
  | object => '}'

def Frame.skipKey : Frame → Reader Unit
  | list => return ()
  | object => do
    skipString
    mark ':'

mutual

/-- Passes over a value and then closes the frames. Each step takes at least one character, so
`fuel` is as much as there is text. -/
def skipFrom : Nat → List Frame → Reader Unit
  | 0, _ => refuse
  | fuel + 1, frames => do
    match ← peek with
    | '[' =>
      expect '['
      skipOpened fuel .list frames
    | '\x7b' =>
      expect '\x7b'
      skipOpened fuel .object frames
    | _ =>
      skipScalar
      skipAfter fuel frames

def skipOpened : Nat → Frame → List Frame → Reader Unit
  | 0, _, _ => refuse
  | fuel + 1, frame, frames => do
    if (← peek) = frame.close then
      expect frame.close
      skipAfter fuel frames
    else
      frame.skipKey
      skipFrom fuel (frame :: frames)

def skipAfter : Nat → List Frame → Reader Unit
  | _, [] => return ()
  | 0, _ => refuse
  | fuel + 1, frame :: frames => do
    if (← peek) = ',' then
      expect ','
      frame.skipKey
      skipFrom fuel (frame :: frames)
    else
      expect frame.close
      skipAfter fuel frames

end

def skipValue : Reader Unit := do
  skipFrom (3 * (← get).length + 1) []

/-- A keyword, or an object with the keyword as its only key and `null` as the value. -/
def keyword : Reader String := do
  match ← peek with
  | '\x7b' =>
    expect '\x7b'
    let text ← string
    mark ':'
    skipBlank
    word "null"
    mark '\x7d'
    return text
  | _ => string

def datum : Shape → Reader Datum
  | .flag => return .flag (← bool)
  | .keyword => return .keyword (← keyword)
  | .bytes n => return .bytes (← bytes n)

def value {α : Type} (codec : Codec α) : Reader α := do
  ofExcept (codec.parse (← datum codec.shape))

def entry {fields : List RecordField} (key : String) (gathered : Gathered fields) :
    Reader (Gathered fields) :=
  gathered.take key
    (fun field => do
      mark ':'
      value field.codec)
    (do
      mark ':'
      skipValue)

/-- The entries of an object from the next key on, and its end. Each takes at least one character,
so `fuel` is as much as there is text. -/
def entries {fields : List RecordField} : Nat → Gathered fields → Reader (Gathered fields)
  | 0, _ => refuse
  | fuel + 1, gathered => do
    let gathered ← entry (← string) gathered
    if (← peek) = ',' then
      expect ','
      entries fuel gathered
    else
      expect '\x7d'
      return gathered

def items : (fields : List RecordField) → Reader (Gathered fields)
  | [] => refuse
  | field :: fields => do
    let first ← value field.codec
    if (← peek) = ',' then
      expect ','
      return .cons (some first) (← items fields)
    else
      expect ']'
      return .cons (some first) (.empty fields)

/-- A record as an object, with the fields in any order and others besides, or as the list of its
fields in order. -/
def gathered (fields : List RecordField) : Reader (Gathered fields) := do
  match ← peek with
  | '\x7b' =>
    expect '\x7b'
    if (← peek) = '\x7d' then
      expect '\x7d'
      return .empty fields
    else entries (← get).length (.empty fields)
  | '[' =>
    expect '['
    if (← peek) = ']' then
      expect ']'
      return .empty fields
    else items fields
  | _ => refuse

def record {α : Type} (record : Record α) : Reader α := do
  ofExcept (record.join (← gathered record.fields))

def writeObject (fields : List (String × String)) : String :=
  "\x7b" ++ ",".intercalate (fields.map fun (name, value) => "\"" ++ name ++ "\":" ++ value) ++
    "\x7d"

def writeBytes (bytes : List UInt8) : String :=
  "[" ++ ",".intercalate (bytes.map fun byte => toString byte.toNat) ++ "]"

def writeDatum : Datum → String
  | .flag value => boolText value
  | .keyword text => "\"" ++ text ++ "\""
  | .bytes values => writeBytes values

def writeRecord (data : List (String × Datum)) : String :=
  writeObject (data.map fun (name, datum) => (name, writeDatum datum))

end Json

open Json Data

namespace FieldElement

variable {M : FieldParams}

def toJson (a : FieldElement M) : String := writeDatum (codec.encode a)

def ofJson (text : String) : Except Refusal (FieldElement M) := (Json.value codec).run text

end FieldElement

variable {C : CurveParams}

namespace JacobianPoint

def toJson (p : JacobianPoint C) : String := writeRecord (record.toData p)

def ofJson (text : String) : Except Refusal (JacobianPoint C) := (Json.record record).run text

end JacobianPoint

namespace AffinePoint

def toJson (a : AffinePoint C) : String := writeRecord (record.toData a)

def ofJson (text : String) : Except Refusal (AffinePoint C) := (Json.record record).run text

end AffinePoint

namespace Normalization

def toJson (normalization : Normalization) : String := writeDatum (codec.encode normalization)

def reader : Reader Normalization := Json.value codec

end Normalization

namespace Settings

def toJson (settings : Settings) : String := writeRecord (record.toData settings)

def ofJson (text : String) : Except Refusal Settings := (Json.record record).run text

end Settings

end PallasVesta
