import PallasVesta.Data

namespace PallasVesta.Json

open Data

abbrev Reader := StateT (List Char) (Except Refusal)

def refuse {α : Type} : Reader α := throw .malformed

def isBlank (c : Char) : Bool := c == ' ' || c == '\n' || c == '\t' || c == '\r'

def skipBlank : Reader Unit := modify (·.dropWhile isBlank)

def next : Reader Char := do
  match ← get with
  | [] => refuse
  | c :: rest =>
    set rest
    return c

/-- The next character past white space, which stays. -/
def peek : Reader Char := do
  skipBlank
  match ← get with
  | [] => refuse
  | c :: _ => return c

def expect (c : Char) : Reader Unit := do
  if (← next) = c then return () else refuse

def mark (c : Char) : Reader Unit := do
  skipBlank
  expect c

def word (text : String) : Reader Unit := text.toList.forM expect

def bool : Reader Bool := do
  match ← peek with
  | 't' =>
    word "true"
    return true
  | 'f' =>
    word "false"
    return false
  | _ => refuse

def digits : Reader (List Char) := do
  let text ← get
  set (text.dropWhile Char.isDigit)
  return text.takeWhile Char.isDigit

/-- A number from 0 to 255 without sign and superfluous zeros. -/
def byte : Reader UInt8 := do
  skipBlank
  match ← digits with
  | [] | '0' :: _ :: _ => refuse
  | digits =>
    let value := digits.foldl (fun value c => 10 * value + (c.toNat - '0'.toNat)) 0
    if value < 256 then return value.toUInt8 else refuse

def moreBytes : Nat → Reader (List UInt8)
  | 0 => do
    mark ']'
    return []
  | n + 1 => do
    mark ','
    let byte ← byte
    return byte :: (← moreBytes n)

/-- A list of exactly `n + 1` bytes. -/
def bytes (n : Nat) : Reader (List UInt8) := do
  mark '['
  let byte ← byte
  return byte :: (← moreBytes n)

def Reader.run {α : Type} (reader : Reader α) (text : String) : Except Refusal α := do
  let (value, rest) ← StateT.run reader text.toList
  if rest.all isBlank then return value else throw .malformed

inductive Piece where
  | char (value : Char)
  /-- The code unit of a `\u` escape. -/
  | unit (value : Nat)

def hexUnit? (a b c d : Char) : Option Nat := do
  let digits ← [a, b, c, d].mapM (digitValue? 16)
  return digits.foldl (fun unit digit => 16 * unit + digit) 0

def escaped? : Char → Option Char
  | '"' => some '"'
  | '\\' => some '\\'
  | '/' => some '/'
  | 'b' => some '\x08'
  | 'f' => some '\x0c'
  | 'n' => some '\n'
  | 'r' => some '\r'
  | 't' => some '\t'
  | _ => none

def pieces? : List Char → Option (List Piece × List Char)
  | [] => none
  | '"' :: rest => some ([], rest)
  | '\\' :: 'u' :: a :: b :: c :: d :: rest => do
    let unit ← hexUnit? a b c d
    let (pieces, rest) ← pieces? rest
    return (.unit unit :: pieces, rest)
  | '\\' :: c :: rest => do
    let value ← escaped? c
    let (pieces, rest) ← pieces? rest
    return (.char value :: pieces, rest)
  | c :: rest => do
    guard (' ' ≤ c ∧ c ≠ '\\')
    let (pieces, rest) ← pieces? rest
    return (.char c :: pieces, rest)

def isHighSurrogate (unit : Nat) : Bool := 0xd800 ≤ unit && unit < 0xdc00

def isLowSurrogate (unit : Nat) : Bool := 0xdc00 ≤ unit && unit < 0xe000

/-- The characters of the parts, if every high surrogate stands right before a low one and every
low one right after a high one. -/
def join? : List Piece → Option (List Char)
  | [] => some []
  | .char c :: rest => (c :: ·) <$> join? rest
  | .unit high :: .unit low :: rest =>
    if isHighSurrogate high then
      if isLowSurrogate low then
        (.ofNat (0x10000 + 0x400 * (high - 0xd800) + (low - 0xdc00)) :: ·) <$> join? rest
      else none
    else if isLowSurrogate high then none
    else (.ofNat high :: ·) <$> join? (.unit low :: rest)
  | .unit unit :: rest =>
    if isHighSurrogate unit || isLowSurrogate unit then none
    else (.ofNat unit :: ·) <$> join? rest

def pieces : Reader (List Piece) := do
  mark '"'
  match pieces? (← get) with
  | none => refuse
  | some (pieces, rest) =>
    set rest
    return pieces

def skipString : Reader Unit := do
  discard pieces

def string : Reader String := do
  match join? (← pieces) with
  | none => refuse
  | some text => return .ofList text

end PallasVesta.Json
