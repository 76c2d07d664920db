import PallasVesta.Text

namespace PallasVesta

inductive ArithmeticError where
  | overflow (bytes : Nat)
  | uninvertible
  | nonCanonical
  | length (expected actual : Nat)
  | invalidNumeral
  | invalidRadix (radix : Nat)
  | domainTooLarge (log2Size : Nat)
  | divisionByZero
deriving DecidableEq, Repr

namespace ArithmeticError

def message : ArithmeticError → String
  | overflow bytes => s!"integer does not fit into {bytes} bytes"
  | uninvertible => "element has no multiplicative inverse"
  | nonCanonical => "integer is not a canonical field element"
  | .length expected actual => s!"expected {expected} bytes, got {actual}"
  | invalidNumeral => "invalid numeral string"
  | invalidRadix radix => s!"unsupported numeral base {radix}"
  | domainTooLarge log2Size =>
    s!"log2 size of evaluation domain must be in [0, 32], got {log2Size}"
  | divisionByZero => "division by zero"

def name : ArithmeticError → String
  | overflow _ => "Overflow"
  | uninvertible => "Uninvertible"
  | nonCanonical => "NonCanonical"
  | .length _ _ => "Length"
  | invalidNumeral => "InvalidNumeral"
  | invalidRadix _ => "InvalidRadix"
  | domainTooLarge _ => "DomainTooLarge"
  | divisionByZero => "DivisionByZero"

def fields : ArithmeticError → List (String × Nat)
  | overflow bytes => [("length", bytes)]
  | .length expected actual => [("expected", expected), ("actual", actual)]
  | invalidRadix radix => [("radix", radix)]
  | domainTooLarge log2Size => [("log2_size", log2Size)]
  | _ => []

def debugText (cause : ArithmeticError) : String :=
  Layout.inline.record cause.name (cause.fields.map fun (field, value) => (field, toString value))

end ArithmeticError

end PallasVesta
