import CipherGraph.Decimal.Digit

/-! # Integers from text

Strict reading of decimal integers: an optional sign, then digits only, of which there has to be one. Zeros
in front are allowed. -/

namespace CipherGraph.Decimal

def natural? (cs : List Char) : Option Nat :=
  if !cs.isEmpty && cs.all isDigit then some (ofDigits (cs.map digitValue)) else none

/-- A number that may have a plus sign and is at most `max`. -/
def unsigned? (max : Nat) (s : String) : Option Nat :=
  let digits := match s.toList with
    | '+' :: rest => rest
    | cs => cs
  (natural? digits).filter (· ≤ max)

/-- An integer that may have a sign and is in the range of 64 bits. -/
def signed64? (s : String) : Option Int64 :=
  let word (i : Int) := if Int64.minValue.toInt ≤ i ∧ i ≤ Int64.maxValue.toInt then some (Int64.ofInt i) else none
  match s.toList with
  | '-' :: rest => (natural? rest).bind fun n => word (-n)
  | '+' :: rest => (natural? rest).bind fun n => word n
  | cs => (natural? cs).bind fun n => word n

end CipherGraph.Decimal
