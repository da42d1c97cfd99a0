import CipherGraph.Decimal.Shortest

/-! # Numbers as text

Whole numbers in decimal digits, and finite binary64 numbers with the fewest digits that read back:
positional for decimal exponents from -5 to 15 and with at least one digit after the point, otherwise with
a signed exponent. -/

namespace CipherGraph.Decimal

def ofNat (n : Nat) : List Char :=
  Nat.toDigits 10 n

/-- An integer in decimal digits, with a minus sign if it is negative. -/
def ofInt : Int → List Char
  | .ofNat n => ofNat n
  | .negSucc n => '-' :: ofNat (n + 1)

/-- The decimal exponents of the first digit that are written without an exponent. -/
def isPositional (exponent : Int) : Bool :=
  -5 ≤ exponent && exponent ≤ 15

def positional (digits : List Char) (exponent : Int) : List Char :=
  if exponent < 0 then
    '0' :: '.' :: (List.replicate (-exponent - 1).toNat '0' ++ digits)
  else
    let whole := exponent.toNat + 1
    let fraction := digits.drop whole
    digits.take whole ++ List.replicate (whole - digits.length) '0' ++
      '.' :: (if fraction.isEmpty then ['0'] else fraction)

def exponential (digits : List Char) (exponent : Int) : List Char :=
  let power := 'e' :: (if exponent < 0 then '-' else '+') :: ofNat exponent.natAbs
  match digits with
  | [] => []
  | [d] => d :: power
  | d :: rest => d :: '.' :: rest ++ power

def ofFloat (x : Float) : List Char :=
  let s := shortest x
  let digits := ofNat s.digits
  let exponent := s.exponent + Int.ofNat digits.length - 1
  let magnitude := if isPositional exponent then positional digits exponent else exponential digits exponent
  if x.toBits >>> 63 = 1 then '-' :: magnitude else magnitude

end CipherGraph.Decimal
