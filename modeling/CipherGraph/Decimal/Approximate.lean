/-! # Decimal texts as binary64 numbers

The quick conversion: the digits are collected in a significand below `2 ^ 64`, digits that do not fit
only move the decimal exponent, and one multiplication or division by a power of ten gives the number. It
can differ from the nearest number in the last bit. -/

namespace CipherGraph.Decimal

/-- A significand below `2 ^ 64` and the power of ten it is multiplied with. -/
structure Scaled where
  significand : Nat := 0
  exponent : Int := 0

def Scaled.fits (s : Scaled) (digit : Nat) : Bool :=
  s.significand * 10 + digit < UInt64.size

/-- Takes in digits before the point. -/
def Scaled.addWhole (s : Scaled) : List Nat → Scaled
  | [] => s
  | d :: rest =>
    if s.fits d then addWhole { s with significand := s.significand * 10 + d } rest
    -- From the first digit that does not fit, each one adds to the exponent, also if it would fit again.
    else { s with exponent := s.exponent + (rest.length + 1) }

/-- Takes in digits after the point. From the first digit that does not fit, all are dropped. -/
def Scaled.addFraction (s : Scaled) : List Nat → Scaled
  | [] => s
  | d :: rest =>
    if s.fits d then addFraction ⟨s.significand * 10 + d, s.exponent - 1⟩ rest
    else s

def powerOfTen (n : Nat) : Float :=
  Float.ofScientific 1 false n

/-- Divides by `10 ^ n`, in steps that a power of ten can have. -/
def divide (x : Float) (n : Nat) : Float :=
  if n ≤ 308 then x / powerOfTen n
  else if x == 0.0 then x
  else divide (x / powerOfTen 308) (n - 308)
termination_by n

/-- The number, or nothing if its magnitude is beyond the range of finite numbers. -/
def Scaled.toFloat? (s : Scaled) : Option Float :=
  let x := s.significand.toUInt64.toFloat
  if s.exponent < 0 then some (divide x s.exponent.natAbs)
  else if 308 < s.exponent then if s.significand = 0 then some x else none
  else
    let y := x * powerOfTen s.exponent.toNat
    if y.isInf then none else some y

end CipherGraph.Decimal
