/-! # The fewest digits that read back

A finite binary64 number stands for every real number that rounds to it. Of the decimal numbers among
these, `shortest` takes one with the fewest digits, and of several the one nearest to the number. -/

namespace CipherGraph.Decimal

/-- The magnitude `significand * 2 ^ exponent` of a finite binary64 number. -/
structure Binary where
  significand : Nat
  exponent : Int
  /-- Whether the next number below is at half the distance of the next one above. -/
  narrowBelow : Bool

/-- The magnitude `digits * 10 ^ exponent`. -/
structure Scientific where
  digits : Nat
  exponent : Int

/-- The magnitude of a finite number, taken from its bits. -/
def Binary.ofFloat (x : Float) : Binary :=
  let fraction := (x.toBits &&& 0xfffffffffffff).toNat
  let biased := (x.toBits >>> 52 &&& 0x7ff).toNat
  if biased = 0 then ⟨fraction, -1074, false⟩
  else ⟨fraction + 1 <<< 52, Int.ofNat biased - 1075, fraction = 0 && biased != 1⟩

/-- The interval of reals that round to a number, as fractions with one denominator. -/
structure Interval where
  low : Nat
  value : Nat
  high : Nat
  denominator : Nat
  closed : Bool

/-- The interval of a number. -/
def Binary.interval (b : Binary) : Interval :=
  let up := 1 <<< (b.exponent - 2).toNat
  let m := 4 * b.significand
  -- The ends lie between two numbers: they round to the one whose significand is even.
  ⟨(m - if b.narrowBelow then 1 else 2) * up, m * up, (m + 2) * up, 1 <<< (2 - b.exponent).toNat,
    b.significand % 2 = 0⟩

def tenTo (n : Nat) : Nat :=
  Nat.pow 10 n

def Interval.holds (i : Interval) (c : Nat) (k : Int) : Bool :=
  let x := c * tenTo k.toNat * i.denominator
  let unit := tenTo (-k).toNat
  if i.closed then i.low * unit ≤ x && x ≤ i.high * unit else i.low * unit < x && x < i.high * unit

/-- The greatest `c` with `c * 10 ^ k` not above the number. -/
def Interval.floorAt (i : Interval) (k : Int) : Nat :=
  i.value * tenTo (-k).toNat / (i.denominator * tenTo k.toNat)

/-- Whether `c * 10 ^ k` is nearer to the number than `(c + 1) * 10 ^ k`, a tie going to the even one. -/
def Interval.lowerNearer (i : Interval) (c : Nat) (k : Int) : Bool :=
  let twice := 2 * i.value * tenTo (-k).toNat
  let middle := (2 * c + 1) * tenTo k.toNat * i.denominator
  twice < middle || (twice == middle && c % 2 == 0)

/-- The point of the grid of step `10 ^ k` that is in the interval and nearest to the number. -/
def Interval.onGrid? (i : Interval) (k : Int) : Option Nat :=
  let c := i.floorAt k
  match i.holds c k, i.holds (c + 1) k with
  | true, true => some (if i.lowerNearer c k then c else c + 1)
  | true, false => some c
  | false, true => some (c + 1)
  | false, false => none

/-- The greatest `p` with `10 ^ p` not above a positive number. -/
def Interval.magnitude (i : Interval) : Int :=
  let whole := i.value / i.denominator
  if whole = 0 then
    match (List.range 400).find? fun j => i.denominator ≤ i.value * tenTo (j + 1) with
    | some j => -Int.ofNat (j + 1)
    | none => -400
  else Int.ofNat (Nat.toDigits 10 whole).length - 1

/-- The same magnitude without zeros at the end of its digits. -/
def Scientific.trimmed (s : Scientific) : Scientific :=
  let zeros := ((Nat.toDigits 10 s.digits).reverse.takeWhile (· == '0')).length
  if s.digits = 0 then ⟨0, 0⟩ else ⟨s.digits / tenTo zeros, s.exponent + Int.ofNat zeros⟩

/-- The shortest decimal magnitude that rounds to a finite number. -/
def shortest (x : Float) : Scientific :=
  let b := Binary.ofFloat x
  if b.significand = 0 then ⟨0, 0⟩
  else
    let i := b.interval
    -- Seventeen digits always read back.
    let steps := (List.range 17).map fun d => i.magnitude - Int.ofNat d
    match steps.findSome? fun k => (i.onGrid? k).map fun c => (⟨c, k⟩ : Scientific) with
    | some s => s.trimmed
    | none => ⟨i.value / i.denominator, 0⟩

end CipherGraph.Decimal
