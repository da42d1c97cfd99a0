import CipherGraph.Decimal.Approximate
import CipherGraph.Decimal.Digit
import CipherGraph.Json.Basic
import CipherGraph.Json.Reader
import CipherGraph.Text.Hexadecimal

/-! # Literals, strings and numbers

The readers of the parts of a JSON text that hold no other values. Each comes in a form that gives the value
and, where the two differ, in a form that only goes past it and refuses less. -/

namespace CipherGraph.Json.Reader
open Decimal

/-! ### Literals -/

def literal : List Char → Reader Unit
  | [] => return ()
  | letter :: rest => do
    match ← peek with
    | none => failHere .endInValue
    | some ch =>
      if ch = letter then
        skip
        literal rest
      else failAhead .expectedLiteral

/-! ### Strings -/

/-- The four digits of a hexadecimal escape. -/
def hexEscape : Reader Nat := do
  let c ← get
  match (c.rest.take 4).mapM Text.hexValue? with
  | some [a, b, d, e] =>
    set c.next.next.next.next
    return ((a * 16 + b) * 16 + d) * 16 + e
  | _ =>
    -- Four bytes are taken before the digits are looked at, so the fault comes after them, or at the end.
    let size := (String.ofList (c.rest.take 4)).utf8ByteSize
    throw ⟨if size < 4 then .endInString else .invalidEscape, .known (c.position.afterBytes 4 c.rest), []⟩

/-- A character that the second half of a surrogate pair needs before its digits. -/
def pairMark (mark : Char) : Reader Unit := do
  match ← peek with
  | none => failHere .endInString
  | some ch => if ch = mark then skip else failAhead .endOfHexEscape

/-- The character of a hexadecimal escape, which may go on with the second half of a surrogate pair. -/
def unicodeEscape : Reader Char := do
  let high ← hexEscape
  if 0xDC00 ≤ high ∧ high ≤ 0xDFFF then failHere .loneSurrogate
  else if 0xD800 ≤ high ∧ high ≤ 0xDBFF then
    pairMark '\\'
    pairMark 'u'
    let low ← hexEscape
    if 0xDC00 ≤ low ∧ low ≤ 0xDFFF then
      return Char.ofNat (0x10000 + (high - 0xD800) * 0x400 + (low - 0xDC00))
    else failHere .loneSurrogate
  else return Char.ofNat high

def simpleEscape? (ch : Char) : Option Char :=
  match ch with
  | '"' => some '"'
  | '\\' => some '\\'
  | '/' => some '/'
  | 'b' => some '\x08'
  | 'f' => some '\x0c'
  | 'n' => some '\n'
  | 'r' => some '\r'
  | 't' => some '\t'
  | _ => none

/-- An escape, its backslash being read. -/
def escape (hexadecimal : Reader Char) : Reader Char := do
  match ← peek with
  | none => failHere .endInString
  | some ch =>
    match simpleEscape? ch with
    | some meant =>
      skip
      return meant
    | none =>
      if ch = 'u' then
        skip
        hexadecimal
      else failAhead .invalidEscape

/-- The next character of a string, or nothing at its closing quote. -/
def stringPiece : Reader (Option Char) := do
  match ← peek with
  | none => failHere .endInString
  | some ch =>
    if ch = '"' then
      skip
      return none
    else if ch = '\\' then
      skip
      return some (← escape unicodeEscape)
    else if ch.toNat < 0x20 then failAhead .controlCharacter
    else
      skip
      return some ch

/-- The rest of a string, with the characters already read in reverse. The first argument bounds their
number. -/
def stringFrom : Nat → List Char → Reader String
  | 0, read => return String.ofList read.reverse
  | bound + 1, read => do
    match ← stringPiece with
    | none => return String.ofList read.reverse
    | some ch => stringFrom bound (ch :: read)

def string : Reader String := do
  stringFrom ((← get).size + 1) []

/-- Goes past one character of a string, and says whether the string goes on. -/
def skipPiece : Reader Bool := do
  match ← peek with
  | none => failHere .endInString
  | some ch =>
    if ch = '"' then
      skip
      return false
    else if ch = '\\' then
      skip
      let _ ← escape (do
        -- Whether the halves of surrogate pairs fit is not looked at.
        let _ ← hexEscape
        return ' ')
      return true
    else if ch.toNat < 0x20 then failHere .controlCharacter
    else
      skip
      return true

/-- Goes past the rest of a string. The argument bounds the number of its characters. -/
def skipStringFrom : Nat → Reader Unit
  | 0 => return ()
  | bound + 1 => do
    if ← skipPiece then skipStringFrom bound else return ()

def skipString : Reader Unit := do
  skipStringFrom ((← get).size + 1)

/-- A key, its opening quote being next. -/
def key : Reader String :=
  within .unknown do
    skip
    string

/-! ### Numbers -/

structure NumberText where
  negative : Bool
  whole : List Nat
  fraction : Option (List Nat)
  exponent : Option (Bool × List Nat)

def digits : Reader (List Nat) := do
  let c ← get
  set (c.skipWhile isDigit)
  return (c.takeWhile isDigit).map digitValue

/-- The run of digits that is next, of which there has to be one. -/
def someDigits (atEnd : Cause) : Reader (List Nat) := do
  match ← peek with
  | none => failAhead atEnd
  | some ch => if isDigit ch then digits else failAhead .invalidNumber

/-- The digits before the point. A zero stands alone. -/
def wholeDigits (atEnd : Cause) : Reader (List Nat) := do
  if (← peek) = some '0' then
    skip
    match ← peek with
    | none => return [0]
    | some ch => if isDigit ch then failAhead .invalidNumber else return [0]
  else someDigits atEnd

/-- The parts of a number. The argument is the cause when the text ends where a digit is needed. -/
def numberText (atEnd : Cause) : Reader NumberText := do
  let negative := (← peek) = some '-'
  if negative then skip
  let whole ← wholeDigits atEnd
  let fraction ←
    if (← peek) = some '.' then
      skip
      some <$> someDigits atEnd
    else pure none
  let mark ← peek
  if mark = some 'e' ∨ mark = some 'E' then
    skip
    let sign ← peek
    if sign = some '+' ∨ sign = some '-' then skip
    let size ← someDigits atEnd
    return ⟨negative, whole, fraction, some (sign = some '-', size)⟩
  else return ⟨negative, whole, fraction, none⟩

/-- The largest decimal exponent that is taken as it stands. -/
def largestExponent : Nat :=
  Int32.maxValue.toInt.toNat

/-- How many digits make a number too large for an exponent, counting those before. -/
def excessAt? (value read : Nat) : List Nat → Option Nat
  | [] => none
  | d :: rest =>
    if largestExponent < value * 10 + d then some (read + 1)
    else excessAt? (value * 10 + d) (read + 1) rest

def signed (negative : Bool) (x : Float) : Number :=
  .real (if negative then -x else x)

/-- The integer that some digits without point and exponent stand for, if a word of 64 bits holds it:
unsigned without a minus sign, signed and not zero with one. -/
def wholeNumber? (negative : Bool) (ds : List Nat) : Option Int :=
  let n := ofDigits ds
  if negative then if 0 < n ∧ Int64.minValue.toInt ≤ -(n : Int) then some (-(n : Int)) else none
  else if n < UInt64.size then some n else none

/-- The value of a number that is read. -/
def evaluate (t : NumberText) : Reader Number := do
  let scaled := (Scaled.addWhole {} t.whole).addFraction (t.fraction.getD [])
  let finish (s : Scaled) : Reader Number :=
    match s.toFloat? with
    | some x => return signed t.negative x
    | none => failHere .numberOutOfRange
  match t.exponent with
  | none =>
    if t.fraction.isSome then finish scaled
    else
      match wholeNumber? t.negative t.whole with
      | some value => return .integer value
      | none => finish scaled
  | some (down, size) =>
    match excessAt? 0 0 size with
    | some read =>
      if scaled.significand = 0 ∨ down then return signed t.negative 0.0
      else
        -- The fault is placed after the digit that makes the exponent too large.
        let p := (← get).position
        throw ⟨.numberOutOfRange, .known ⟨p.line, p.column - (size.length - read)⟩, []⟩
    | none =>
      let shift : Int := ofDigits size
      finish { scaled with exponent := if down then scaled.exponent - shift else scaled.exponent + shift }

def number : Reader Number := do
  evaluate (← numberText .endInValue)

/-- Goes past a number, however large it is. -/
def skipNumber : Reader Unit := do
  let _ ← numberText .invalidNumber

def beginsNumber (ch : Char) : Bool :=
  ch == '-' || isDigit ch

end CipherGraph.Json.Reader
