import CipherGraph.Json.Shape
import CipherGraph.Json.Tree

/-! # Typed values from text

Readers for integers, texts, lists, named variants and records. Where a value has another kind than the one
that is expected, it is read if it is a scalar and then named in the fault. -/

namespace CipherGraph.Json.Reader

variable {α σ : Type}

/-- The kind of a value that is out of place. A list or an object is not entered. -/
def unexpected (ch : Char) : Reader Unexpected := do
  if ch = '[' then return .sequence
  else if ch = '\x7b' then return .map
  else
    match ← scalar ch with
    | .bool value => return .bool value
    | .number (.integer value) => return .integer value
    | .number (.real value) => return .real value
    | .string value => return .string value
    | _ => return .null

/-- Refuses the value that begins with a character, which is next. -/
def mismatch (ch : Char) (expected : String) : Reader α := do
  failHere (.invalidType (← unexpected ch) expected)

def inRange (range : IntegerRange) : Number → Reader Int
  | .real value => failHere (.invalidType (.real value) range.name)
  | .integer value =>
    if range.contains value then return value else failHere (.invalidInteger value range.name)

def integer (range : IntegerRange) : Reader Int := do
  let ch ← start
  if beginsNumber ch then inRange range (← number) else mismatch ch range.name

def word32 : Reader UInt32 := do
  return UInt32.ofNat (← integer .word32).toNat

def word64 : Reader UInt64 := do
  return UInt64.ofNat (← integer .word64).toNat

def signed64 : Reader Int64 := do
  return Int64.ofInt (← integer .signed64)

def text : Reader String := do
  let ch ← start
  if ch = '"' then
    skip
    string
  else mismatch ch "a string"

def unit : Reader Unit := do
  let ch ← start
  if ch = 'n' then
    skip
    literal ['u', 'l', 'l']
  else mismatch ch "unit"

def list (item : Reader α) : Reader (List α) := do
  let ch ← start
  if ch = '[' then enclosed (items item) closeList else mismatch ch "a sequence"

def optional (r : Reader α) : Reader (Option α) := do
  skipBlanks
  if (← peek) = some 'n' then
    skip
    literal ['u', 'l', 'l']
    return none
  else some <$> r

/-- An item of a list of fixed length at place `k`, which has to be there. -/
def element (k : Nat) (expected : String) (r : Reader α) : Reader α := do
  if ← hasItem (k == 0) then within (.index k) r else failPending (.invalidLength k expected)

def triple {β γ : Type} (a : Reader α) (b : Reader β) (c : Reader γ) : Reader (α × β × γ) := do
  let expected := "a tuple of size 3"
  let elements : Reader (α × β × γ) := do
    let x ← element 0 expected a
    let y ← element 1 expected b
    let z ← element 2 expected c
    return (x, y, z)
  let ch ← start
  if ch = '[' then enclosed elements closeList else mismatch ch expected

/-! ### Variants -/

/-- The alternative that the text names. A wrong name is a fault after the name. -/
def variantNamed (variants : List (Variant α)) (name : String) : Reader (Variant α) := do
  match Variant.find? variants name with
  | .ok v => return v
  | .error cause => failHere cause

def payload : Variant α → Reader α
  | .plain _ value => do
    unit
    return value
  | .counted _ make => make <$> word64

/-- One of several alternatives: its name, or an object with its name as the only key. -/
def variant (variants : List (Variant α)) : Reader α := do
  let ch ← start
  if ch = '"' then
    skip
    match ← variantNamed variants (← string) with
    | .plain _ value => return value
    | .counted .. => failPending (.invalidType .unitVariant "newtype variant")
  else if ch = '\x7b' then
    skip
    skipBlanks
    match ← peek with
    | none => failAhead .endInObject
    | some ch =>
      if ch = '\x7d' then failAhead .expectedValue
      else if ch ≠ '"' then failAhead .keyNotString
      else
        skip
        let v ← variantNamed variants (← string)
        colon
        let a ← payload v
        skipBlanks
        match ← peek with
        | none => failHere .endInObject
        | some ch =>
          if ch = '\x7d' then
            skip
            return a
          else failHere .expectedValue
  else failAhead .expectedValue

/-! ### Records -/

abbrev Step (σ : Type) := σ → Reader σ

/-- A key and the value after it: one of the record's own parts, each at most once, or some other value,
which is not kept. -/
def recordMember (r : Record σ (Step σ) α) (s : σ) : Reader σ := do
  let k ← key
  match r.field? k with
  | none =>
    colon
    within (.key k) ignore
    return s
  | some f =>
    if f.isKnown s then failPending (.duplicateField f.name)
    else
      colon
      within (.key k) (f.step s)

def recordDone (r : Record σ (Step σ) α) (s : σ) : Reader α :=
  match r.missing? s with
  | some f => failPending (.missingField f.name)
  | none => return r.finish s

/-- The parts of a record given as a list, from place `k` on. -/
def recordItems (r : Record σ (Step σ) α) (k : Nat) : List (Field σ (Step σ)) → σ → Reader σ
  | [], s => return s
  | f :: rest, s => do
    if ← hasItem (k == 0) then
      let s ← within (.index k) (f.step s)
      recordItems r (k + 1) rest s
    else if f.optional then recordItems r (k + 1) rest s
    else failPending (.invalidLength k r.expectedLength)

/-- A record: an object with the parts as members, or a list with the parts in order. -/
def record (r : Record σ (Step σ) α) : Reader α := do
  let ch ← start
  if ch = '\x7b' then
    enclosed (do recordDone r (← members (recordMember r) r.blank)) closeObject
  else if ch = '[' then
    enclosed (r.finish <$> recordItems r 0 r.fields r.blank) closeList
  else mismatch ch r.expected

end CipherGraph.Json.Reader
