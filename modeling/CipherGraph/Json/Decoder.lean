import CipherGraph.Json.Basic
import CipherGraph.Json.Shape

/-! # Typed values from generic values

Decoders for the same shapes as the typed readers. A fault has no position and no path here. -/

namespace CipherGraph.Json

/-- A function from a generic value to a typed one, or to the cause of its refusal. -/
abbrev Decoder (α : Type) := Json → Except Cause α

/-- What a value is called where something else is expected. -/
def unexpected : Json → Unexpected
  | .null => .null
  | .bool value => .bool value
  | .number (.integer value) => .integer value
  | .number (.real value) => .real value
  | .string value => .string value
  | .array _ => .sequence
  | .object _ => .map

def mismatch {α : Type} (v : Json) (expected : String) : Except Cause α :=
  .error (.invalidType v.unexpected expected)

namespace Decoder

variable {α σ : Type}

def integer (range : IntegerRange) : Decoder Int
  | .number (.integer value) =>
    if range.contains value then .ok value else .error (.invalidInteger value range.name)
  | v => v.mismatch range.name

def word32 : Decoder UInt32 := fun v =>
  (integer .word32 v).map fun i => UInt32.ofNat i.toNat

def word64 : Decoder UInt64 := fun v =>
  (integer .word64 v).map fun i => UInt64.ofNat i.toNat

def unit : Decoder Unit
  | .null => .ok ()
  | v => v.mismatch "unit"

def list (item : Decoder α) : Decoder (List α)
  | .array items => items.mapM item
  | v => v.mismatch "a sequence"

/-- Refuses a list that is longer than the items taken from it. -/
def nothingLeft (length : Nat) (rest : List Json) : Except Cause Unit :=
  if rest.isEmpty then .ok () else .error (.invalidLength length "fewer elements in array")

/-- The next item of a list of fixed length, which has to be there. -/
def element (k : Nat) (expected : String) (d : Decoder α) : List Json → Except Cause (α × List Json)
  | [] => .error (.invalidLength k expected)
  | v :: rest => (d v).map fun a => (a, rest)

def triple {β γ : Type} (a : Decoder α) (b : Decoder β) (c : Decoder γ) : Decoder (α × β × γ)
  | .array items => do
    let expected := "a tuple of size 3"
    let (x, rest) ← element 0 expected a items
    let (y, rest) ← element 1 expected b rest
    let (z, rest) ← element 2 expected c rest
    nothingLeft items.length rest
    return (x, y, z)
  | v => v.mismatch "a tuple of size 3"

def payload : Variant α → Decoder α
  | .plain _ value, v => (unit v).map fun _ => value
  | .counted _ make, v => (word64 v).map make

/-- One of several alternatives: its name, or an object with its name as the only key. -/
def variant (variants : List (Variant α)) : Decoder α
  | .string name =>
    match Variant.find? variants name with
    | .error cause => .error cause
    | .ok (.plain _ value) => .ok value
    | .ok (.counted ..) => .error (.invalidType .unitVariant "newtype variant")
  | .object [(name, v)] =>
    match Variant.find? variants name with
    | .error cause => .error cause
    | .ok variant => payload variant v
  | .object _ => .error .severalKeys
  | v => v.mismatch "string or map"

abbrev Step (σ : Type) := σ → Decoder σ

def recordMember (r : Record σ (Step σ) α) (s : σ) (member : String × Json) : Except Cause σ :=
  match r.field? member.1 with
  | none => .ok s
  | some f => if f.isKnown s then .error (.duplicateField f.name) else f.step s member.2

/-- The parts of a record given as a list, from place `k` on, with the items that are left. -/
def recordItems (r : Record σ (Step σ) α) (k : Nat) :
    List (Field σ (Step σ)) → σ → List Json → Except Cause (σ × List Json)
  | [], s, rest => .ok (s, rest)
  | f :: fields, s, [] =>
    if f.optional then recordItems r (k + 1) fields s [] else .error (.invalidLength k r.expectedLength)
  | f :: fields, s, v :: rest => do recordItems r (k + 1) fields (← f.step s v) rest

/-- A record: an object with the parts as members, or a list with the parts in order. -/
def record (r : Record σ (Step σ) α) : Decoder α
  | .object members => do
    let s ← members.foldlM (recordMember r) r.blank
    match r.missing? s with
    | some f => .error (.missingField f.name)
    | none => return r.finish s
  | .array items => do
    let (s, rest) ← recordItems r 0 r.fields r.blank items
    nothingLeft items.length rest
    return r.finish s
  | v => v.mismatch r.expected

end Decoder

end CipherGraph.Json
