import CipherGraph.Json.Cause

/-! # Expected shapes

Descriptions of integers, named variants and records. A reader of texts and a decoder of values are made
from the same descriptions. -/

namespace CipherGraph.Json

/-- A range of integers with the name by which messages call it. -/
structure IntegerRange where
  name : String
  low : Int
  high : Int

def IntegerRange.contains (r : IntegerRange) (i : Int) : Bool :=
  r.low ≤ i && i ≤ r.high

def IntegerRange.word32 : IntegerRange :=
  ⟨"u32", 0, UInt32.size - 1⟩

def IntegerRange.word64 : IntegerRange :=
  ⟨"usize", 0, UInt64.size - 1⟩

def IntegerRange.signed64 : IntegerRange :=
  ⟨"i64", Int64.minValue.toInt, Int64.maxValue.toInt⟩

/-- One of several named alternatives: a name alone, or a name with an unsigned integer. -/
inductive Variant (α : Type) where
  | plain (name : String) (value : α)
  | counted (name : String) (make : UInt64 → α)

def Variant.name {α : Type} : Variant α → String
  | .plain name _ => name
  | .counted name _ => name

def Variant.find? {α : Type} (variants : List (Variant α)) (name : String) : Except Cause (Variant α) :=
  match variants.find? (·.name = name) with
  | some v => .ok v
  | none => .error (.unknownVariant name (variants.map (·.name)))

/-- A named part of a record. While the record is read, `σ` holds the parts known so far, and `step` is how
the part is taken in. -/
structure Field (σ step : Type) where
  name : String
  isKnown : σ → Bool
  step : step
  optional : Bool := false

structure Record (σ step α : Type) where
  name : String
  fields : List (Field σ step)
  blank : σ
  finish : σ → α

namespace Record

variable {σ step α : Type}

/-- What a record is called when something else stands in its place. -/
def expected (r : Record σ step α) : String :=
  "struct " ++ r.name

/-- What a record is called when a list in its place is too short. -/
def expectedLength (r : Record σ step α) : String :=
  r.expected ++ " with " ++ toString r.fields.length ++
    (if r.fields.length = 1 then " element" else " elements")

def field? (r : Record σ step α) (name : String) : Option (Field σ step) :=
  r.fields.find? (·.name = name)

/-- The first field in order that is needed and not known. -/
def missing? (r : Record σ step α) (s : σ) : Option (Field σ step) :=
  r.fields.find? fun f => !f.optional && !f.isKnown s

end Record

end CipherGraph.Json
