import CipherGraph.Text.Utf8

/-! # JSON values

The generic value that a JSON document stands for. An object lists its members in order; `canonical` gives
the form in which keys are distinct and sorted by their bytes, the last member of a repeated key being the
one that counts. -/

namespace CipherGraph

/-- A number: written without point and exponent and small enough for a machine word, or not. -/
inductive Number where
  | integer (value : Int)
  | real (value : Float)
  deriving Repr, BEq, Inhabited

inductive Json where
  | null
  | bool (value : Bool)
  | number (value : Number)
  | string (value : String)
  | array (items : List Json)
  | object (members : List (String × Json))
  deriving Repr, BEq, Inhabited

namespace Json

/-- A member put into a list sorted by key, in place of one with the same key. -/
def insertMember (key : String) (value : Json) : List (String × Json) → List (String × Json)
  | [] => [(key, value)]
  | (k, v) :: rest =>
    if k = key then (key, value) :: rest
    else if Text.precedes key k then (key, value) :: (k, v) :: rest
    else (k, v) :: insertMember key value rest

/-- The members sorted by key, the last one of each key kept. -/
def sortMembers (members : List (String × Json)) : List (String × Json) :=
  members.foldl (fun sorted member => insertMember member.1 member.2 sorted) []

mutual

/-- The value with the members of every object sorted by key and no key repeated. -/
def canonical : Json → Json
  | .array items => .array (canonicalItems items)
  | .object members => .object (sortMembers (canonicalMembers members))
  | .null => .null
  | .bool value => .bool value
  | .number value => .number value
  | .string value => .string value

def canonicalItems : List Json → List Json
  | [] => []
  | item :: rest => canonical item :: canonicalItems rest

def canonicalMembers : List (String × Json) → List (String × Json)
  | [] => []
  | (key, value) :: rest => (key, canonical value) :: canonicalMembers rest

end

def ofNat (n : Nat) : Json :=
  .number (.integer n)

def ofInt (i : Int) : Json :=
  .number (.integer i)

end Json

end CipherGraph
