import CipherGraph.Json.Typed
import CipherGraph.Program.Basic
import CipherGraph.Session.Overrides

/-! # Bodies of requests

The three bodies that the service takes. The programs in the body that creates a session are generic values
here; they are decoded only after the whole body was read. -/

namespace CipherGraph
open Json Json.Reader

structure LineClick where
  line : Int64
  deriving DecidableEq, Repr

structure NodeSelection where
  nodes : List NodeId
  deriving DecidableEq, Repr

/-- A session that is to be created. -/
structure SessionDraft where
  name : String
  source : String
  program : Json
  lines : Overrides Json

structure LineClickParts where
  line : Option Int64 := none

structure NodeSelectionParts where
  nodes : Option (Option (List NodeId)) := none

/-- The parts of a draft that are known. -/
structure SessionDraftParts where
  name : Option String := none
  source : Option String := none
  program : Option Json := none
  lines : Option (Overrides Json) := none

def lineClickRecord : Record LineClickParts (Step LineClickParts) LineClick where
  name := "LineClickRequest"
  fields := [⟨"line", (·.line.isSome), fun s => do return { s with line := some (← signed64) }, false⟩]
  blank := {}
  finish s := ⟨s.line.getD 0⟩

def nodeSelectionRecord : Record NodeSelectionParts (Step NodeSelectionParts) NodeSelection where
  name := "NodeSelectionRequest"
  fields := [⟨"node_ids", (·.nodes.isSome),
    fun s => do return { s with nodes := some (← Reader.optional (Reader.list word32)) }, true⟩]
  blank := {}
  -- A selection without nodes and one of `null` both select nothing.
  finish s := ⟨(s.nodes.getD none).getD []⟩

/-- A key that is an integer. A fault after the digits knows the integer. -/
def lineKey : Reader Int64 := do
  skip
  match ← peek with
  | some ch =>
    if beginsNumber ch then
      match ← within .unknown number with
      | .real value => within .unknown (failHere (.invalidType (.real value) IntegerRange.signed64.name))
      | .integer value =>
        within (.key (String.ofList (Decimal.ofInt value))) do
          let line ← inRange .signed64 (.integer value)
          if (← peek) = some '"' then
            skip
            return Int64.ofInt line
          else failAhead .expectedQuote
    else within .unknown (failHere .expectedNumericKey)
  | none => within .unknown (failHere .expectedNumericKey)

/-- A line, a colon and a value nested up to `depth`, put before the members already read. -/
def lineMember (depth : Nat) (read : List (Int64 × Json)) : Reader (List (Int64 × Json)) := do
  let line ← lineKey
  colon
  let v ← within (.key (String.ofList (Decimal.ofInt line.toInt))) (value depth)
  return (line, v) :: read

def lineValues (depth : Nat) : Reader (Overrides Json) := do
  let ch ← start
  if ch = '\x7b' then
    return Overrides.ofList (← enclosed (members (lineMember depth) []) closeObject).reverse
  else mismatch ch "a map"

def sessionDraftRecord : Record SessionDraftParts (Step SessionDraftParts) SessionDraft where
  name := "CreateSessionRequest"
  fields := [
    ⟨"name", (·.name.isSome), fun s => do return { s with name := some (← text) }, false⟩,
    ⟨"source_code", (·.source.isSome), fun s => do return { s with source := some (← text) }, true⟩,
    -- The programs stand one and two brackets deep, which is taken off what they may nest themselves.
    ⟨"graph", (·.program.isSome),
      fun s => do return { s with program := some (← value (documentDepth - 1)) }, false⟩,
    ⟨"lines", (·.lines.isSome),
      fun s => do return { s with lines := some (← lineValues (documentDepth - 2)) }, true⟩]
  blank := {}
  finish s := ⟨s.name.getD "", s.source.getD "", s.program.getD .null, s.lines.getD []⟩

end CipherGraph
