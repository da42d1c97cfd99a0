import CipherGraph.Json.Decoder
import CipherGraph.Json.Printer
import CipherGraph.Json.Typed
import CipherGraph.Program.Basic
import CipherGraph.Wire.Vocabulary

/-! # Programs on the wire

A program is an object with its nodes and its edges: a node an object with its operation, an edge the list
of its source, its target and its role. There is one writer and there are two ways to read: from a text, where
faults have positions, and from a generic value. Ends of edges are not looked at here. -/

namespace CipherGraph
open Json

/-! ### Writing -/

def Operation.nodeToJson (op : Operation) : Json :=
  .object [("operation", op.toJson)]

def Edge.toJson (e : Edge) : Json :=
  .array [.ofNat e.source.toNat, .ofNat e.target.toNat, e.role.toJson]

def Program.toJson (p : Program) : Json :=
  .object [("nodes", .array (p.nodes.map (·.nodeToJson))), ("edges", .array (p.edges.map (·.toJson)))]

/-! ### Records -/

/-- The parts of a node that are known. -/
structure NodeParts where
  operation : Option Operation := none

/-- The parts of a program that are known. -/
structure ProgramParts where
  nodes : Option (List Operation) := none
  edges : Option (List Edge) := none

def nodeRecord {step : Type} (operation : step) : Record NodeParts step Operation where
  name := "ProgramNode"
  fields := [⟨"operation", (·.operation.isSome), operation, false⟩]
  blank := {}
  finish s := s.operation.getD default

def programRecord {step : Type} (nodes edges : step) : Record ProgramParts step Program where
  name := "ProgramGraph"
  fields := [⟨"nodes", (·.nodes.isSome), nodes, false⟩, ⟨"edges", (·.edges.isSome), edges, false⟩]
  blank := {}
  finish s := ⟨s.nodes.getD [], s.edges.getD []⟩

def Edge.ofTriple (parts : NodeId × NodeId × Role) : Edge :=
  ⟨parts.1, parts.2.1, parts.2.2⟩

/-! ### Reading from a text -/

namespace Reader
open Json.Reader

def operation : Reader Operation :=
  variant Operation.variants

def role : Reader Role :=
  variant Role.variants

def edge : Reader Edge :=
  Edge.ofTriple <$> triple word32 word32 role

def node : Reader Operation :=
  record (nodeRecord fun s => do return { s with operation := some (← operation) })

def program : Reader Program :=
  record (programRecord (fun s => do return { s with nodes := some (← list node) })
    (fun s => do return { s with edges := some (← list edge) }))

end Reader

def Program.ofText (text : String) : Except ProgramError Program :=
  match Json.Reader.document Reader.program text with
  | .ok p => .ok p
  | .error f => .error (.undecodable f.message)

/-! ### Reading from a value -/

namespace Decoder
open Json.Decoder

def operation : Decoder Operation :=
  variant Operation.variants

def role : Decoder Role :=
  variant Role.variants

def edge : Decoder Edge := fun v =>
  (triple word32 word32 role v).map Edge.ofTriple

def node : Decoder Operation :=
  record (nodeRecord fun s v => do return { s with operation := some (← operation v) })

def program : Decoder Program :=
  record (programRecord (fun s v => do return { s with nodes := some (← list node v) })
    (fun s v => do return { s with edges := some (← list edge v) }))

end Decoder

def Program.ofJson (v : Json) : Except ProgramError Program :=
  match Decoder.program v with
  | .ok p => .ok p
  | .error cause => .error (.undecodable cause.message)

end CipherGraph
