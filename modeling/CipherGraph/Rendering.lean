import CipherGraph.Program.Warning

/-! # Renderings

What a drawing of a program shows: a titled node for every operation, the edges, and the arity warnings.
Inputs are told apart from other nodes, and nodes can be marked as problematic. -/

namespace CipherGraph

inductive NodeKind where
  | input
  | empty
  | problematic
  deriving DecidableEq, Repr, Inhabited

def NodeKind.name : NodeKind → String
  | .input => "input"
  | .empty => "empty"
  | .problematic => "problematic"

structure DrawnNode where
  id : NodeId
  title : String
  kind : NodeKind
  deriving DecidableEq, Repr, Inhabited

structure Rendering where
  nodes : List DrawnNode
  edges : List Edge
  warnings : List Warning
  deriving DecidableEq, Repr

/-- The node for an operation at a place: an input or not, and not problematic. -/
def Operation.render (op : Operation) (place : Nat) : DrawnNode :=
  ⟨UInt32.ofNat place, op.label, if op.isInput then .input else .empty⟩

/-- The rendering of a program in which no edge dangles. -/
def Program.render (p : Program) : Except ProgramError Rendering := do
  p.check
  return ⟨p.nodes.zipIdx.map fun (op, i) => op.render i, p.edges, p.warnings⟩

namespace Rendering

def markNode (nodes : Array DrawnNode) (id : NodeId) : Array DrawnNode :=
  nodes.modify id.toNat fun n => { n with kind := .problematic }

/-- Marks nodes as problematic. Ids beyond the nodes mark nothing. -/
def mark (r : Rendering) (ids : List NodeId) : Rendering :=
  { r with nodes := (ids.foldl markNode r.nodes.toArray).toList }

/-- The ids of the nodes marked as problematic, in order of nodes. -/
def problematic (r : Rendering) : List NodeId :=
  (r.nodes.filter (·.kind = .problematic)).map (·.id)

def markWarnings (r : Rendering) : Rendering :=
  r.mark (r.warnings.map (·.node))

/-- The node with an id, found at its place. -/
def node? (r : Rendering) (id : NodeId) : Option DrawnNode :=
  r.nodes[id.toNat]?

end Rendering

end CipherGraph
