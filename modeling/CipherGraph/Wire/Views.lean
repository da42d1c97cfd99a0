import CipherGraph.Program.Digraph
import CipherGraph.Selection.Basic
import CipherGraph.Wire.Vocabulary

/-! # Views on the wire

How warnings, renderings, snapshots and the surroundings of a node are shown outside. Members stand in a
fixed order, and a member that has nothing to say is left out. -/

namespace CipherGraph
open Json

def NodeId.toJson (id : NodeId) : Json :=
  .ofNat id.toNat

def Warning.toJson : Warning → Json
  | .missing node role =>
    .object [("kind", .string "missing_operand"), ("node", node.toJson), ("role", role.toJson)]
  | .duplicate node role count =>
    .object [("kind", .string "duplicate_operand"), ("node", node.toJson), ("role", role.toJson),
      ("count", .ofNat count)]
  | .unexpected node role =>
    .object [("kind", .string "unexpected_operand"), ("node", node.toJson), ("role", role.toJson)]

def DrawnNode.toJson (n : DrawnNode) : Json :=
  .object [("id", n.id.toJson), ("title", .string n.title), ("type", .string n.kind.name)]

def Edge.toRenderJson (e : Edge) : Json :=
  .object [("source", e.source.toJson), ("target", e.target.toJson), ("role", e.role.toJson)]

def Rendering.toJson (r : Rendering) : Json :=
  .object ([("nodes", .array (r.nodes.map (·.toJson))), ("edges", .array (r.edges.map (·.toRenderJson)))] ++
    if r.warnings.isEmpty then [] else [("warnings", .array (r.warnings.map (·.toJson)))])

def Snapshot.toJson (s : Snapshot) : Json :=
  .object ([("selected_line", .ofInt s.line.toInt), ("selected_nodes", .array (s.selected.map (·.toJson))),
    ("graph", (s.rendered.map (·.toJson)).getD .null)] ++
    (match s.error with
      | some e => [("error", .string e)]
      | none => []) ++
    [("generation", .ofNat s.generation.toNat)])

/-- A neighbour with the title of its node. -/
def Neighbour.toJson (p : Program) (n : Neighbour) : Json :=
  .object [("node", n.node.toJson), ("label", .string (((p.node? n.node).map (·.label)).getD "")),
    ("role", n.role.toJson)]

/-- A node with its neighbours, and whether it is selected. -/
def Neighbourhood.toJson (h : Neighbourhood) (p : Program) (selected : Bool) : Json :=
  .object [("id", h.node.toJson), ("label", .string h.operation.label), ("operation", h.operation.toJson),
    ("operands", .array (h.operands.map (·.toJson p))), ("consumers", .array (h.consumers.map (·.toJson p))),
    ("selected", .bool selected)]

end CipherGraph
