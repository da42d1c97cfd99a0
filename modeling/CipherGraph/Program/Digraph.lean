import CipherGraph.Program.Basic

/-! # Directed graphs of programs

A program without dangling edges as a graph: here the ends of an arc are nodes of the graph by their type.
The neighbourhood of a node lists where its operands come from and which nodes consume its value. -/

namespace CipherGraph

structure Arc (n : Nat) where
  source : Fin n
  target : Fin n
  role : Role
  deriving DecidableEq, Repr

/-- Nodes with their operations, and arcs between them. -/
structure Digraph where
  nodes : List Operation
  arcs : List (Arc nodes.length)

def Arc.toEdge {n : Nat} (a : Arc n) : Edge :=
  ⟨UInt32.ofNat a.source, UInt32.ofNat a.target, a.role⟩

/-- The arc of an edge, if its ends are among `n` nodes. -/
def Edge.toArc? (e : Edge) (n : Nat) : Option (Arc n) :=
  if source : e.source.toNat < n then
    if target : e.target.toNat < n then some ⟨⟨_, source⟩, ⟨_, target⟩, e.role⟩ else none
  else none

theorem Edge.toEdge_toArc? {e : Edge} {n : Nat} {a : Arc n} (h : e.toArc? n = some a) : a.toEdge = e := by
  unfold toArc? at h
  split at h
  · split at h
    · cases h
      simp [Arc.toEdge]
    · cases h
  · cases h

structure Neighbour where
  node : NodeId
  role : Role
  deriving DecidableEq, Repr

/-- Whether a neighbour comes before another or is the same: by role, then by node. -/
def Neighbour.byRole (a b : Neighbour) : Bool :=
  a.role.rank < b.role.rank || (a.role == b.role && a.node ≤ b.node)

/-- Whether a neighbour comes before another or is the same: by node, then by role. -/
def Neighbour.byNode (a b : Neighbour) : Bool :=
  a.node < b.node || (a.node == b.node && a.role.rank ≤ b.role.rank)

structure Neighbourhood where
  node : NodeId
  operation : Operation
  /-- The sources of the operands, by role and then by node. -/
  operands : List Neighbour
  /-- The nodes that consume the value, by node and then by role. -/
  consumers : List Neighbour
  deriving DecidableEq, Repr

namespace Digraph

def operands (g : Digraph) (node : Nat) : List Neighbour :=
  (g.arcs.filter fun a => a.target.val = node).map (fun a => ⟨a.toEdge.source, a.role⟩)
    |>.mergeSort Neighbour.byRole

def consumers (g : Digraph) (node : Nat) : List Neighbour :=
  (g.arcs.filter fun a => a.source.val = node).map (fun a => ⟨a.toEdge.target, a.role⟩)
    |>.mergeSort Neighbour.byNode

end Digraph

namespace Program

def toDigraph (p : Program) : Except ProgramError Digraph := do
  p.check
  return ⟨p.nodes, p.edges.filterMap (·.toArc? p.nodes.length)⟩

/-- What stands around a node. -/
def neighbourhood (p : Program) (id : NodeId) : Except ProgramError Neighbourhood :=
  -- A node that does not exist is reported before an edge that dangles.
  match p.node? id with
  | none => .error (.nodeNotFound id)
  | some op => do
    let g ← p.toDigraph
    return ⟨id, op, g.operands id.toNat, g.consumers id.toNat⟩

end Program

end CipherGraph
