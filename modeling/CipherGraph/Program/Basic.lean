import CipherGraph.Program.Operation

/-! # Programs

A program is a sequence of operations, its nodes, with edges that carry the value of one node to an operand
of another. A node is known by its place in the sequence. The builders refuse edges between nodes that do
not exist; a program taken from elsewhere may hold such edges. -/

namespace CipherGraph

abbrev NodeId := UInt32

/-- The value of `source` as the operand of `target` in a role. -/
structure Edge where
  source : NodeId
  target : NodeId
  role : Role
  deriving DecidableEq, Repr, Inhabited

structure Program where
  nodes : List Operation := []
  edges : List Edge := []
  deriving DecidableEq, Repr, Inhabited

/-- An edge with an end beyond the nodes of its program. -/
structure DanglingEdge where
  position : Nat
  edge : Edge
  /-- The end that does not exist: the source if it does not, otherwise the target. -/
  missing : NodeId
  nodeCount : Nat
  deriving DecidableEq, Repr

inductive ProgramError where
  | dangling (edge : DanglingEdge)
  | undecodable (reason : String)
  | nodeNotFound (id : NodeId)
  deriving DecidableEq, Repr

def DanglingEdge.message (d : DanglingEdge) : String :=
  "edge " ++ toString d.position ++ " (" ++ toString d.edge.source.toNat ++ " -> " ++
    toString d.edge.target.toNat ++ ") references node " ++ toString d.missing.toNat ++
    ", but the graph has " ++ toString d.nodeCount ++ " nodes"

def ProgramError.message : ProgramError → String
  | .dangling edge => "invalid graph: " ++ edge.message
  | .undecodable reason => "invalid graph: " ++ reason
  | .nodeNotFound id => "node not found: NodeId(" ++ toString id.toNat ++ ")"

namespace Program

def nodeCount (p : Program) : Nat :=
  p.nodes.length

def edgeCount (p : Program) : Nat :=
  p.edges.length

def contains (p : Program) (id : NodeId) : Bool :=
  id.toNat < p.nodeCount

def node? (p : Program) (id : NodeId) : Option Operation :=
  p.nodes[id.toNat]?

/-- Appends a node. Its id is its place, as far as a word of 32 bits can tell it. -/
def addNode (p : Program) (op : Operation) : NodeId × Program :=
  (UInt32.ofNat p.nodeCount, { p with nodes := p.nodes ++ [op] })

/-- The id of a node tells its place, as long as a word of 32 bits can tell the nodes apart. -/
theorem toNat_place {p : Program} {i : Nat} {op : Operation} (few : p.nodeCount ≤ UInt32.size)
    (hop : p.nodes[i]? = some op) : (UInt32.ofNat i).toNat = i :=
  UInt32.toNat_ofNat_of_lt' (Nat.lt_of_lt_of_le (List.getElem?_eq_some_iff.mp hop).1 few)

/-- Appends an edge between nodes that exist. -/
def addEdge (p : Program) (e : Edge) : Except ProgramError Program :=
  -- Of two missing ends the source is reported.
  if !p.contains e.source then .error (.nodeNotFound e.source)
  else if !p.contains e.target then .error (.nodeNotFound e.target)
  else .ok { p with edges := p.edges ++ [e] }

end Program

/-- The end of an edge that is beyond `nodeCount` nodes, the source first. -/
def Edge.missing? (e : Edge) (nodeCount : Nat) : Option NodeId :=
  if nodeCount ≤ e.source.toNat then some e.source
  else if nodeCount ≤ e.target.toNat then some e.target
  else none

namespace Program

/-- The first of some edges that dangles, the first of them being at `position`. -/
def firstDangling (nodeCount position : Nat) : List Edge → Option DanglingEdge
  | [] => none
  | e :: rest =>
    match e.missing? nodeCount with
    | some missing => some ⟨position, e, missing, nodeCount⟩
    | none => firstDangling nodeCount (position + 1) rest

def dangling? (p : Program) : Option DanglingEdge :=
  firstDangling p.nodeCount 0 p.edges

def check (p : Program) : Except ProgramError Unit :=
  match p.dangling? with
  | some d => .error (.dangling d)
  | none => .ok ()

end Program

end CipherGraph
