import CipherGraph.Program.Basic

/-! # Building programs

A program is built by calls that append a node or an edge each. A call that is refused leaves the program as it is, and
the building goes on from there. A gate is a node together with the edges that bring its operands. -/

namespace CipherGraph

/-- A call to a builder. -/
inductive BuildCall where
  | node (op : Operation)
  | edge (e : Edge)
  deriving DecidableEq, Repr

/-- What a builder answers. -/
inductive BuildReply where
  | placed (id : NodeId)
  | joined
  | refused (error : ProgramError)
  deriving DecidableEq, Repr

/-- An operation, and the nodes that its operands come from. -/
structure Gate where
  operation : Operation
  /-- The node that the operand in a role comes from; it counts for the roles of the operation only. -/
  source : Role → NodeId

namespace Program

/-- The answer to a call and the program after it. -/
def build (p : Program) : BuildCall → BuildReply × Program
  | .node op =>
    let (id, q) := p.addNode op
    (.placed id, q)
  | .edge e =>
    match p.addEdge e with
    | .ok q => (.joined, q)
    | .error error => (.refused error, p)

/-- The program after some calls in a row. -/
def built (p : Program) (calls : List BuildCall) : Program :=
  calls.foldl (fun p call => (p.build call).2) p

/-- Appends the node of a gate, and then an edge to it for every role of its operation. -/
def addGate (p : Program) (g : Gate) : Except ProgramError Program :=
  let (id, q) := p.addNode g.operation
  g.operation.roles.foldlM (fun q role => q.addEdge ⟨g.source role, id, role⟩) q

def addGates (p : Program) (gates : List Gate) : Except ProgramError Program :=
  gates.foldlM addGate p

end Program

end CipherGraph
