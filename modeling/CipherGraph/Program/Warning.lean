import CipherGraph.Program.Basic

/-! # Arity warnings

A node should have exactly one operand in each role of its operation and none in any other role. `warnings`
reports every node and role for which this fails, in order of nodes and then of roles. An edge counts if its
source exists; the other end is the node it is counted for. -/

namespace CipherGraph

/-- Something wrong with the operands of a node in a role. -/
inductive Warning where
  | missing (node : NodeId) (role : Role)
  | duplicate (node : NodeId) (role : Role) (count : Nat)
  | unexpected (node : NodeId) (role : Role)
  deriving DecidableEq, Repr

namespace Warning

def node : Warning → NodeId
  | .missing node _ => node
  | .duplicate node _ _ => node
  | .unexpected node _ => node

def role : Warning → Role
  | .missing _ role => role
  | .duplicate _ role _ => role
  | .unexpected _ role => role

def message : Warning → String
  | .missing node role => "node " ++ toString node.toNat ++ " is missing its " ++ role.name ++ " operand"
  | .duplicate node role count =>
    "node " ++ toString node.toNat ++ " has " ++ toString count ++ " " ++ role.name ++ " operands"
  | .unexpected node role => "node " ++ toString node.toNat ++ " does not take a " ++ role.name ++ " operand"

/-- The verdict on a number of operands in a role that the operation has or has not. -/
def judge? (node : NodeId) (role : Role) (wanted : Bool) (count : Nat) : Option Warning :=
  match wanted, count with
  | true, 0 => some (.missing node role)
  | true, 1 => none
  | true, n + 2 => some (.duplicate node role (n + 2))
  | false, 0 => none
  | false, _ + 1 => some (.unexpected node role)

end Warning

structure Tally where
  left : Nat := 0
  right : Nat := 0
  unary : Nat := 0
  deriving DecidableEq, Repr, Inhabited

namespace Tally

def count (t : Tally) : Role → Nat
  | .left => t.left
  | .right => t.right
  | .unary => t.unary

def add (t : Tally) : Role → Tally
  | .left => { t with left := t.left + 1 }
  | .right => { t with right := t.right + 1 }
  | .unary => { t with unary := t.unary + 1 }

theorem count_add (t : Tally) (r s : Role) : (t.add r).count s = t.count s + if r = s then 1 else 0 := by
  cases r <;> cases s <;> rfl

/-- What is wrong with a node that has these operands, in order of roles. -/
def warnings (t : Tally) (node : NodeId) (op : Operation) : List Warning :=
  Role.all.filterMap fun role => Warning.judge? node role (op.roles.contains role) (t.count role)

end Tally

namespace Program

/-- Counts an edge for its target if its source is one of `nodeCount` nodes. -/
def tallyEdge (nodeCount : Nat) (tallies : Array Tally) (e : Edge) : Array Tally :=
  if e.source.toNat < nodeCount then tallies.modify e.target.toNat (·.add e.role) else tallies

/-- The operands of every node, counted in one pass over the edges. -/
def tallies (p : Program) : Array Tally :=
  p.edges.foldl (tallyEdge p.nodeCount) (Array.replicate p.nodeCount {})

def warnings (p : Program) : List Warning :=
  (p.nodes.zip p.tallies.toList).zipIdx.flatMap fun ((op, t), i) => t.warnings (UInt32.ofNat i) op

end Program

end CipherGraph
