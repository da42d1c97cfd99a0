/-! # Operations on ciphertexts

What a node of a program does, how many operands it takes, and in which roles. -/

namespace CipherGraph

/-- The part that an operand plays for the node that consumes it. -/
inductive Role where
  | left
  | right
  | unary
  deriving DecidableEq, Repr, Inhabited

namespace Role

def all : List Role :=
  [.left, .right, .unary]

def name : Role → String
  | .left => "Left"
  | .right => "Right"
  | .unary => "Unary"

def rank : Role → Nat
  | .left => 0
  | .right => 1
  | .unary => 2

theorem mem_all (r : Role) : r ∈ all := by
  cases r <;> decide

theorem rank_injective {r s : Role} (h : r.rank = s.rank) : r = s := by
  revert h
  cases r <;> cases s <;> decide

end Role

inductive Arity where
  | nullary
  | unary
  | binary
  deriving DecidableEq, Repr

namespace Arity

/-- The roles of the operands, in order. -/
def roles : Arity → List Role
  | .nullary => []
  | .unary => [.unary]
  | .binary => [.left, .right]

def name : Arity → String
  | .nullary => "Nullary"
  | .unary => "Unary"
  | .binary => "Binary"

end Arity

/-- What a node does. An input names the slot of the argument it takes. -/
inductive Operation where
  | input (slot : UInt64)
  | multiply
  | add
  | relinearize
  | output
  deriving DecidableEq, Repr, Inhabited

namespace Operation

def name : Operation → String
  | .input _ => "InputCiphertext"
  | .multiply => "Multiply"
  | .add => "Add"
  | .relinearize => "Relinearize"
  | .output => "OutputCiphertext"

def slot? : Operation → Option UInt64
  | .input slot => some slot
  | _ => none

def isInput (op : Operation) : Bool :=
  op.slot?.isSome

def isOutput (op : Operation) : Bool :=
  op = .output

def arity : Operation → Arity
  | .input _ => .nullary
  | .multiply => .binary
  | .add => .binary
  | .relinearize => .unary
  | .output => .unary

def roles (op : Operation) : List Role :=
  op.arity.roles

/-- The operation in full, with the slot of an input. -/
def description : Operation → String
  | .input slot => "InputCiphertext(" ++ toString slot.toNat ++ ")"
  | op => op.name

/-- What a drawing writes into the node: the slot of an input, the name of any other operation. -/
def label : Operation → String
  | .input slot => toString slot.toNat
  | op => op.name

theorem label_ne_empty (op : Operation) : op.label ≠ "" := by
  cases op with
  | input slot => exact Nat.repr_ne_empty
  | _ => decide

end Operation

end CipherGraph
