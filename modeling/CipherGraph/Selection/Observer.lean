import CipherGraph.Rendering
import CipherGraph.Selection.NodeSet

/-! # Observers

Clients that are told of changes of a selection. What they are told is a value, so that an operation can
list the callbacks that it makes. -/

namespace CipherGraph

/-- A client that is told of changes. A client that leaves out a callback is not told of its changes. -/
structure Observer where
  name : Nat
  hearsLines : Bool := true
  hearsPrograms : Bool := true
  deriving DecidableEq, Repr

/-- What an observer is told: the selected line, or the program shown and the selected nodes. -/
inductive Callback where
  | line (line : Int64)
  | program (rendered : Option Rendering) (selected : NodeSet)
  deriving DecidableEq, Repr

structure Notice where
  observer : Nat
  callback : Callback
  deriving DecidableEq, Repr

def Observer.hears (o : Observer) : Callback → Bool
  | .line _ => o.hearsLines
  | .program .. => o.hearsPrograms

/-- Tells observers of a change, in the order in which they were added. -/
def Callback.deliver (c : Callback) (observers : List Observer) : List Notice :=
  (observers.filter (·.hears c)).map fun o => ⟨o.name, c⟩

end CipherGraph
