import CipherGraph.Program.Basic

/-! # Sets of nodes

A set of nodes is kept as the list of its members in ascending order, so that equal sets are equal lists. -/

namespace CipherGraph

abbrev NodeSet := List NodeId

def NodeSet.insert (id : NodeId) : NodeSet → NodeSet
  | [] => [id]
  | n :: rest => if id < n then id :: n :: rest else if id = n then n :: rest else n :: insert id rest

def NodeSet.ofList (ids : List NodeId) : NodeSet :=
  ids.foldr NodeSet.insert []

end CipherGraph
