/-! # Overrides by line

Values for some source lines, in ascending order of lines and at most one for each. -/

namespace CipherGraph

abbrev Overrides (α : Type) := List (Int64 × α)

namespace Overrides

variable {α : Type}

/-- A value put in for a line, in place of the one that is there. -/
def insert (line : Int64) (value : α) : Overrides α → Overrides α
  | [] => [(line, value)]
  | (l, v) :: rest =>
    if line < l then (line, value) :: (l, v) :: rest
    else if line = l then (line, value) :: rest
    else (l, v) :: insert line value rest

/-- The overrides in a list, the last one of each line kept. -/
def ofList (entries : List (Int64 × α)) : Overrides α :=
  entries.foldl (fun sorted entry => insert entry.1 entry.2 sorted) []

end Overrides

end CipherGraph
