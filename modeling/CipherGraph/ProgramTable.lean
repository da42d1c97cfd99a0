import CipherGraph.Program.Sample

/-! # Tables of programs

A table maps source lines to programs. A line without an entry of its own has the fallback program. Lines
are listed in the order in which they were first entered. -/

namespace CipherGraph

/-- A fallback program, and the programs of the lines that have one of their own. -/
structure ProgramTable where
  fallback : Program
  entries : List (Int64 × Program) := []
  deriving DecidableEq, Repr

namespace ProgramTable

def entry? (t : ProgramTable) (line : Int64) : Option Program :=
  t.entries.lookup line

def resolve (t : ProgramTable) (line : Int64) : Program :=
  (t.entry? line).getD t.fallback

/-- Entries with the one of a line replaced in its place, or put at the end if there is none. -/
def put (line : Int64) (p : Program) : List (Int64 × Program) → List (Int64 × Program)
  | [] => [(line, p)]
  | (l, q) :: rest => if l = line then (line, p) :: rest else (l, q) :: put line p rest

/-- Enters a program for a line, and gives the one that had been entered for it before. -/
def insert (t : ProgramTable) (line : Int64) (p : Program) : Option Program × ProgramTable :=
  (t.entry? line, { t with entries := put line p t.entries })

def withLine (t : ProgramTable) (line : Int64) (p : Program) : ProgramTable :=
  (t.insert line p).2

def lines (t : ProgramTable) : List Int64 :=
  t.entries.map (·.1)

/-- The table of the demonstration: one product at line 1, the sample everywhere else. -/
def demo : ProgramTable :=
  withLine { fallback := .sample } 1 .product

end ProgramTable

end CipherGraph
