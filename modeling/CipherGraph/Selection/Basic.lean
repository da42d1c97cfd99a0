import CipherGraph.ProgramTable
import CipherGraph.Selection.Observer

/-! # Line and node selection

A selection keeps a selected source line, the program shown for it, and the selected nodes of that
program. A click selects a line and shows its program. Where finding the program takes time, the click is
begun first, which gives a ticket, and completed later with the program: a completion counts only if no
other click was begun after its ticket was issued.

Observers are told of every change. The callbacks that an operation makes are part of its result. -/

namespace CipherGraph

/-- A line whose program is being looked for, and the click that asked for it. -/
structure Ticket where
  line : Int64
  generation : UInt64
  deriving DecidableEq, Repr

class LineMap (μ : Type) where
  resolve : μ → Int64 → Program

instance : LineMap ProgramTable := ⟨ProgramTable.resolve⟩

instance : LineMap (Int64 → Program) := ⟨fun f => f⟩

/-- A program as it is shown: its rendering with the nodes of its warnings marked, or the reason why there
is none. -/
def Program.view (p : Program) : Except ProgramError Rendering :=
  p.render.map (·.markWarnings)

structure Selection (μ : Type) where
  lineMap : μ
  line : Int64
  selected : NodeSet
  program : Program
  rendered : Option Rendering
  /-- Why there is no rendering, as it is told. -/
  error : Option String
  generation : UInt64
  observers : List Observer

namespace Selection

variable {μ : Type}

/-- Shows another program. The rendering and the reason why there is none are kept apart, so that each of them has to be
set whatever becomes of the program. -/
def display (s : Selection μ) (p : Program) : Selection μ :=
  let s :=
    match p.view with
    | .ok r => { s with rendered := some r, error := none }
    | .error e => { s with rendered := none, error := some e.message }
  { s with program := p }

def defaultLine : Int64 := 0

/-- Nothing is shown before the program of the default line is. -/
def ofLineMap [LineMap μ] (lineMap : μ) : Selection μ :=
  let s : Selection μ := ⟨lineMap, defaultLine, [], {}, none, none, 0, []⟩
  s.display (LineMap.resolve lineMap defaultLine)

def resolve [LineMap μ] (s : Selection μ) (line : Int64) : Program :=
  LineMap.resolve s.lineMap line

def lineCallback (s : Selection μ) : Callback :=
  .line s.line

def programCallback (s : Selection μ) : Callback :=
  .program s.rendered s.selected

def lineNotices (s : Selection μ) : List Notice :=
  s.lineCallback.deliver s.observers

def programNotices (s : Selection μ) : List Notice :=
  s.programCallback.deliver s.observers

/-- Begins a click: the line is selected, and earlier tickets no longer count. -/
def begin (s : Selection μ) (line : Int64) : Ticket × Selection μ × List Notice :=
  let s := { s with line := line, generation := s.generation + 1 }
  (⟨line, s.generation⟩, s, s.lineNotices)

/-- Completes a click with the program of its line. Nothing happens if the ticket no longer counts. -/
def complete (s : Selection μ) (ticket : Ticket) (p : Program) : Bool × Selection μ × List Notice :=
  if ticket.generation = s.generation then
    let s := s.display p
    (true, s, s.programNotices)
  else (false, s, [])

/-- A click on a line whose program is at hand. -/
def click [LineMap μ] (s : Selection μ) (line : Int64) : Selection μ × List Notice :=
  let (ticket, s, lineNotices) := s.begin line
  let (_, s, programNotices) := s.complete ticket (s.resolve line)
  (s, lineNotices ++ programNotices)

/-- Selects nodes in place of those selected before. They need not exist. -/
def select (s : Selection μ) (ids : List NodeId) : Selection μ × List Notice :=
  let s := { s with selected := NodeSet.ofList ids }
  (s, s.programNotices)

/-- Adds an observer, and tells it of the line and of the program. -/
def observe (s : Selection μ) (o : Observer) : Selection μ × List Notice :=
  ({ s with observers := s.observers ++ [o] }, s.lineCallback.deliver [o] ++ s.programCallback.deliver [o])

end Selection

/-- What a client sees of a selection. -/
structure Snapshot where
  line : Int64
  selected : NodeSet
  rendered : Option Rendering
  error : Option String
  generation : UInt64
  deriving DecidableEq, Repr

def Selection.snapshot {μ : Type} (s : Selection μ) : Snapshot :=
  ⟨s.line, s.selected, s.rendered, s.error, s.generation⟩

end CipherGraph
