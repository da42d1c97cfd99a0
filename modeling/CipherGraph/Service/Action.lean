import CipherGraph.Service.Message
import CipherGraph.Session.Registry
import CipherGraph.Wire.Program
import CipherGraph.Wire.Views

/-! # Actions

What a request can ask for, apart from how it asks. An action on a named session finds the session and runs
a query on it; nothing else reads or changes a session. -/

namespace CipherGraph

inductive Query where
  | program
  | rendering
  | source
  | node (id : NodeId)
  | selection
  | click (line : Int64)
  | select (ids : List NodeId)
  deriving DecidableEq, Repr

inductive Action where
  /-- Nothing of the registry: the response is known. -/
  | reply (r : Response)
  | list
  | register (s : Session)
  | remove (name : String)
  | query (name : String) (q : Query)

/-! ### Answers -/

def Session.created (s : Session) : Response :=
  .json 200 <| .object [("name", .string s.name), ("node_count", .ofNat s.program.nodeCount),
    ("edge_count", .ofNat s.program.edgeCount), ("warnings", .array (s.program.warnings.map (·.toJson)))]

def removed : Response :=
  .json 200 (.object [("success", .bool true)])

def Registry.listed (r : Registry) : Response :=
  .json 200 (.object [("sessions", .array (r.names.map .string))])

/-- What a client sees of the selection of a session. -/
def Session.shown (s : Session) : Response :=
  .json 200 s.selection.snapshot.toJson

/-- A node of the program that the selection shows. -/
def Session.inspect (s : Session) (id : NodeId) : Response :=
  let p := s.selection.program
  match p.neighbourhood id with
  | .ok h => .json 200 (h.toJson p (s.selection.selected.contains id))
  | .error e => e.refusal.response

def Query.run (q : Query) (s : Session) : Response × Session :=
  match q with
  | .program => (.json 200 s.program.toJson, s)
  | .rendering =>
    match s.program.render with
    | .ok r => (.json 200 r.toJson, s)
    | .error e => (e.refusal.response, s)
  | .source => (.text 200 s.source, s)
  | .node id => (s.inspect id, s)
  | .selection => (s.shown, s)
  | .click line =>
    let s := { s with selection := (s.selection.click line).1 }
    (s.shown, s)
  | .select ids =>
    let s := { s with selection := (s.selection.select ids).1 }
    (s.shown, s)

def Action.run (a : Action) (r : Registry) : Response × Registry :=
  match a with
  | .reply response => (response, r)
  | .list => (r.listed, r)
  | .register s =>
    match r.register s with
    | .ok r => (s.created, r)
    | .error e => (e.response, r)
  | .remove name =>
    match r.remove name with
    | .ok r => (removed, r)
    | .error e => (e.response, r)
  | .query name q =>
    match r.get name with
    | .ok s =>
      let (response, s) := q.run s
      (response, r.replace name s)
    | .error e => (e.response, r)

end CipherGraph
