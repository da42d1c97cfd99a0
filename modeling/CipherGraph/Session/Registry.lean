import CipherGraph.Session.Basic
import CipherGraph.Session.Catalog
import CipherGraph.Text.Utf8

/-! # The registry of sessions

The sessions by name. A name is taken by at most one session. -/

namespace CipherGraph

/-- Sessions by name, in the order in which they were registered. -/
abbrev Registry := Catalog Session

namespace Registry

def get (r : Registry) (name : String) : Except ServiceError Session :=
  match r.find? name with
  | some s => .ok s
  | none => .error (.unknownSession name)

/-- Registers a session under its name, unless the name is taken. -/
def register (r : Registry) (s : Session) : Except ServiceError Registry :=
  match found : r.find? s.name with
  | some _ => .error (.takenName s.name)
  | none => .ok (r.enter s.name s found)

def remove (r : Registry) (name : String) : Except ServiceError Registry :=
  match r.find? name with
  | some _ => .ok (r.erase name)
  | none => .error (.unknownSession name)

def names (r : Registry) : List String :=
  (r.entries.map (·.1)).mergeSort fun a b => !Text.precedes b a

def size (r : Registry) : Nat :=
  r.entries.length

/-- A registry with the demonstration session, or an empty one. -/
def start (demo : Bool) : Registry :=
  if demo then Catalog.enter {} Session.demo.name .demo rfl else {}

end Registry

end CipherGraph
