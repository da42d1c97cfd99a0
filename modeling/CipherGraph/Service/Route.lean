import CipherGraph.Decimal.Parse
import CipherGraph.Text.Percent

/-! # Routes

The paths that the service knows. A path is matched as it was sent; its parameters are decoded afterwards.
A parameter at the end of a path is not empty, one in the middle may be. -/

namespace CipherGraph

/-- A path that the service knows, with its parameters as they were sent. -/
inductive Route where
  | sessions
  | session (name : String)
  | rendering (name : String)
  | node (name id : String)
  | selection (name : String)
  | selectedLine (name : String)
  | selectedNodes (name : String)
  | source (name : String)
  deriving DecidableEq, Repr

namespace Route

def segments : List Char → List (List Char)
  | [] => [[]]
  | c :: rest =>
    if c = '/' then [] :: segments rest
    else
      match segments rest with
      | [] => [[c]]
      | segment :: more => (c :: segment) :: more

def isScheme (c : Char) : Bool :=
  c.isAlphanum || c = '+' || c = '-' || c = '.'

/-- Whether a character ends the host in a target that names one. -/
def endsHost (c : Char) : Bool :=
  c = '/' || c = '?' || c = '#'

/-- A target without its scheme and its host, if it names them. -/
def withoutHost (target : List Char) : List Char :=
  match target.dropWhile isScheme with
  | ':' :: '/' :: '/' :: rest => rest.dropWhile fun c => !endsHost c
  | _ => target

theorem withoutHost_slash (rest : List Char) : withoutHost ('/' :: rest) = '/' :: rest := by
  rfl

/-- The path in the target of a request: what comes after the host and before a query and a fragment. -/
def pathOf (target : String) : List Char :=
  (withoutHost target.toList).takeWhile fun c => c ≠ '?' && c ≠ '#'

def ofSegments? : List String → Option Route
  | ["", "sessions"] => some .sessions
  | ["", "sessions", name] => if name.isEmpty then none else some (.session name)
  | ["", "sessions", name, "render"] => some (.rendering name)
  | ["", "sessions", name, "selection"] => some (.selection name)
  | ["", "sessions", name, "selection", "line"] => some (.selectedLine name)
  | ["", "sessions", name, "selection", "nodes"] => some (.selectedNodes name)
  | ["", "sessions", name, "nodes", id] => if id.isEmpty then none else some (.node name id)
  | ["", "programs", name] => if name.isEmpty then none else some (.source name)
  | _ => none

def ofTarget? (target : String) : Option Route :=
  ofSegments? ((segments (pathOf target)).map String.ofList)

def allow : Route → String
  | .sessions => "GET,HEAD,POST"
  | .session _ => "GET,HEAD,DELETE"
  | .selectedLine _ => "POST"
  | .selectedNodes _ => "POST"
  | .rendering _ => "GET,HEAD"
  | .node .. => "GET,HEAD"
  | .selection _ => "GET,HEAD"
  | .source _ => "GET,HEAD"

end Route

/-- Why a parameter of a path cannot be used. -/
inductive ParameterError where
  | notUtf8 (parameter : String)
  | notWord32 (index : Nat) (value : String)
  deriving DecidableEq, Repr

def ParameterError.message : ParameterError → String
  | .notUtf8 parameter => "Invalid URL: Invalid UTF-8 in `" ++ parameter ++ "`"
  | .notWord32 index value =>
    "Invalid URL: Cannot parse value at index " ++ toString index ++ " with value `" ++ value ++ "` to a `u32`"

/-- A parameter without its percent encoding. -/
def decodeParameter (parameter value : String) : Except ParameterError String :=
  match Text.percentDecoded? value with
  | some s => .ok s
  | none => .error (.notUtf8 parameter)

def decodeName (name : String) : Except ParameterError String :=
  decodeParameter "name" name

def decodeNode (name id : String) : Except ParameterError (String × UInt32) := do
  let name ← decodeName name
  let id ← decodeParameter "node_id" id
  match Decimal.unsigned? (UInt32.size - 1) id with
  | some n => return (name, UInt32.ofNat n)
  | none => .error (.notWord32 1 id)

end CipherGraph
