import CipherGraph.Json.Reader
import CipherGraph.Program.Basic

/-! # Refusals

Why a request to the service is refused, and how that is told to the client: one of four kinds, and a
message. -/

namespace CipherGraph

inductive RefusalKind where
  | notFound
  | badRequest
  | conflict
  | internalError
  deriving DecidableEq, Repr

namespace RefusalKind

def status : RefusalKind → Nat
  | .notFound => 404
  | .badRequest => 400
  | .conflict => 409
  | .internalError => 500

def code : RefusalKind → String
  | .notFound => "NOT_FOUND"
  | .badRequest => "BAD_REQUEST"
  | .conflict => "CONFLICT"
  | .internalError => "INTERNAL_ERROR"

def title : RefusalKind → String
  | .notFound => "not found"
  | .badRequest => "bad request"
  | .conflict => "conflict"
  | .internalError => "internal error"

end RefusalKind

structure Refusal where
  kind : RefusalKind
  message : String
  deriving DecidableEq, Repr

def Refusal.report (r : Refusal) : String :=
  r.kind.title ++ ": " ++ r.message

inductive ServiceError where
  | unknownSession (name : String)
  | takenName (name : String)
  | blankName
  | program (error : ProgramError)
  | lineProgram (line : Int64) (error : ProgramError)
  | contentType
  | bodyLength
  | body (fault : Json.Fault)

/-- A segment of a path, after others. -/
def Json.Segment.text (first : Bool) : Json.Segment → String
  | .index k => "[" ++ toString k ++ "]"
  | .key name => (if first then "" else ".") ++ name
  | .unknown => if first then "?" else ".?"

/-- A path as it stands before a message: nothing if no segment of it is known. -/
def pathText (path : List Json.Segment) : String :=
  if path.all (· = .unknown) then ""
  else
    match path with
    | [] => ""
    | first :: rest => first.text true ++ String.join (rest.map (·.text false)) ++ ": "

/-- What is told of a fault in the body of a request. -/
def Json.Fault.bodyMessage (f : Json.Fault) : String :=
  (if f.cause.isAboutContent then "Failed to deserialize the JSON body into the target type: "
    else "Failed to parse the request body as JSON: ") ++ pathText f.path ++ f.message

def ProgramError.refusal (e : ProgramError) : Refusal :=
  match e with
  | .nodeNotFound _ => ⟨.notFound, e.message⟩
  | .dangling _ => ⟨.badRequest, e.message⟩
  | .undecodable _ => ⟨.badRequest, e.message⟩

def ServiceError.refusal : ServiceError → Refusal
  | .unknownSession name => ⟨.notFound, "session '" ++ name ++ "' not found"⟩
  | .takenName name => ⟨.conflict, "session '" ++ name ++ "' already exists"⟩
  | .blankName => ⟨.badRequest, "session name must not be empty"⟩
  | .program error => error.refusal
  | .lineProgram line error =>
    ⟨.badRequest, "graph for line " ++ toString line.toInt ++ ": " ++ error.message⟩
  | .contentType => ⟨.badRequest, "Expected request with `Content-Type: application/json`"⟩
  | .bodyLength => ⟨.badRequest, "Failed to buffer the request body: length limit exceeded"⟩
  | .body fault => ⟨.badRequest, fault.bodyMessage⟩

end CipherGraph
