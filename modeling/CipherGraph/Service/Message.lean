import CipherGraph.Json.Printer
import CipherGraph.Session.Refusal

/-! # Requests and responses -/

namespace CipherGraph

inductive Method where
  | get
  | head
  | post
  | delete
  | options
  | other (name : String)
  deriving DecidableEq, Repr

/-- The method with a name. Small letters and capitals differ. -/
def Method.ofName (name : String) : Method :=
  match name with
  | "GET" => .get
  | "HEAD" => .head
  | "POST" => .post
  | "DELETE" => .delete
  | "OPTIONS" => .options
  | _ => .other name

structure Request where
  method : Method
  /-- The path as it was sent, perhaps after a scheme and a host and before a query and a fragment. -/
  target : String
  contentType : Option String := none
  body : String := ""
  deriving Repr

namespace Request

/-- The number of bytes that a body may have. -/
def bodyLimit : Nat :=
  2097152

/-- The body is not longer than a body may be. -/
def Fits (q : Request) : Prop :=
  q.body.utf8ByteSize ≤ bodyLimit

instance (q : Request) : Decidable q.Fits :=
  inferInstanceAs (Decidable (_ ≤ _))

end Request

structure Response where
  status : Nat
  contentType : Option String := none
  allow : Option String := none
  body : String := ""
  deriving DecidableEq, Repr

namespace Response

def json (status : Nat) (v : Json) : Response :=
  { status, contentType := some "application/json", body := v.compact }

def text (status : Nat) (body : String) : Response :=
  { status, contentType := some "text/plain; charset=utf-8", body }

def withoutBody (r : Response) : Response :=
  { r with body := "" }

end Response

/-- The response that tells a client of a refusal. -/
def Refusal.response (r : Refusal) : Response :=
  .json r.kind.status <| .object
    [("error", .object [("code", .string r.kind.code), ("message", .string r.message)]),
      ("success", .bool false)]

def ServiceError.response (e : ServiceError) : Response :=
  e.refusal.response

end CipherGraph
