import CipherGraph.Service.Action
import CipherGraph.Service.Body
import CipherGraph.Service.MediaType
import CipherGraph.Service.Route

/-! # From requests to responses

A request is first turned into an action, which depends on the request alone: its route, its parameters and
its body are looked at here. Only then is the action carried out on the registry. -/

namespace CipherGraph

/-- The programs of some lines, the first one that cannot be decoded being refused. -/
def decodeLines : Overrides Json → Except ServiceError (Overrides Program)
  | [] => .ok []
  | (line, v) :: rest =>
    match Program.ofJson v with
    | .error e => .error (.lineProgram line e)
    | .ok p => (decodeLines rest).map ((line, p) :: ·)

/-- The session that a draft asks for. The checks come in order: the name, the decoding of the program and
of the lines, the edges of the program and of the lines. -/
def SessionDraft.toSession (d : SessionDraft) : Except ServiceError Session := do
  if Text.isBlankText d.name then .error .blankName
  else
    let program ← (Program.ofJson d.program).mapError .program
    let lines ← decodeLines d.lines
    Session.create d.name d.source program lines

/-- The body of a request, which has to be JSON. A body that is too long is not read at all. -/
def Request.read {α : Type} (q : Request) (body : Json.Reader α) : Except ServiceError α :=
  if q.contentType.any namesJson then
    if q.Fits then (Json.Reader.document body q.body).mapError .body else .error .bodyLength
  else .error .contentType

def Action.ofExcept : Except ServiceError Action → Action
  | .ok a => a
  | .error e => .reply e.response

/-- An action on a named session, if the name can be decoded. -/
def Action.onName (name : String) (f : String → Action) : Action :=
  match decodeName name with
  | .ok name => f name
  | .error e => .reply (.text 400 e.message)

def Route.get? : Route → Option Action
  | .sessions => some .list
  | .session name => some (.onName name (.query · .program))
  | .rendering name => some (.onName name (.query · .rendering))
  | .selection name => some (.onName name (.query · .selection))
  | .source name => some (.onName name (.query · .source))
  | .node name id =>
    match decodeNode name id with
    | .ok (name, id) => some (.query name (.node id))
    | .error e => some (.reply (.text 400 e.message))
  | .selectedLine _ => none
  | .selectedNodes _ => none

def Route.post? (route : Route) (q : Request) : Option Action :=
  match route with
  | .sessions => some <| .ofExcept do
    let draft ← q.read (Json.Reader.record sessionDraftRecord)
    return .register (← draft.toSession)
  | .selectedLine name => some <| .onName name fun name => .ofExcept do
    let click ← q.read (Json.Reader.record lineClickRecord)
    return .query name (.click click.line)
  | .selectedNodes name => some <| .onName name fun name => .ofExcept do
    let selection ← q.read (Json.Reader.record nodeSelectionRecord)
    return .query name (.select selection.nodes)
  | _ => none

def Route.delete? : Route → Option Action
  | .session name => some (.onName name .remove)
  | _ => none

/-- The action of a request on a route, if the route takes its method. -/
def Route.action? (route : Route) (q : Request) : Option Action :=
  match q.method with
  | .get => route.get?
  | .head => route.get?
  | .post => route.post? q
  | .delete => route.delete?
  | .options => some (.reply { status := 200, allow := some route.allow })
  | .other _ => none

/-- What a request asks for. -/
def Request.action (q : Request) : Action :=
  match Route.ofTarget? q.target with
  | some route => (route.action? q).getD (.reply { status := 405, allow := some route.allow })
  -- What a path takes may be asked of any path, also of one that is not known.
  | none => .reply { status := if q.method = .options then 200 else 404 }

/-- What a client gets of a response. A request for the head alone is answered without the body. -/
def Request.deliver (q : Request) (response : Response) : Response :=
  if q.method = .head then response.withoutBody else response

def Registry.handle (r : Registry) (q : Request) : Response × Registry :=
  let (response, r) := q.action.run r
  (q.deliver response, r)

def Registry.handleAll (r : Registry) : List Request → List Response × Registry
  | [] => ([], r)
  | q :: rest =>
    let (response, r) := r.handle q
    let (responses, r) := r.handleAll rest
    (response :: responses, r)

end CipherGraph
