import CipherGraph.Proofs.Service.Listing
import CipherGraph.Proofs.Service.Served
import Mathlib.Data.List.TakeWhile

/-! # Addresses of sessions

A path names a session by a parameter, in which every byte of the name can be escaped. Nothing of the name is then taken
for a part of the path, so that every session can be asked for, whatever its name is. -/

namespace CipherGraph

/-! ### Paths -/

namespace Route

/-- A text that can stand in a path as a parameter, wherever one is taken. -/
def IsParameter (s : String) : Prop :=
  s ≠ "" ∧ '/' ∉ s.toList ∧ '?' ∉ s.toList ∧ '#' ∉ s.toList

instance (s : String) : Decidable (IsParameter s) :=
  inferInstanceAs (Decidable (_ ∧ _))

/-- What stands between the slashes of a path. -/
def parts : Route → List String
  | .sessions => ["sessions"]
  | .session name => ["sessions", name]
  | .rendering name => ["sessions", name, "render"]
  | .node name id => ["sessions", name, "nodes", id]
  | .selection name => ["sessions", name, "selection"]
  | .selectedLine name => ["sessions", name, "selection", "line"]
  | .selectedNodes name => ["sessions", name, "selection", "nodes"]
  | .source name => ["programs", name]

/-- The parameters of a path. -/
def parameters : Route → List String
  | .sessions => []
  | .node name id => [name, id]
  | .session name | .rendering name | .selection name | .selectedLine name | .selectedNodes name | .source name => [name]

/-- The path of a route, with its parameters as they are. -/
def target (route : Route) : String :=
  String.ofList (route.parts.flatMap fun part => '/' :: part.toList)

variable {route : Route}

theorem segments_eq_splitOn (cs : List Char) : segments cs = cs.splitOn '/' := by
  induction cs with
  | nil => rfl
  | cons c cs ih =>
    obtain ⟨s, more, h⟩ := List.exists_cons_of_ne_nil (List.splitOnP_ne_nil (· == '/') cs)
    rw [List.splitOn, h] at ih
    rw [segments, ih, List.splitOn, List.splitOnP_cons_eq_if_modifyHead, h]
    by_cases slash : c = '/' <;> simp [slash]

theorem intercalate_slash (s : List Char) (parts : List (List Char)) :
    ['/'].intercalate (s :: parts) = s ++ parts.flatMap ('/' :: ·) := by
  induction parts generalizing s with
  | nil => simp
  | cons part parts ih =>
    rw [List.intercalate_cons_cons, ih, List.flatMap_cons, List.append_assoc]
    rfl

/-- A path is cut at its slashes, where nothing else is one. -/
theorem segments_flatMap {parts : List (List Char)} (plain : ∀ part ∈ parts, '/' ∉ part) :
    segments (parts.flatMap ('/' :: ·)) = [] :: parts := by
  have joined := intercalate_slash [] parts
  rw [List.nil_append] at joined
  rw [segments_eq_splitOn, ← joined, List.splitOn_intercalate '/' _ (List.cons_ne_nil _ _)]
  exact List.forall_mem_cons.mpr ⟨List.not_mem_nil, plain⟩

theorem pathOf_ofList {cs : List Char} (slash : cs.head? = some '/') (query : '?' ∉ cs) (fragment : '#' ∉ cs) :
    pathOf (String.ofList cs) = cs := by
  obtain ⟨rest, rfl⟩ := List.head?_eq_some_iff.mp slash
  rw [pathOf, String.toList_ofList, withoutHost_slash, List.takeWhile_eq_self_iff]
  intro c hc
  simp [ne_of_mem_of_not_mem hc query, ne_of_mem_of_not_mem hc fragment]

theorem isParameter_of_mem_parts (h : ∀ s ∈ route.parameters, IsParameter s) :
    ∀ part ∈ route.parts, IsParameter part := by
  have fixed : ∀ s ∈ ["sessions", "render", "nodes", "selection", "line", "programs"], IsParameter s := by
    decide
  cases route <;> grind [parts, parameters]

theorem ofSegments?_parts (h : ∀ s ∈ route.parameters, IsParameter s) :
    ofSegments? ("" :: route.parts) = some route := by
  cases route <;> simp_all [parts, parameters, ofSegments?, IsParameter]

/-- The path of a route leads to it, if its parameters can stand in a path. -/
theorem ofTarget?_target (h : ∀ s ∈ route.parameters, IsParameter s) : ofTarget? route.target = some route := by
  have plain := isParameter_of_mem_parts h
  have absent {c : Char} (other : c ≠ '/') (h : ∀ part ∈ route.parts, c ∉ part.toList) :
      c ∉ route.parts.flatMap fun part => '/' :: part.toList := by
    intro hc
    obtain ⟨part, hp, hc⟩ := List.mem_flatMap.mp hc
    exact (List.mem_cons.mp hc).elim other (h part hp)
  -- No part ends the path too early, and none is cut.
  have path : pathOf route.target = (route.parts.map String.toList).flatMap ('/' :: ·) := by
    rw [List.flatMap_map]
    exact pathOf_ofList (by cases route <;> rfl) (absent (by decide) fun part hp => (plain part hp).2.2.1)
      (absent (by decide) fun part hp => (plain part hp).2.2.2)
  have cut : segments (pathOf route.target) = [] :: route.parts.map String.toList := by
    rw [path]
    refine segments_flatMap fun cs hcs slash => ?_
    obtain ⟨part, hp, rfl⟩ := List.mem_map.mp hcs
    exact (plain part hp).2.1 slash
  rw [ofTarget?, cut, List.map_cons, List.map_map]
  simpa [Function.comp_def] using ofSegments?_parts h

end Route

/-! ### Names in paths -/

section
variable {raw n : String}

theorem decodeName_of_escapes (h : Text.Escapes raw.toList (Text.bytes n)) : decodeName raw = .ok n := by
  rw [decodeName, decodeParameter, Text.percentDecoded?_of_escapes h]

/-- Escapes have nothing that ends a parameter, not even if the name has it. -/
theorem Route.isParameter_of_escapes (h : Text.Escapes raw.toList (Text.bytes n)) (filled : n ≠ "") :
    Route.IsParameter raw := by
  have absent {c : Char} (sign : c ≠ '%') (digit : Text.hexValue? c = none) : c ∉ raw.toList := by
    intro hc
    rcases h.mem hc with same | ⟨v, read⟩
    · exact sign same
    · cases digit.symm.trans read
  refine ⟨?_, absent (by decide) rfl, absent (by decide) rfl, absent (by decide) rfl⟩
  rintro rfl
  refine filled (Text.bytes_injective ?_)
  generalize Text.bytes n = bs at h
  cases h
  rfl

theorem Route.isParameter_of_mem_parameters {route : Route} (named : route.name? = some raw) (h : Route.IsParameter raw)
    (node : ∀ id, route = .node raw id → Route.IsParameter id) : ∀ s ∈ route.parameters, Route.IsParameter s := by
  cases route with
  | sessions => cases named
  | node name id =>
    cases named
    exact List.forall_mem_cons.mpr ⟨h, List.forall_mem_singleton.mpr (node id rfl)⟩
  | session name | rendering name | selection name | selectedLine name | selectedNodes name | source name =>
    cases named
    exact List.forall_mem_singleton.mpr h

end

/-! ### Requests for one session -/

/-- A request with a method for the path of a route. -/
def Request.To (q : Request) (method : Method) (route : Route) : Prop :=
  q.method = method ∧ q.target = route.target

theorem Request.To.asks {q : Request} {method : Method} {route : Route} (h : q.To method route)
    (parameters : ∀ s ∈ route.parameters, Route.IsParameter s) : q.Asks method route :=
  ⟨h.1, h.2 ▸ Route.ofTarget?_target parameters⟩

namespace Registry
variable {r : Registry} {q : Request} {n raw : String} {s : Session}

/-- A request gets a response, and it leaves something of the session of a name and every other session as it was. -/
structure ActsOn (r : Registry) (q : Request) (n : String) (response : Response) (left : Option Session) : Prop where
  response : (r.handle q).1 = response
  left : (r.handle q).2.find? n = left
  others : ∀ m, m ≠ n → (r.handle q).2.find? m = r.find? m

/-- A request acts on the session that it looks up. -/
theorem actsOn_of_run {response : Response} {r' : Registry} (plain : q.method ≠ .head)
    (subject : q.action.subject? = some n) (run : q.action.run r = (response, r')) :
    r.ActsOn q n response (r'.find? n) where
  response := by
    rw [handle_fst plain, run]
  left := by
    rw [handle_eq, run]
  others m other := by
    rw [handle_eq]
    refine Action.find?_run_of_other fun subject' => other ?_
    exact Option.some.inj (subject'.symm.trans subject)

theorem actsOn_of_query {query : Query} (plain : q.method ≠ .head) (action : q.action = .query n query)
    (found : r.find? n = some s) : r.ActsOn q n (query.run s).1 (some (query.run s).2) := by
  have acts := actsOn_of_run plain (congrArg Action.subject? action) (action ▸ Action.run_query_of_known query found)
  rwa [Catalog.find?_replace, if_pos rfl, found] at acts

theorem actsOn_of_remove (plain : q.method ≠ .head) (action : q.action = .remove n) (found : r.find? n = some s) :
    r.ActsOn q n removed none := by
  have acts := actsOn_of_run plain (congrArg Action.subject? action) (action ▸ Action.run_remove_of_known found)
  rwa [Catalog.find?_erase, if_pos rfl] at acts

/-- With a parameter, every path that takes a name leads to a session, and every request for it acts on that session. -/
structure Reaches (r : Registry) (raw : String) (s : Session) : Prop where
  program : ∀ q : Request, q.To .get (.session raw) → r.ActsOn q s.name (.json 200 s.program.toJson) (some s)
  rendering : ∀ q : Request, q.To .get (.rendering raw) → ∃ drawing, s.program.render = .ok drawing ∧
    r.ActsOn q s.name (.json 200 drawing.toJson) (some s)
  source : ∀ q : Request, q.To .get (.source raw) → r.ActsOn q s.name (.text 200 s.source) (some s)
  selection : ∀ q : Request, q.To .get (.selection raw) → r.ActsOn q s.name s.shown (some s)
  node : ∀ (q : Request) (id digits : String) (i : Nat), q.To .get (.node raw id) → Route.IsParameter id →
    decodeParameter "node_id" id = .ok digits → Decimal.unsigned? (UInt32.size - 1) digits = some i →
    r.ActsOn q s.name (s.inspect (UInt32.ofNat i)) (some s)
  line : ∀ (q : Request) (line : Int64), q.To .post (.selectedLine raw) →
    q.read (Json.Reader.record lineClickRecord) = .ok ⟨line⟩ →
    r.ActsOn q s.name (s.afterAll [.click line]).shown (some (s.afterAll [.click line]))
  nodes : ∀ (q : Request) (ids : List NodeId), q.To .post (.selectedNodes raw) →
    q.read (Json.Reader.record nodeSelectionRecord) = .ok ⟨ids⟩ →
    r.ActsOn q s.name (s.afterAll [.select ids]).shown (some (s.afterAll [.select ids]))
  deletion : ∀ q : Request, q.To .delete (.session raw) → r.ActsOn q s.name removed none

theorem reaches_of_found (inRange : s.program.InRange) (found : r.find? s.name = some s)
    (parameter : Route.IsParameter raw) (decoded : decodeName raw = .ok s.name) : r.Reaches raw s := by
  have plain {q : Request} {method : Method} {route : Route} (h : q.To method route) (other : method ≠ .head) :
      q.method ≠ .head :=
    h.1 ▸ other
  have asks {q : Request} {method : Method} {path : String → Route} (h : q.To method (path raw))
      (only : (path raw).parameters = [raw]) : q.AsksIn method path s.name :=
    ⟨raw, h.asks (only ▸ List.forall_mem_singleton.mpr parameter), decoded⟩
  have gets {q : Request} {path : String → Route} {query : Query} (h : q.To .get (path raw))
      (only : (path raw).parameters = [raw]) (gets : ∀ raw, (path raw).get? = some (.onName raw (.query · query))) :
      r.ActsOn q s.name (query.run s).1 (some (query.run s).2) :=
    actsOn_of_query (plain h (by decide)) ((asks h only).action_of_get gets) found
  constructor
  case program =>
    intro q hq
    exact gets hq rfl fun _ => rfl
  case rendering =>
    intro q hq
    obtain ⟨drawing, drawn⟩ := inRange.render
    have acts := gets hq rfl fun _ => rfl
    simp only [Query.run, drawn] at acts
    exact ⟨drawing, drawn, acts⟩
  case source =>
    intro q hq
    exact gets hq rfl fun _ => rfl
  case selection =>
    intro q hq
    exact gets hq rfl fun _ => rfl
  case node =>
    intro q id digits i hq hid read number
    have asked : q.Asks .get (.node raw id) :=
      hq.asks (List.forall_mem_cons.mpr ⟨parameter, List.forall_mem_singleton.mpr hid⟩)
    have both : decodeNode raw id = .ok (s.name, UInt32.ofNat i) := by
      simp only [decodeNode, decoded, read, number, bind, Except.bind, pure, Except.pure]
    have action : q.action = .query s.name (.node (UInt32.ofNat i)) :=
      asked.action_of_get (by simp only [Route.get?, both])
    exact actsOn_of_query (plain hq (by decide)) action found
  case line =>
    intro q line hq body
    exact actsOn_of_query (plain hq (by decide)) ((asks hq rfl).action_of_click body) found
  case nodes =>
    intro q ids hq body
    exact actsOn_of_query (plain hq (by decide)) ((asks hq rfl).action_of_choice body) found
  case deletion =>
    intro q hq
    exact actsOn_of_remove (plain hq (by decide)) (asks hq rfl).action_of_delete found

/-- Until a session is deleted, it is reached by its name in every path that takes one, with all bytes of the name
escaped: the path leads to its route, the parameter is read as the name, and every request acts on that session alone. -/
theorem escaped_name_reaches {creation : Request} {d : SessionDraft} {requests : List Request}
    (asks : creation.Asks .post .sessions) (draft : creation.draft = .ok d)
    (created : (r.handle creation).1.status = 200) (kept : ∀ q ∈ requests, ¬ q.AsksIn .delete .session d.name)
    (escapes : Text.Escapes raw.toList (Text.bytes d.name)) :
    let after := ((r.handle creation).2.handleAll requests).2
    decodeName raw = .ok d.name ∧
      (∀ route : Route, route.name? = some raw → (∀ id, route = .node raw id → Route.IsParameter id) →
        Route.ofTarget? route.target = some route) ∧
      ∃ s, after.find? d.name = some s ∧ s.name = d.name ∧ s.source = d.source ∧
        Program.ofJson d.program = .ok s.program ∧ after.Reaches raw s := by
  intro after
  obtain ⟨s, gestures, hs, -, left⟩ := exists_leaves_of_created asks draft created kept
  obtain ⟨source, program, inRange⟩ := SessionDraft.parts_toSession hs
  have name := SessionDraft.name_toSession hs
  -- A parameter at the end of a path must not be empty. A blank name was refused, so this one is not.
  have filled : d.name ≠ "" := by
    intro empty
    refine (SessionDraft.acceptable_iff.mpr ⟨s, hs⟩).name ?_
    rw [empty]
    rfl
  have decoded := decodeName_of_escapes escapes
  have parameter := Route.isParameter_of_escapes escapes filled
  refine ⟨decoded, fun route named node => Route.ofTarget?_target
    (Route.isParameter_of_mem_parameters named parameter node), s.afterAll gestures, left.session, name, source, program, ?_⟩
  have here : after.find? (s.afterAll gestures).name = some (s.afterAll gestures) :=
    (congrArg after.find? name).trans left.session
  exact reaches_of_found inRange here parameter (decoded.trans (congrArg _ name.symm))

/-- A draft with a name that would be taken for other parts of a path. -/
def slashedCreation : Request where
  method := .post
  target := "/sessions"
  contentType := some "application/json"
  body := "\x7b\"name\":\"../%\u00e9\",\"graph\":[[[\"Add\"]],[]]\x7d"

/-- A click in this session, and the deletion of one whose name is a part of its name. -/
def slashedPast : List Request :=
  [selectionPost "/sessions/%2e%2E%2f%25%C3%a9/selection/line" "\x7b\"line\":1\x7d",
    { method := .delete, target := "/sessions/%2E%2E" }]

/-- The letters among the digits are of either case. -/
theorem slashed_name_reached :
    let after := (((start true).handle slashedCreation).2.handleAll slashedPast).2
    let raw := "%2E%2e%2F%25%c3%A9"
    decodeName raw = .ok "../%é" ∧ (Route.node raw "0").target = "/sessions/%2E%2e%2F%25%c3%A9/nodes/0" ∧
      Route.ofTarget? (Route.node raw "0").target = some (.node raw "0") ∧
      ∃ s, after.find? "../%é" = some s ∧ s.name = "../%é" ∧ s.selection.line = 1 ∧ after.Reaches raw s := by
  intro after raw
  have asks : slashedCreation.Asks .post .sessions := ⟨rfl, rfl⟩
  have read : slashedCreation.draft.toOption.map (·.name) = some "../%é" := by decide +kernel
  have run : ((start true).handle slashedCreation).1.status = 200 ∧
      (after.find? "../%é").map (·.selection.line) = some 1 := by
    decide +kernel
  have kept : ∀ q ∈ slashedPast, ¬ q.AsksIn .delete .session "../%é" := by decide +kernel
  have written : raw.toList = ['%', '2', 'E', '%', '2', 'e', '%', '2', 'F', '%', '2', '5', '%', 'c', '3', '%', 'A', '9'] ∧
      Text.bytes "../%é" = [0x2E, 0x2E, 0x2F, 0x25, 0xC3, 0xA9] := by
    decide +kernel
  have escapes : Text.Escapes raw.toList (Text.bytes "../%é") := by
    rw [written.1, written.2]
    exact .cons rfl rfl (.cons rfl rfl (.cons rfl rfl (.cons rfl rfl (.cons rfl rfl (.cons rfl rfl .nil)))))
  have target : (Route.node raw "0").target = "/sessions/%2E%2e%2F%25%c3%A9/nodes/0" := by decide +kernel
  obtain ⟨d, draft, name⟩ := Option.map_eq_some_iff.mp read
  rw [← name] at kept escapes
  obtain ⟨decoded, leads, s, found, named, -, -, reaches⟩ :=
    escaped_name_reaches asks (toOption_eq_some_iff.mp draft) run.1 kept escapes
  rw [name] at decoded found named
  have line : s.selection.line = 1 := by
    have line := run.2
    rw [found] at line
    exact Option.some.inj line
  have node : Route.ofTarget? (Route.node raw "0").target = some (.node raw "0") := by
    refine leads _ rfl fun id same => ?_
    cases same
    decide
  exact ⟨decoded, target, node, s, found, named, line, reaches⟩

end Registry

end CipherGraph
