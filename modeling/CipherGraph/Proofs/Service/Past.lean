import CipherGraph.Proofs.Selection.History
import CipherGraph.Proofs.Service.Isolation
import CipherGraph.Proofs.Service.Unchanged

/-! # What requests leave of a session

A session that is not deleted stays under its name. All that requests do to it are clicks and choices of nodes, and
these are the posts to its selection that were granted. -/

namespace CipherGraph

/-! ### Requests in a session -/

/-- A request asks with a method for a path of the session with a name. -/
def Request.AsksIn (q : Request) (method : Method) (path : String → Route) (n : String) : Prop :=
  ∃ raw, q.Asks method (path raw) ∧ decodeName raw = .ok n

section
variable {q : Request} {method : Method} {path : String → Route} {n : String}

theorem Request.asksIn_iff (named : ∀ raw, (path raw).name? = some raw) :
    q.AsksIn method path n ↔ q.method = method ∧ (Route.ofTarget? q.target).any fun route =>
      route.name?.any fun raw => route = path raw ∧ (decodeName raw).toOption = some n := by
  unfold AsksIn Asks
  cases hroute : Route.ofTarget? q.target with
  | none => simp
  | some route =>
    cases hraw : route.name? with
    | none =>
      have other : ∀ raw, route ≠ path raw := fun raw same => by
        cases (same ▸ hraw).symm.trans (named raw)
      simp [hraw, other]
    | some raw =>
      -- The path has only one parameter, so the one that is asked for is the one that the route names.
      have only : ∀ raw', route = path raw' → raw' = raw := fun raw' same => by
        cases (same ▸ hraw).symm.trans (named raw')
        rfl
      have here : (∃ raw', (q.method = method ∧ route = path raw') ∧ decodeName raw' = .ok n) ↔
          q.method = method ∧ route = path raw ∧ decodeName raw = .ok n := by
        constructor
        · rintro ⟨raw', ⟨hm, same⟩, hname⟩
          cases only raw' same
          exact ⟨hm, same, hname⟩
        · rintro ⟨hm, same, hname⟩
          exact ⟨raw, ⟨hm, same⟩, hname⟩
      simpa [hraw, toOption_eq_some_iff] using here

instance : Decidable (q.AsksIn method .session n) :=
  decidable_of_iff _ (Request.asksIn_iff fun _ => rfl).symm

instance : Decidable (q.AsksIn method .selectedLine n) :=
  decidable_of_iff _ (Request.asksIn_iff fun _ => rfl).symm

instance : Decidable (q.AsksIn method .selectedNodes n) :=
  decidable_of_iff _ (Request.asksIn_iff fun _ => rfl).symm

end

/-! ### What requests read -/

section
variable {q : Request} {path : String → Route} {n : String} {query : Query} {r : Registry} {s : Session}

/-- A request that gets something of a session is a query on it. -/
theorem Request.AsksIn.action_of_get (h : q.AsksIn .get path n)
    (gets : ∀ raw, (path raw).get? = some (.onName raw (.query · query))) : q.action = .query n query := by
  obtain ⟨raw, hq, hname⟩ := h
  exact (hq.action_of_get (gets raw)).trans (Action.onName_of_ok hname _)

/-- What is got of a session is what the query answers, and the registry stays as it is. -/
theorem Request.AsksIn.handle_get (h : q.AsksIn .get path n)
    (gets : ∀ raw, (path raw).get? = some (.onName raw (.query · query))) (found : r.find? n = some s) :
    r.handle q = ((query.run s).1, r) := by
  have action := h.action_of_get gets
  obtain ⟨raw, hq, hname⟩ := h
  have reads : ¬ q.action.Writes := by
    rw [hq.action_of_get (gets raw)]
    exact Route.reads_get? (gets raw)
  have answer : (r.handle q).1 = (query.run s).1 := by
    rw [hq.handle_fst (by decide), action, Action.run_query_of_known _ found]
  exact Prod.ext answer (Action.run_of_reads reads)

end

/-! ### What requests write -/

section
variable {q : Request} {a : Action} {raw n : String} {r : Registry} {s : Session}

theorem Action.of_onName {f : String → Action} (h : Action.onName raw f = a) (writes : a.Writes) :
    ∃ name, decodeName raw = .ok name ∧ f name = a := by
  cases hname : decodeName raw with
  | ok name => exact ⟨name, rfl, (onName_of_ok hname f).symm.trans h⟩
  | error e =>
    rw [← h, onName_of_error hname] at writes
    exact writes.elim

/-- A post with a body asks for a query, or it is refused for its body. -/
theorem Request.posted_cases {α : Type} (hname : decodeName raw = .ok n) (body : Json.Reader α) (f : α → Query) :
    let a := Action.onName raw fun name => .ofExcept do return .query name (f (← q.read body))
    (∃ x, q.read body = .ok x ∧ a = .query n (f x)) ∨ ∃ e, q.read body = .error e ∧ a = .reply e.response := by
  rw [Action.onName_of_ok hname]
  cases hb : q.read body with
  | ok x => exact Or.inl ⟨x, rfl, rfl⟩
  | error e => exact Or.inr ⟨e, rfl, rfl⟩

/-- A post to the line of a session clicks the line in its body, if it can be read. -/
theorem Request.AsksIn.action_of_line (h : q.AsksIn .post .selectedLine n) :
    (∃ click, q.read (Json.Reader.record lineClickRecord) = .ok click ∧ q.action = .query n (.click click.line)) ∨
      ∃ e, q.read (Json.Reader.record lineClickRecord) = .error e ∧ q.action = .reply e.response := by
  obtain ⟨raw, hq, hname⟩ := h
  rw [hq.action_of_post rfl]
  exact posted_cases hname _ fun click : LineClick => .click click.line

/-- A post to the nodes of a session selects the nodes in its body, if it can be read. -/
theorem Request.AsksIn.action_of_nodes (h : q.AsksIn .post .selectedNodes n) :
    (∃ selection, q.read (Json.Reader.record nodeSelectionRecord) = .ok selection ∧
        q.action = .query n (.select selection.nodes)) ∨
      ∃ e, q.read (Json.Reader.record nodeSelectionRecord) = .error e ∧ q.action = .reply e.response := by
  obtain ⟨raw, hq, hname⟩ := h
  rw [hq.action_of_post rfl]
  exact posted_cases hname _ fun selection : NodeSelection => .select selection.nodes

theorem Request.AsksIn.action_of_click {line : Int64} (h : q.AsksIn .post .selectedLine n)
    (body : q.read (Json.Reader.record lineClickRecord) = .ok ⟨line⟩) : q.action = .query n (.click line) := by
  rcases h.action_of_line with ⟨click, read, action⟩ | ⟨e, unread, -⟩
  · cases body.symm.trans read
    exact action
  · cases body.symm.trans unread

theorem Request.AsksIn.action_of_choice {ids : List NodeId} (h : q.AsksIn .post .selectedNodes n)
    (body : q.read (Json.Reader.record nodeSelectionRecord) = .ok ⟨ids⟩) : q.action = .query n (.select ids) := by
  rcases h.action_of_nodes with ⟨selection, read, action⟩ | ⟨e, unread, -⟩
  · cases body.symm.trans read
    exact action
  · cases body.symm.trans unread

theorem Request.Asks.action_of_delete {route : Route} (h : q.Asks .delete route) (ha : route.delete? = some a) :
    q.action = a := by
  rw [action_of_route h.2, Route.action?, h.1, ha]
  rfl

/-- Whatever writes creates a session, deletes one, or is posted to the line or the nodes of one. -/
theorem Request.writes_cases (h : q.action.Writes) :
    (∃ s, q.action = .register s) ∨ (∃ n, q.AsksIn .delete .session n ∧ q.action = .remove n) ∨
      ∃ n query, (q.AsksIn .post .selectedLine n ∨ q.AsksIn .post .selectedNodes n) ∧ q.action = .query n query := by
  cases hroute : Route.ofTarget? q.target with
  | none =>
    unfold action at h
    rw [hroute] at h
    exact h.elim
  | some route =>
    rcases method_of_writes h with post | delete
    · cases route with
      | sessions =>
        have asks : q.Asks .post .sessions := ⟨post, hroute⟩
        rcases asks.action_of_create with ⟨-, s, -, -, ha⟩ | ⟨e, ha⟩
        · exact Or.inl ⟨s, ha⟩
        · rw [ha] at h
          exact h.elim
      | selectedLine raw =>
        have asks : q.Asks .post (.selectedLine raw) := ⟨post, hroute⟩
        obtain ⟨n, hname, -⟩ := Action.of_onName (asks.action_of_post rfl).symm h
        have asks : q.AsksIn .post .selectedLine n := ⟨raw, asks, hname⟩
        rcases asks.action_of_line with ⟨click, -, ha⟩ | ⟨e, -, ha⟩
        · exact Or.inr (Or.inr ⟨n, _, Or.inl asks, ha⟩)
        · rw [ha] at h
          exact h.elim
      | selectedNodes raw =>
        have asks : q.Asks .post (.selectedNodes raw) := ⟨post, hroute⟩
        obtain ⟨n, hname, -⟩ := Action.of_onName (asks.action_of_post rfl).symm h
        have asks : q.AsksIn .post .selectedNodes n := ⟨raw, asks, hname⟩
        rcases asks.action_of_nodes with ⟨selection, -, ha⟩ | ⟨e, -, ha⟩
        · exact Or.inr (Or.inr ⟨n, _, Or.inr asks, ha⟩)
        · rw [ha] at h
          exact h.elim
      | _ =>
        rw [action_of_route hroute, Route.action?, post] at h
        exact h.elim
    · cases route with
      | session raw =>
        have asks : q.Asks .delete (.session raw) := ⟨delete, hroute⟩
        have action : q.action = .onName raw .remove := asks.action_of_delete rfl
        obtain ⟨n, hname, ha⟩ := Action.of_onName action.symm h
        exact Or.inr (Or.inl ⟨n, ⟨raw, asks, hname⟩, ha.symm⟩)
      | _ =>
        rw [action_of_route hroute, Route.action?, delete] at h
        exact h.elim

end

/-! ### Gestures that were granted -/

def Gesture.query : Gesture → Query
  | .click line => .click line
  | .select ids => .select ids

/-- The session after some clicks and choices of nodes. -/
def Session.afterAll (s : Session) (gestures : List Gesture) : Session :=
  { s with selection := s.selection.afterAll (gestures.map Gesture.move) }

theorem Gesture.run_query (g : Gesture) (s : Session) : g.query.run s = ((s.afterAll [g]).shown, s.afterAll [g]) := by
  cases g <;> rfl

theorem Session.afterAll_append (s : Session) (gestures more : List Gesture) :
    s.afterAll (gestures ++ more) = (s.afterAll gestures).afterAll more := by
  unfold afterAll
  rw [List.map_append, Selection.afterAll_append]

/-- What every query keeps of a session, gestures keep. -/
theorem Session.afterAll_keeps {P : Session → Prop} (keeps : ∀ s (query : Query), P s → P (query.run s).2) {s : Session}
    (h : P s) (gestures : List Gesture) : P (s.afterAll gestures) := by
  induction gestures generalizing s with
  | nil => exact h
  | cons g rest ih =>
    have first := keeps s g.query h
    rw [g.run_query] at first
    exact afterAll_append s [g] rest ▸ ih first

namespace Registry
variable {r : Registry} {q : Request} {requests : List Request} {n : String} {s : Session}

/-- The requests that are granted, in the course of some. -/
def granted (r : Registry) (requests : List Request) : List Request :=
  ((requests.zip (r.handleAll requests).1).filter fun answered => answered.2.status = 200).map (·.1)

theorem granted_singleton (r : Registry) (q : Request) :
    r.granted [q] = if (r.handle q).1.status = 200 then [q] else [] := by
  unfold granted
  rw [handleAll_cons, List.zip_cons_cons, List.filter_cons]
  by_cases status : (r.handle q).1.status = 200
  · rw [if_pos status, if_pos (decide_eq_true status)]
    rfl
  · rw [if_neg status, if_neg (by simpa using status)]
    rfl

theorem granted_cons (r : Registry) (q : Request) (rest : List Request) :
    r.granted (q :: rest) = r.granted [q] ++ (r.handle q).2.granted rest := by
  unfold granted
  rw [handleAll_cons, handleAll_cons, List.zip_cons_cons, List.zip_cons_cons, List.filter_cons, List.filter_cons]
  split <;> rfl

/-- What some requests leave of a session: its state after some gestures, which are those of the posts that are
granted. -/
structure Leaves (r : Registry) (requests : List Request) (n : String) (s : Session) (gestures : List Gesture) :
    Prop where
  session : (r.handleAll requests).2.find? n = some (s.afterAll gestures)
  lines : ((r.granted requests).filter (·.AsksIn .post .selectedLine n)).map
      (·.read (Json.Reader.record lineClickRecord)) = (Gesture.lines gestures).map fun line => .ok ⟨line⟩
  choices : ((r.granted requests).filter (·.AsksIn .post .selectedNodes n)).map
      (·.read (Json.Reader.record nodeSelectionRecord)) = (Gesture.choices gestures).map fun ids => .ok ⟨ids⟩

theorem Leaves.cons {gestures more : List Gesture} (first : r.Leaves [q] n s gestures)
    (rest : (r.handle q).2.Leaves requests n (s.afterAll gestures) more) :
    r.Leaves (q :: requests) n s (gestures ++ more) where
  session := by
    rw [handleAll_cons, Session.afterAll_append]
    exact rest.session
  lines := by
    rw [granted_cons, List.filter_append, List.map_append, first.lines, rest.lines, Gesture.lines_append,
      List.map_append]
  choices := by
    rw [granted_cons, List.filter_append, List.map_append, first.choices, rest.choices, Gesture.choices_append,
      List.map_append]

/-! ### One request -/

theorem leaves_of_error (found : r.find? n = some s) {e : ServiceError} (action : q.action = .reply e.response) :
    r.Leaves [q] n s [] := by
  have handled : r.handle q = (q.deliver e.response, r) := by
    rw [handle_eq, action]
    rfl
  have refused : (r.handle q).1.status ≠ 200 := by
    rw [handled, Request.status_deliver]
    exact e.status_response_ne
  have nothing : r.granted [q] = [] := by
    rw [granted_singleton, if_neg refused]
  refine ⟨?_, ?_, ?_⟩
  · rw [handleAll_cons, handled]
    exact found
  · rw [nothing]
    rfl
  · rw [nothing]
    rfl

/-- A post to the selection of a session that is there is granted, and the session makes the gesture. -/
theorem granted_gesture (found : r.find? n = some s) {g : Gesture} (action : q.action = .query n g.query) :
    r.granted [q] = [q] ∧ (r.handle q).2.find? n = some (s.afterAll [g]) := by
  have run : q.action.run r = ((s.afterAll [g]).shown, r.replace n (s.afterAll [g])) := by
    rw [action, Action.run_query_of_known _ found, g.run_query]
  rw [granted_singleton, handle_eq, Request.status_deliver, run]
  refine ⟨if_pos rfl, ?_⟩
  rw [Catalog.find?_replace, if_pos rfl, found]
  rfl

/-- A session that is neither deleted nor posted to stays as it is. -/
theorem find?_handle_of_kept (found : r.find? n = some s) (kept : ¬ q.AsksIn .delete .session n)
    (line : ¬ q.AsksIn .post .selectedLine n) (nodes : ¬ q.AsksIn .post .selectedNodes n) :
    (r.handle q).2.find? n = some s := by
  have stays : q.action.subject? ≠ some n → (r.handle q).2.find? n = some s :=
    fun other => (Action.find?_run_of_other other).trans found
  by_cases writes : q.action.Writes
  · rcases Request.writes_cases writes with ⟨t, action⟩ | ⟨m, asks, action⟩ | ⟨m, query, asks, action⟩
    · by_cases same : t.name = n
      · -- The name is taken, so that the session is not replaced by a new one.
        have taken : r.find? t.name = some s := same ▸ found
        rw [handle_eq, action, Action.run_register_of_taken taken]
        exact found
      · refine stays fun subject => ?_
        rw [action] at subject
        exact same (Option.some.inj subject)
    · refine stays fun subject => ?_
      rw [action] at subject
      cases subject
      exact kept asks
    · refine stays fun subject => ?_
      rw [action] at subject
      cases subject
      exact asks.elim line nodes
  · have same : (r.handle q).2 = r := Action.run_of_reads writes
    rw [same]
    exact found

/-- A request that does not delete a session leaves it with at most one gesture more. -/
theorem exists_leaves_singleton (found : r.find? n = some s) (kept : ¬ q.AsksIn .delete .session n) :
    ∃ gestures, r.Leaves [q] n s gestures := by
  by_cases line : q.AsksIn .post .selectedLine n
  · -- The two paths of the selection differ, so that no request counts as both.
    have nodes : ¬ q.AsksIn .post .selectedNodes n := by
      rintro ⟨raw, ⟨-, nodes⟩, -⟩
      obtain ⟨raw', ⟨-, line⟩, -⟩ := line
      cases line.symm.trans nodes
    rcases line.action_of_line with ⟨click, read, action⟩ | ⟨e, -, action⟩
    · obtain ⟨granted, session⟩ := granted_gesture (g := .click click.line) found action
      refine ⟨[.click click.line], session, ?_, ?_⟩
      · simp [granted, line, read, Gesture.lines, Gesture.line?]
      · simp [granted, nodes, Gesture.choices, Gesture.ids?]
    · exact ⟨[], leaves_of_error found action⟩
  · by_cases nodes : q.AsksIn .post .selectedNodes n
    · rcases nodes.action_of_nodes with ⟨selection, read, action⟩ | ⟨e, -, action⟩
      · obtain ⟨granted, session⟩ := granted_gesture (g := .select selection.nodes) found action
        refine ⟨[.select selection.nodes], session, ?_, ?_⟩
        · simp [granted, line, Gesture.lines, Gesture.line?]
        · simp [granted, nodes, read, Gesture.choices, Gesture.ids?]
      · exact ⟨[], leaves_of_error found action⟩
    · refine ⟨[], find?_handle_of_kept found kept line nodes, ?_, ?_⟩
      · rw [granted_singleton]
        split <;> simp [line, Gesture.lines]
      · rw [granted_singleton]
        split <;> simp [nodes, Gesture.choices]

/-- Requests that do not delete a session leave it with the gestures that were granted. -/
theorem exists_leaves (found : r.find? n = some s) (kept : ∀ q ∈ requests, ¬ q.AsksIn .delete .session n) :
    ∃ gestures, r.Leaves requests n s gestures := by
  -- What carries the induction is that the session is there before every request.
  induction requests generalizing r s with
  | nil => exact ⟨[], found, rfl, rfl⟩
  | cons q rest ih =>
    obtain ⟨first, others⟩ := List.forall_mem_cons.mp kept
    obtain ⟨gestures, left⟩ := exists_leaves_singleton found first
    obtain ⟨more, left'⟩ := ih left.session others
    exact ⟨gestures ++ more, left.cons left'⟩

/-- What a creation answers, and what is left of its session until it is deleted. -/
theorem exists_leaves_of_created {d : SessionDraft} (asks : q.Asks .post .sessions) (draft : q.draft = .ok d)
    (created : (r.handle q).1.status = 200) (kept : ∀ q ∈ requests, ¬ q.AsksIn .delete .session d.name) :
    ∃ s gestures, d.toSession = .ok s ∧ (r.handle q).1 = s.created ∧
      (r.handle q).2.Leaves requests d.name s gestures := by
  obtain ⟨s, hs, -, answer, found⟩ := of_created asks draft created
  obtain ⟨gestures, left⟩ := exists_leaves found kept
  exact ⟨s, gestures, hs, answer, left⟩

end Registry

end CipherGraph
