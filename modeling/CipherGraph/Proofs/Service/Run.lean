import CipherGraph.Service.Dispatch

/-! # Runs of the service

What one request does to the registry, and what many requests do one after the other. A property that every
request keeps is kept by every run. -/

namespace CipherGraph

/-! ### What an action does -/

section
variable {r : Registry} {s : Session}

theorem Registry.register_of_free (free : r.find? s.name = none) :
    r.register s = .ok (r.enter s.name s free) := by
  unfold register
  split
  · next found => cases found.symm.trans free
  · rfl

theorem Registry.register_of_taken {t : Session} (taken : r.find? s.name = some t) :
    r.register s = .error (.takenName s.name) := by
  unfold register
  split
  · rfl
  · next found => cases found.symm.trans taken

namespace Action
variable {name : String}

theorem run_register_of_free (free : r.find? s.name = none) :
    (register s).run r = (s.created, r.enter s.name s free) := by
  simp only [run, Registry.register_of_free free]

theorem run_register_of_taken {t : Session} (taken : r.find? s.name = some t) :
    (register s).run r = ((ServiceError.takenName s.name).response, r) := by
  simp only [run, Registry.register_of_taken taken]

theorem run_remove_of_known (known : r.find? name = some s) : (remove name).run r = (removed, r.erase name) := by
  simp only [run, Registry.remove, known]

theorem run_remove_of_unknown (unknown : r.find? name = none) :
    (remove name).run r = ((ServiceError.unknownSession name).response, r) := by
  simp only [run, Registry.remove, unknown]

theorem run_query_of_known (q : Query) (known : r.find? name = some s) :
    (query name q).run r = ((q.run s).1, r.replace name (q.run s).2) := by
  simp only [run, Registry.get, known]

theorem run_query_of_unknown (q : Query) (unknown : r.find? name = none) :
    (query name q).run r = ((ServiceError.unknownSession name).response, r) := by
  simp only [run, Registry.get, unknown]

/-- All that an action can do: it leaves the registry, it enters or erases a session, or it runs a query on one. -/
theorem run_cases (a : Action) (r : Registry) :
    (a.run r).2 = r ∨
      (∃ s free, a = .register s ∧ a.run r = (s.created, r.enter s.name s free)) ∨
      (∃ name s, a = .remove name ∧ r.find? name = some s ∧ a.run r = (removed, r.erase name)) ∨
      ∃ name q s, a = .query name q ∧ r.find? name = some s ∧
        a.run r = ((q.run s).1, r.replace name (q.run s).2) := by
  cases a with
  | reply response => exact Or.inl rfl
  | list => exact Or.inl rfl
  | register s =>
    cases found : r.find? s.name with
    | none => exact Or.inr (Or.inl ⟨s, found, rfl, run_register_of_free found⟩)
    | some t => exact Or.inl (congrArg Prod.snd (run_register_of_taken found))
  | remove name =>
    cases found : r.find? name with
    | none => exact Or.inl (congrArg Prod.snd (run_remove_of_unknown found))
    | some s => exact Or.inr (Or.inr (Or.inl ⟨name, s, rfl, found, run_remove_of_known found⟩))
  | query name q =>
    cases found : r.find? name with
    | none => exact Or.inl (congrArg Prod.snd (run_query_of_unknown q found))
    | some s => exact Or.inr (Or.inr (Or.inr ⟨name, q, s, rfl, found, run_query_of_known q found⟩))

end Action
end

/-! ### What requests do -/

/-- A request is answered by its action, and the response is delivered. -/
theorem Registry.handle_eq (r : Registry) (q : Request) :
    r.handle q = (q.deliver (q.action.run r).1, (q.action.run r).2) :=
  rfl

theorem Registry.handle_fst {r : Registry} {q : Request} (hm : q.method ≠ .head) :
    (r.handle q).1 = (q.action.run r).1 :=
  if_neg hm

/-- The head of a response has its status. -/
theorem Request.status_deliver (q : Request) (response : Response) : (q.deliver response).status = response.status := by
  unfold deliver
  split <;> rfl

theorem Registry.handleAll_cons (r : Registry) (q : Request) (rest : List Request) :
    r.handleAll (q :: rest) =
      ((r.handle q).1 :: ((r.handle q).2.handleAll rest).1, ((r.handle q).2.handleAll rest).2) :=
  rfl

/-- What every request keeps is kept by every run. -/
theorem Registry.handleAll_keeps {P : Registry → Prop} (keeps : ∀ r q, P r → P (r.handle q).2) {r : Registry}
    (h : P r) (requests : List Request) : P (r.handleAll requests).2 := by
  induction requests generalizing r with
  | nil => exact h
  | cons q rest ih => exact ih (keeps r q h)

theorem Registry.handleAll_of_unchanged {r : Registry} {requests : List Request} (h : ∀ q ∈ requests, (r.handle q).2 = r) :
    (r.handleAll requests).2 = r := by
  induction requests with
  | nil => rfl
  | cons q rest ih =>
    obtain ⟨first, others⟩ := List.forall_mem_cons.mp h
    rw [handleAll_cons, first]
    exact ih others

/-! ### What a request asks for -/

/-- A request asks for a route with a method. -/
def Request.Asks (q : Request) (method : Method) (route : Route) : Prop :=
  q.method = method ∧ Route.ofTarget? q.target = some route

theorem Request.action_of_route {q : Request} {route : Route} (h : Route.ofTarget? q.target = some route) :
    q.action = (route.action? q).getD (.reply { status := 405, allow := some route.allow }) := by
  unfold action
  rw [h]

theorem Request.Asks.handle_fst {q : Request} {method : Method} {route : Route} (h : q.Asks method route)
    (hm : method ≠ .head) (r : Registry) : (r.handle q).1 = (q.action.run r).1 :=
  Registry.handle_fst (h.1 ▸ hm)

theorem Request.Asks.action_of_get {q : Request} {route : Route} {a : Action} (h : q.Asks .get route)
    (ha : route.get? = some a) : q.action = a := by
  rw [action_of_route h.2, Route.action?, h.1, ha]
  rfl

theorem Request.Asks.action_of_post {q : Request} {route : Route} {a : Action} (h : q.Asks .post route)
    (ha : route.post? q = some a) : q.action = a := by
  rw [action_of_route h.2, Route.action?, h.1, ha]
  rfl

theorem Action.onName_of_ok {raw name : String} (h : decodeName raw = .ok name) (f : String → Action) :
    Action.onName raw f = f name := by
  unfold onName
  rw [h]

theorem Action.onName_of_error {raw : String} {e : ParameterError} (h : decodeName raw = .error e)
    (f : String → Action) : Action.onName raw f = .reply (.text 400 e.message) := by
  unfold onName
  rw [h]

theorem ServiceError.status_response_ne (e : ServiceError) : e.response.status ≠ 200 := by
  show e.refusal.kind.status ≠ 200
  cases e.refusal.kind <;> decide

/-- A name that cannot be decoded is refused. -/
theorem Action.onName_cases (raw : String) (f : String → Action) :
    (∃ response, Action.onName raw f = .reply response ∧ response.status ≠ 200) ∨
      ∃ name, Action.onName raw f = f name := by
  cases hname : decodeName raw with
  | ok name => exact Or.inr ⟨name, onName_of_ok hname f⟩
  | error e => exact Or.inl ⟨_, onName_of_error hname f, fun h => by cases h⟩

/-- A body that cannot be read is refused. -/
theorem Request.read_cases {α : Type} (q : Request) (body : Json.Reader α) (f : α → Action) :
    let a := Action.ofExcept do return f (← q.read body)
    (∃ response, a = .reply response ∧ response.status ≠ 200) ∨ ∃ x, a = f x := by
  cases hb : q.read body with
  | ok x => exact Or.inr ⟨x, rfl⟩
  | error e => exact Or.inl ⟨_, rfl, e.status_response_ne⟩

/-- The parameter of a path that names a session, as it was sent. -/
def Route.name? : Route → Option String
  | .sessions => none
  | .session name => some name
  | .rendering name => some name
  | .node name _ => some name
  | .selection name => some name
  | .selectedLine name => some name
  | .selectedNodes name => some name
  | .source name => some name

theorem Route.name?_eq_none_iff {route : Route} : route.name? = none ↔ route = .sessions := by
  cases route <;> simp [name?]

/-- An action that looks at no session but the one that a parameter names. -/
def Action.Names (raw : String) : Action → Prop
  | .reply _ => True
  | .query name _ => decodeName raw = .ok name
  | .remove name => decodeName raw = .ok name
  | .list => False
  | .register _ => False

section Names
variable {route : Route} {raw : String}

theorem Action.names_onName {f : String → Action} (h : ∀ name, decodeName raw = .ok name → (f name).Names raw) :
    (Action.onName raw f).Names raw := by
  cases hname : decodeName raw with
  | ok name =>
    rw [onName_of_ok hname]
    exact h name hname
  | error e =>
    rw [onName_of_error hname]
    exact trivial

theorem Action.names_ofExcept {e : Except ServiceError Action} (h : ∀ a, e = .ok a → a.Names raw) :
    (Action.ofExcept e).Names raw := by
  cases e with
  | ok a => exact h a rfl
  | error e => exact trivial

theorem decodeName_of_decodeNode {id : String} {n : String × UInt32} (h : decodeNode raw id = .ok n) :
    decodeName raw = .ok n.1 := by
  unfold decodeNode at h
  cases hname : decodeName raw with
  | error e => rw [hname] at h; cases h
  | ok name =>
    cases hid : decodeParameter "node_id" id with
    | error e => rw [hname, hid] at h; cases h
    | ok id =>
      rw [hname, hid] at h
      simp only [bind, Except.bind] at h
      split at h <;> cases h
      rfl

theorem Route.names_get? (hraw : route.name? = some raw) {a : Action} (h : route.get? = some a) : a.Names raw := by
  cases route with
  | sessions => cases hraw
  | node r id =>
    cases hraw
    simp only [get?] at h
    split at h
    · next hn =>
      cases h
      exact decodeName_of_decodeNode hn
    · cases h
      exact trivial
  | session r => cases hraw; cases h; exact Action.names_onName fun _ h => h
  | rendering r => cases hraw; cases h; exact Action.names_onName fun _ h => h
  | selection r => cases hraw; cases h; exact Action.names_onName fun _ h => h
  | source r => cases hraw; cases h; exact Action.names_onName fun _ h => h
  | selectedLine r => cases h
  | selectedNodes r => cases h

theorem Route.names_post? (hraw : route.name? = some raw) {q : Request} {a : Action} (h : route.post? q = some a) :
    a.Names raw := by
  cases route with
  | sessions => cases hraw
  | selectedLine r =>
    cases hraw
    cases h
    refine Action.names_onName fun name hname => Action.names_ofExcept fun a ha => ?_
    cases hb : q.read (Json.Reader.record lineClickRecord) with
    | error e => rw [hb] at ha; cases ha
    | ok click => rw [hb] at ha; cases ha; exact hname
  | selectedNodes r =>
    cases hraw
    cases h
    refine Action.names_onName fun name hname => Action.names_ofExcept fun a ha => ?_
    cases hb : q.read (Json.Reader.record nodeSelectionRecord) with
    | error e => rw [hb] at ha; cases ha
    | ok selection => rw [hb] at ha; cases ha; exact hname
  | _ => cases h

theorem Route.names_delete? (hraw : route.name? = some raw) {a : Action} (h : route.delete? = some a) :
    a.Names raw := by
  cases route with
  | session r => cases hraw; cases h; exact Action.names_onName fun _ h => h
  | _ => cases h

/-- A request on a path with a name looks at no other session. -/
theorem Request.action_names {q : Request} (hroute : Route.ofTarget? q.target = some route)
    (hraw : route.name? = some raw) : q.action.Names raw := by
  rw [action_of_route hroute]
  cases h : route.action? q with
  | none => exact trivial
  | some a =>
    show a.Names raw
    unfold Route.action? at h
    split at h
    · exact Route.names_get? hraw h
    · exact Route.names_get? hraw h
    · exact Route.names_post? hraw h
    · exact Route.names_delete? hraw h
    · cases h; exact trivial
    · cases h

end Names

end CipherGraph
