import CipherGraph.Proofs.Service.Creation

/-! # Requests that change nothing

A session is registered or removed, or it is clicked or selected in; nothing else writes. What writes comes from a
request that posts or deletes, and it is answered with success. So whatever is refused, and whatever only reads, leaves
the registry as it was. -/

namespace CipherGraph

/-- A query that changes the session. -/
def Query.Writes : Query → Prop
  | .click _ => True
  | .select _ => True
  | _ => False

/-- An action that changes the registry, if it succeeds. -/
def Action.Writes : Action → Prop
  | .reply _ => False
  | .list => False
  | .register _ => True
  | .remove _ => True
  | .query _ q => q.Writes

/-! ### What writes succeeds -/

section
variable {q : Query} {s : Session} {a : Action} {r : Registry}

theorem Query.run_of_reads (h : ¬ q.Writes) : (q.run s).2 = s := by
  cases q with
  | rendering =>
    simp only [run]
    split <;> rfl
  | click line => exact absurd trivial h
  | select ids => exact absurd trivial h
  | _ => rfl

theorem Query.status_of_writes (h : q.Writes) : (q.run s).1.status = 200 := by
  cases q with
  | click line => rfl
  | select ids => rfl
  | _ => exact h.elim

theorem Action.run_of_reads (h : ¬ a.Writes) : (a.run r).2 = r := by
  rcases a.run_cases r with same | ⟨s, free, rfl, -⟩ | ⟨name, s, rfl, -, -⟩ | ⟨name, q, s, rfl, found, run⟩
  · exact same
  · exact absurd trivial h
  · exact absurd trivial h
  · rw [run, Query.run_of_reads h]
    exact Catalog.replace_of_find?_eq_some found

theorem Action.run_of_refused (h : (a.run r).1.status ≠ 200) : (a.run r).2 = r := by
  rcases a.run_cases r with same | ⟨s, free, -, run⟩ | ⟨name, s, -, -, run⟩ | ⟨name, q, s, rfl, -, run⟩
  · exact same
  · rw [run] at h
    exact absurd rfl h
  · rw [run] at h
    exact absurd rfl h
  · -- A query that writes is answered with success, so this one only reads.
    refine run_of_reads fun writes => h ?_
    rw [run]
    exact Query.status_of_writes writes

end

/-! ### What writes is posted or deleted -/

theorem Action.reads_onName {raw : String} {f : String → Action} (h : ∀ name, ¬ (f name).Writes) :
    ¬ (Action.onName raw f).Writes := by
  rcases onName_cases raw f with ⟨response, ha, -⟩ | ⟨name, ha⟩
  · rw [ha]
    exact id
  · rw [ha]
    exact h name

theorem Route.reads_get? {route : Route} {a : Action} (h : route.get? = some a) : ¬ a.Writes := by
  cases route with
  | sessions => cases h; exact id
  | node raw id =>
    simp only [get?] at h
    split at h
    · cases h
      exact fun writes => writes
    · cases h
      exact fun writes => writes
  | session raw => cases h; exact Action.reads_onName fun _ => id
  | rendering raw => cases h; exact Action.reads_onName fun _ => id
  | selection raw => cases h; exact Action.reads_onName fun _ => id
  | source raw => cases h; exact Action.reads_onName fun _ => id
  | selectedLine raw => cases h
  | selectedNodes raw => cases h

namespace Request
variable {q : Request} {r : Registry}

theorem method_of_writes (h : q.action.Writes) : q.method = .post ∨ q.method = .delete := by
  cases hroute : Route.ofTarget? q.target with
  | none =>
    unfold action at h
    rw [hroute] at h
    exact h.elim
  | some route =>
    rw [action_of_route hroute] at h
    cases ha : route.action? q with
    | none =>
      rw [ha] at h
      exact h.elim
    | some a =>
      rw [ha] at h
      unfold Route.action? at ha
      split at ha
      · exact absurd h (Route.reads_get? ha)
      · exact absurd h (Route.reads_get? ha)
      · next post => exact Or.inl post
      · next delete => exact Or.inr delete
      · cases ha
        exact h.elim
      · cases ha

/-! ### Creations that fail -/

/-- Something is wrong with a request to create a session: its content type, its length, its body, the name, a program
that cannot be decoded or has a dangling edge, be it that of the draft or that of a line, or a name that is taken. -/
def CreationFails (q : Request) (r : Registry) : Prop :=
  q.contentType.any namesJson = false ∨
  ¬ q.Fits ∨
  (∃ fault, Json.Reader.document (Json.Reader.record sessionDraftRecord) q.body = .error fault) ∨
  ∃ d, Json.Reader.document (Json.Reader.record sessionDraftRecord) q.body = .ok d ∧
    (Text.isBlankText d.name = true ∨
      (∃ e, Program.ofJson d.program = .error e) ∨
      (∃ entry ∈ d.lines, ∃ e, Program.ofJson entry.2 = .error e) ∨
      (∃ p, Program.ofJson d.program = .ok p ∧ ¬ p.InRange) ∨
      (∃ entry ∈ d.lines, ∃ p, Program.ofJson entry.2 = .ok p ∧ ¬ p.InRange) ∨
      ∃ s, r.find? d.name = some s)

theorem CreationFails.status_ne (h : q.CreationFails r) (hq : q.Asks .post .sessions) :
    (r.handle q).1.status ≠ 200 := by
  intro created
  rw [Registry.handle_eq, status_deliver] at created
  rcases hq.action_of_create with ⟨d, s, hd, hs, ha⟩ | ⟨e, ha⟩
  · -- A session came out of the draft, so all that could be wrong is that its name is taken.
    obtain ⟨named, fits, read⟩ := read_eq_ok_iff.mp hd
    obtain ⟨nonblank, p, lines, hp, hl, hcreate⟩ := SessionDraft.toSession_eq_ok hs
    obtain ⟨inRange, linesInRange, -⟩ := Session.create_eq_ok hcreate
    have decoded : ∀ entry ∈ d.lines, ∃ p, Program.ofJson entry.2 = .ok p ∧ p.InRange := by
      intro entry he
      obtain ⟨p', hp', hmem⟩ := mem_of_decodeLines hl he
      exact ⟨p', hp', linesInRange _ hmem⟩
    rcases h with unnamed | long | ⟨fault, unread⟩ | ⟨d', read', h⟩
    · cases named.symm.trans unnamed
    · exact long fits
    · cases read.symm.trans unread
    · cases read.symm.trans read'
      rcases h with blank | ⟨e, hp'⟩ | ⟨entry, he, e, hp'⟩ | ⟨p', hp', dangling⟩ | ⟨entry, he, p', hp', dangling⟩ |
        ⟨t, taken⟩
      · cases nonblank.symm.trans blank
      · cases hp.symm.trans hp'
      · obtain ⟨p', hp'', -⟩ := decoded entry he
        cases hp''.symm.trans hp'
      · cases hp.symm.trans hp'
        exact dangling inRange
      · obtain ⟨p'', hp'', inRange'⟩ := decoded entry he
        cases hp''.symm.trans hp'
        exact dangling inRange'
      · rw [ha, Action.run_register_of_taken (SessionDraft.name_toSession hs ▸ taken)] at created
        exact ServiceError.status_response_ne _ created
  · rw [ha] at created
    exact e.status_response_ne created

/-! ### Selections that fail -/

/-- Something is wrong with a request that posts a selection: the name in its path, its content type, its length, its
body, or there is no session with the name. -/
def SelectionFails {α : Type} (q : Request) (r : Registry) (raw : String) (body : Json.Reader α) : Prop :=
  (∃ e, decodeName raw = .error e) ∨
  q.contentType.any namesJson = false ∨
  ¬ q.Fits ∨
  (∃ fault, Json.Reader.document body q.body = .error fault) ∨
  ∃ name, decodeName raw = .ok name ∧ r.find? name = none

theorem SelectionFails.status_ne {α : Type} {raw : String} {body : Json.Reader α} (f : α → Query)
    (h : q.SelectionFails r raw body) :
    ((Action.onName raw fun name => .ofExcept do return .query name (f (← q.read body))).run r).1.status ≠ 200 := by
  cases hname : decodeName raw with
  | error e =>
    rw [Action.onName_of_error hname]
    exact fun found => by cases found
  | ok name =>
    rw [Action.onName_of_ok hname]
    cases hb : q.read body with
    | error e => exact e.status_response_ne
    | ok x =>
      obtain ⟨named, fits, read⟩ := read_eq_ok_iff.mp hb
      rcases h with ⟨e, hname'⟩ | unnamed | long | ⟨fault, unread⟩ | ⟨name', hname', unknown⟩
      · cases hname.symm.trans hname'
      · cases named.symm.trans unnamed
      · exact absurd fits long
      · cases read.symm.trans unread
      · cases hname.symm.trans hname'
        show ((Action.query name (f x)).run r).1.status ≠ 200
        rw [Action.run_query_of_unknown _ unknown]
        exact ServiceError.status_response_ne _

end Request

namespace Registry

/-- A request that is refused, or that neither posts nor deletes, leaves the registry as it was, with the selection of
every session. So a session that is not created leaves no trace, and a selection that is refused begins no click and
selects nothing, whatever is wrong with the request. -/
theorem handle_unchanged (r : Registry) (q : Request) :
    ((r.handle q).1.status ≠ 200 ∨ q.method ≠ .post ∧ q.method ≠ .delete → (r.handle q).2 = r) ∧
    (q.Asks .post .sessions → q.CreationFails r → (r.handle q).1.status ≠ 200 ∧ (r.handle q).2 = r) ∧
    (∀ raw, q.Asks .post (.selectedLine raw) → q.SelectionFails r raw (Json.Reader.record lineClickRecord) →
      (r.handle q).1.status ≠ 200 ∧ (r.handle q).2 = r) ∧
    (∀ raw, q.Asks .post (.selectedNodes raw) → q.SelectionFails r raw (Json.Reader.record nodeSelectionRecord) →
      (r.handle q).1.status ≠ 200 ∧ (r.handle q).2 = r) := by
  have refused : (r.handle q).1.status ≠ 200 → (r.handle q).1.status ≠ 200 ∧ (r.handle q).2 = r := by
    rw [handle_eq, Request.status_deliver]
    exact fun h => ⟨h, Action.run_of_refused h⟩
  refine ⟨fun h => ?_, fun hq fails => refused (fails.status_ne hq), fun raw hq fails => refused ?_,
    fun raw hq fails => refused ?_⟩
  · rcases h with status | ⟨post, delete⟩
    · exact (refused status).2
    · refine Action.run_of_reads fun writes => ?_
      rcases Request.method_of_writes writes with method | method
      · exact post method
      · exact delete method
  · rw [handle_eq, Request.status_deliver, hq.action_of_post rfl]
    exact fails.status_ne fun click => .click click.line
  · rw [handle_eq, Request.status_deliver, hq.action_of_post rfl]
    exact fails.status_ne fun selection => .select selection.nodes

/-- A draft in which an edge dangles, in the program of a line. -/
def flawedCreation : Request where
  method := .post
  target := "/sessions"
  contentType := some "application/json"
  body := "\x7b\"name\":\"x\",\"graph\":\x7b\"nodes\":[],\"edges\":[]\x7d,\"lines\":\x7b\"3\":" ++
    "\x7b\"nodes\":[\x7b\"operation\":\"Add\"\x7d],\"edges\":[[5,0,\"Left\"]]\x7d\x7d\x7d"

theorem flawed_creation_unchanged :
    flawedCreation.Asks .post .sessions ∧ flawedCreation.CreationFails (start true) ∧
      ((start true).handle flawedCreation).1.status ≠ 200 ∧
      ((start true).handle flawedCreation).2 = start true := by
  have asks : flawedCreation.Asks .post .sessions := ⟨rfl, rfl⟩
  have flawed : (Json.Reader.document (Json.Reader.record sessionDraftRecord) flawedCreation.body).toOption.any
      fun d => d.lines.any fun entry => (Program.ofJson entry.2).toOption.any fun p => !decide p.InRange := by
    decide +kernel
  have fails : flawedCreation.CreationFails (start true) := by
    obtain ⟨d, read, flawed⟩ := (Option.any_eq_true _ _).mp flawed
    obtain ⟨entry, he, flawed⟩ := List.any_eq_true.mp flawed
    obtain ⟨p, hp, dangling⟩ := (Option.any_eq_true _ _).mp flawed
    refine Or.inr (Or.inr (Or.inr ⟨d, toOption_eq_some_iff.mp read, ?_⟩))
    refine Or.inr (Or.inr (Or.inr (Or.inr (Or.inl ⟨entry, he, p, toOption_eq_some_iff.mp hp, ?_⟩))))
    simpa using dangling
  obtain ⟨-, unchanged, -⟩ := handle_unchanged (start true) flawedCreation
  exact ⟨asks, fails, unchanged asks fails⟩

end Registry

end CipherGraph
