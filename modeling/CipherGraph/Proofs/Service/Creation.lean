import CipherGraph.Proofs.Outcome
import CipherGraph.Proofs.Service.Run
import CipherGraph.Proofs.Session.Sound

/-! # Creations

What has to hold of a request for a session to be created from it. The name of its draft is not blank, the programs in
it can be decoded, none of them has a dangling edge, and the name is free. -/

namespace CipherGraph

/-! ### Drafts -/

/-- The lines of a draft are decoded one after the other. -/
theorem decodeLines_cons_eq_ok_iff {entry : Int64 × Json} {rest : Overrides Json} {programs : Overrides Program} :
    decodeLines (entry :: rest) = .ok programs ↔
      ∃ p decoded, Program.ofJson entry.2 = .ok p ∧ decodeLines rest = .ok decoded ∧
        programs = (entry.1, p) :: decoded := by
  obtain ⟨line, v⟩ := entry
  rw [decodeLines]
  cases hp : Program.ofJson v with
  | error e => simp
  | ok p =>
    constructor
    · intro h
      obtain ⟨decoded, hrest, rfl⟩ := map_eq_ok_iff.mp h
      exact ⟨p, decoded, rfl, hrest, rfl⟩
    · rintro ⟨_, decoded, ⟨⟩, hrest, rfl⟩
      exact map_eq_ok_iff.mpr ⟨decoded, hrest, rfl⟩

/-- Where the lines of a draft are decoded, each of them is, and its program stands under its line. -/
theorem mem_of_decodeLines {lines : Overrides Json} {programs : Overrides Program} {entry : Int64 × Json}
    (h : decodeLines lines = .ok programs) (he : entry ∈ lines) :
    ∃ p, Program.ofJson entry.2 = .ok p ∧ (entry.1, p) ∈ programs := by
  induction lines generalizing programs with
  | nil => cases he
  | cons head rest ih =>
    obtain ⟨p, decoded, hp, hrest, rfl⟩ := decodeLines_cons_eq_ok_iff.mp h
    rcases List.mem_cons.mp he with rfl | he
    · exact ⟨p, hp, List.mem_cons_self⟩
    · obtain ⟨p', hp', hmem⟩ := ih hrest he
      exact ⟨p', hp', List.mem_cons_of_mem _ hmem⟩

theorem SessionDraft.toSession_eq_ok {d : SessionDraft} {s : Session} (h : d.toSession = .ok s) :
    Text.isBlankText d.name = false ∧ ∃ p lines, Program.ofJson d.program = .ok p ∧
      decodeLines d.lines = .ok lines ∧ Session.create d.name d.source p lines = .ok s := by
  unfold toSession at h
  split at h
  · cases h
  · next named =>
    cases hp : Program.ofJson d.program with
    | error e => rw [hp] at h; cases h
    | ok p =>
      cases hl : decodeLines d.lines with
      | error e => rw [hp, hl] at h; cases h
      | ok lines =>
        rw [hp, hl] at h
        exact ⟨by simpa using named, p, lines, rfl, rfl, h⟩

theorem SessionDraft.name_toSession {d : SessionDraft} {s : Session} (h : d.toSession = .ok s) : s.name = d.name := by
  obtain ⟨-, p, lines, -, -, hs⟩ := toSession_eq_ok h
  obtain ⟨-, -, rfl⟩ := Session.create_eq_ok hs
  rfl

/-- The session of a draft has its source and the program that is decoded from it. -/
theorem SessionDraft.parts_toSession {d : SessionDraft} {s : Session} (h : d.toSession = .ok s) :
    s.source = d.source ∧ Program.ofJson d.program = .ok s.program ∧ s.program.InRange := by
  obtain ⟨-, p, lines, hp, -, hs⟩ := toSession_eq_ok h
  obtain ⟨inRange, -, rfl⟩ := Session.create_eq_ok hs
  exact ⟨rfl, hp, inRange⟩

/-- Lines of which every value is a program without dangling edges are decoded as such programs. -/
theorem exists_decodeLines {lines : Overrides Json}
    (h : ∀ entry ∈ lines, ∃ p, Program.ofJson entry.2 = .ok p ∧ p.InRange) :
    ∃ programs, decodeLines lines = .ok programs ∧ ∀ entry ∈ programs, entry.2.InRange := by
  induction lines with
  | nil => exact ⟨[], rfl, by simp⟩
  | cons entry rest ih =>
    obtain ⟨first, others⟩ := List.forall_mem_cons.mp h
    obtain ⟨p, hp, inRange⟩ := first
    obtain ⟨programs, decoded, othersInRange⟩ := ih others
    refine ⟨(entry.1, p) :: programs, decodeLines_cons_eq_ok_iff.mpr ⟨p, programs, hp, decoded, rfl⟩, ?_⟩
    exact List.forall_mem_cons.mpr ⟨inRange, othersInRange⟩

/-- Nothing is wrong with a draft: it has a name, all its programs can be decoded, and no edge dangles in any of them. -/
structure SessionDraft.Acceptable (d : SessionDraft) : Prop where
  name : Text.trim d.name ≠ ""
  program : ∃ p, Program.ofJson d.program = .ok p ∧ p.InRange
  lines : ∀ entry ∈ d.lines, ∃ p, Program.ofJson entry.2 = .ok p ∧ p.InRange

/-- A session comes out of a draft exactly if nothing is wrong with it. -/
theorem SessionDraft.acceptable_iff {d : SessionDraft} : d.Acceptable ↔ ∃ s, d.toSession = .ok s := by
  constructor
  · rintro ⟨name, ⟨p, hp, inRange⟩, lines⟩
    obtain ⟨programs, decoded, linesInRange⟩ := exists_decodeLines lines
    have named : ¬ Text.isBlankText d.name = true := fun blank => name ((Text.isBlankText_iff d.name).mp blank)
    obtain ⟨s, hs⟩ := Session.create_of_inRange d.name d.source inRange linesInRange
    refine ⟨s, ?_⟩
    unfold toSession
    rw [if_neg named, hp, decoded]
    exact hs
  · rintro ⟨s, hs⟩
    obtain ⟨named, p, programs, hp, decoded, hs⟩ := toSession_eq_ok hs
    obtain ⟨inRange, linesInRange, -⟩ := Session.create_eq_ok hs
    refine ⟨fun blank => ?_, ⟨p, hp, inRange⟩, fun entry he => ?_⟩
    · cases named.symm.trans ((Text.isBlankText_iff d.name).mpr blank)
    · obtain ⟨q, hq, mem⟩ := mem_of_decodeLines decoded he
      exact ⟨q, hq, linesInRange _ mem⟩

namespace SessionDraft
variable {d : SessionDraft} {s : Session} {e : ServiceError}

/-- What a request with this draft asks for. -/
def creation (d : SessionDraft) : Action :=
  .ofExcept (d.toSession.map .register)

theorem creation_of_ok (hs : d.toSession = .ok s) : d.creation = .register s := by
  rw [creation, hs]
  rfl

theorem creation_of_error (h : d.toSession = .error e) : d.creation = .reply e.response := by
  rw [creation, h]
  rfl

end SessionDraft

/-! ### Requests -/

namespace Request
variable {q : Request} {r : Registry}

/-- The draft in the body of a request. -/
def draft (q : Request) : Except ServiceError SessionDraft :=
  q.read (Json.Reader.record sessionDraftRecord)

/-- A body is read if it is JSON by name and by form, and not too long. -/
theorem read_eq_ok_iff {α : Type} {body : Json.Reader α} {x : α} :
    q.read body = .ok x ↔
      q.contentType.any namesJson = true ∧ q.Fits ∧ Json.Reader.document body q.body = .ok x := by
  unfold read
  by_cases named : q.contentType.any namesJson = true
  · by_cases fits : q.Fits <;> simp [named, fits, mapError_eq_ok_iff]
  · simp [named]

theorem Asks.action_of_drafted (hq : q.Asks .post .sessions) {d : SessionDraft} (hd : q.draft = .ok d) :
    q.action = d.creation := by
  have action : q.action =
      .ofExcept (q.draft >>= fun d => d.toSession >>= fun s => pure (.register s)) := hq.action_of_post rfl
  rw [action, hd, SessionDraft.creation]
  show Action.ofExcept (d.toSession >>= fun s => pure (.register s)) = _
  cases d.toSession <;> rfl

theorem Asks.action_of_undrafted (hq : q.Asks .post .sessions) {e : ServiceError} (hd : q.draft = .error e) :
    q.action = .reply e.response := by
  have action : q.action =
      .ofExcept (q.draft >>= fun d => d.toSession >>= fun s => pure (.register s)) := hq.action_of_post rfl
  rw [action, hd]
  rfl

theorem Asks.action_of_draft (hq : q.Asks .post .sessions) {d : SessionDraft} {s : Session} (hd : q.draft = .ok d)
    (hs : d.toSession = .ok s) : q.action = .register s :=
  (hq.action_of_drafted hd).trans (SessionDraft.creation_of_ok hs)

/-- A request to create a session registers the session of its draft, or it is refused for its form. -/
theorem Asks.action_of_create (hq : q.Asks .post .sessions) :
    (∃ d s, q.draft = .ok d ∧ d.toSession = .ok s ∧ q.action = .register s) ∨
      ∃ e : ServiceError, q.action = .reply e.response := by
  cases hd : q.draft with
  | error e => exact Or.inr ⟨e, hq.action_of_undrafted hd⟩
  | ok d =>
    cases hs : d.toSession with
    | error e => exact Or.inr ⟨e, (hq.action_of_drafted hd).trans (SessionDraft.creation_of_error hs)⟩
    | ok s => exact Or.inl ⟨d, s, rfl, hs, hq.action_of_draft hd hs⟩

/-- On the path of all sessions, only a post asks for a session. -/
theorem action_of_sessions (hroute : Route.ofTarget? q.target = some .sessions) :
    q.Asks .post .sessions ∨ q.action = .list ∨ ∃ response, q.action = .reply response := by
  rw [action_of_route hroute]
  cases hm : q.method with
  | post => exact Or.inl ⟨hm, hroute⟩
  | get => exact Or.inr (Or.inl (by simp only [Route.action?, hm]; rfl))
  | head => exact Or.inr (Or.inl (by simp only [Route.action?, hm]; rfl))
  | delete => exact Or.inr (Or.inr (by simp only [Route.action?, hm]; exact ⟨_, rfl⟩))
  | options => exact Or.inr (Or.inr (by simp only [Route.action?, hm]; exact ⟨_, rfl⟩))
  | other name => exact Or.inr (Or.inr (by simp only [Route.action?, hm]; exact ⟨_, rfl⟩))

/-- What a request can ask for: a response that is known, the list, the session of its draft, or something of the
session that its path names. -/
theorem action_cases (q : Request) :
    (∃ response, q.action = .reply response) ∨ q.action = .list ∨
      (∃ d s, q.Asks .post .sessions ∧ q.draft = .ok d ∧ d.toSession = .ok s ∧ q.action = .register s) ∨
      ∃ route raw name, Route.ofTarget? q.target = some route ∧ route.name? = some raw ∧ decodeName raw = .ok name ∧
        (q.action = .remove name ∨ ∃ query, q.action = .query name query) := by
  cases hroute : Route.ofTarget? q.target with
  | none =>
    left
    unfold action
    rw [hroute]
    exact ⟨_, rfl⟩
  | some route =>
    cases hraw : route.name? with
    | some raw =>
      have names := action_names hroute hraw
      cases ha : q.action with
      | reply response => exact Or.inl ⟨response, rfl⟩
      | list => exact Or.inr (Or.inl rfl)
      | register s => rw [ha] at names; exact names.elim
      | remove name => rw [ha] at names; exact Or.inr (Or.inr (Or.inr ⟨route, raw, name, rfl, hraw, names, Or.inl rfl⟩))
      | query name query =>
        rw [ha] at names
        exact Or.inr (Or.inr (Or.inr ⟨route, raw, name, rfl, hraw, names, Or.inr ⟨query, rfl⟩⟩))
    | none =>
      -- Every path but that of all sessions names one.
      obtain rfl := Route.name?_eq_none_iff.mp hraw
      rcases action_of_sessions hroute with hq | list | reply
      · rcases hq.action_of_create with ⟨d, s, hd, hs, ha⟩ | ⟨e, ha⟩
        · exact Or.inr (Or.inr (Or.inl ⟨d, s, hq, hd, hs, ha⟩))
        · exact Or.inl ⟨_, ha⟩
      · exact Or.inr (Or.inl list)
      · exact Or.inl reply

end Request

/-! ### Responses -/

/-- What is told of a session that was created. -/
structure CreationReport where
  name : String
  nodeCount : Nat
  edgeCount : Nat
  warnings : List Warning
  deriving DecidableEq, Repr

def CreationReport.toJson (report : CreationReport) : Json :=
  .object [("name", .string report.name), ("node_count", .ofNat report.nodeCount),
    ("edge_count", .ofNat report.edgeCount), ("warnings", .array (report.warnings.map (·.toJson)))]

/-- What is told of a session with a program, under its name. -/
def Program.report (p : Program) (name : String) : CreationReport :=
  ⟨name, p.nodeCount, p.edgeCount, p.warnings⟩

theorem Session.created_eq (s : Session) : s.created = .json 200 (s.program.report s.name).toJson :=
  rfl

theorem Request.Asks.handle_of_draft {q : Request} {d : SessionDraft} (asks : q.Asks .post .sessions)
    (draft : q.draft = .ok d) (r : Registry) : r.handle q = d.creation.run r := by
  refine Prod.ext ?_ ?_
  · rw [asks.handle_fst (by decide), asks.action_of_drafted draft]
  · rw [Registry.handle_eq, asks.action_of_drafted draft]

namespace SessionDraft
variable {r : Registry} {d : SessionDraft} {s t : Session}

/-- A draft that nothing is wrong with is registered under its name, if that is free. -/
theorem run_creation_of_free (hs : d.toSession = .ok s) (free : r.find? d.name = none) :
    (d.creation.run r).1 = s.created ∧ (d.creation.run r).2.find? d.name = some s := by
  have name := name_toSession hs
  have free' : r.find? s.name = none := name ▸ free
  rw [creation_of_ok hs, Action.run_register_of_free free', ← name]
  exact ⟨rfl, (Catalog.find?_enter free' _).trans (if_pos rfl)⟩

theorem run_creation_of_taken (hs : d.toSession = .ok s) (taken : r.find? d.name = some t) :
    (d.creation.run r).1 = (ServiceError.takenName d.name).response := by
  have name := name_toSession hs
  have taken' : r.find? s.name = some t := name ▸ taken
  rw [creation_of_ok hs, Action.run_register_of_taken taken', name]

end SessionDraft

namespace Registry
variable {r : Registry} {q : Request} {d : SessionDraft} {s : Session}

theorem handle_of_free (asks : q.Asks .post .sessions) (draft : q.draft = .ok d) (hs : d.toSession = .ok s)
    (free : r.find? d.name = none) : (r.handle q).1 = s.created ∧ (r.handle q).2.find? d.name = some s := by
  rw [asks.handle_of_draft draft]
  exact SessionDraft.run_creation_of_free hs free

theorem handle_of_taken {t : Session} (asks : q.Asks .post .sessions) (draft : q.draft = .ok d)
    (hs : d.toSession = .ok s) (taken : r.find? d.name = some t) :
    (r.handle q).1 = (ServiceError.takenName d.name).response := by
  rw [asks.handle_of_draft draft]
  exact SessionDraft.run_creation_of_taken hs taken

/-- What has to hold for a creation to be granted, and what it leaves. -/
theorem of_created (asks : q.Asks .post .sessions) (draft : q.draft = .ok d)
    (created : (r.handle q).1.status = 200) :
    ∃ s, d.toSession = .ok s ∧ r.find? d.name = none ∧ (r.handle q).1 = s.created ∧
      (r.handle q).2.find? d.name = some s := by
  rcases asks.action_of_create with ⟨d', s, draft', hs, -⟩ | ⟨e, action⟩
  · cases draft.symm.trans draft'
    cases found : r.find? d.name with
    | none => exact ⟨s, hs, rfl, handle_of_free asks draft hs found⟩
    | some t =>
      rw [handle_of_taken asks draft hs found] at created
      exact absurd created (ServiceError.status_response_ne _)
  · rw [asks.handle_fst (by decide), action] at created
    exact absurd created e.status_response_ne

end Registry

end CipherGraph
