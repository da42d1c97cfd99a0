import CipherGraph.Proofs.Service.Creation

/-! # Sound registries

Every session that is registered stands under its own name and is sound, in every registry that requests lead
to. So no client ever sees a selection without its drawing, a session that exists can always be drawn, and
the nodes of the program it shows can always be inspected. A session without a name does not exist. -/

namespace CipherGraph

/-! ### What holds of every session -/

/-- Every session has a property, under the name under which it stands. -/
def Registry.Each (P : String → Session → Prop) (r : Registry) : Prop :=
  ∀ name s, r.find? name = some s → P name s

/-- The session of the demonstration has a property, and so does every session that is drafted. Nothing that is asked of
a session takes it away. -/
structure Session.Lasting (P : String → Session → Prop) : Prop where
  demo : P Session.demo.name .demo
  drafted : ∀ {q : Request} {d : SessionDraft} {s : Session}, q.draft = .ok d → d.toSession = .ok s → P s.name s
  queried : ∀ {name : String} {s : Session} (query : Query), P name s → P name (query.run s).2

namespace Registry
variable {P : String → Session → Prop} {r : Registry}

theorem Each.enter {s : Session} (h : r.Each P) (hs : P s.name s) (free : r.find? s.name = none) :
    Each P (r.enter s.name s free) := by
  intro name t ht
  rw [Catalog.find?_enter] at ht
  split at ht
  · next same =>
    cases ht
    exact same ▸ hs
  · exact h name t ht

theorem Each.erase (h : r.Each P) (name : String) : Each P (r.erase name) := by
  intro n t ht
  rw [Catalog.find?_erase] at ht
  split at ht
  · cases ht
  · exact h n t ht

theorem Each.replace {s : Session} {name : String} (h : r.Each P) (hs : P name s) : Each P (r.replace name s) := by
  intro n t ht
  rw [Catalog.find?_replace] at ht
  split at ht
  · next same =>
    obtain ⟨_, -, rfl⟩ := Option.map_eq_some_iff.mp ht
    exact same ▸ hs
  · exact h n t ht

/-- Every request leaves every session with a property that lasts. -/
theorem Each.handle (h : r.Each P) (lasting : Session.Lasting P) (q : Request) : Each P (r.handle q).2 := by
  rw [handle_eq]
  rcases q.action.run_cases r with same | ⟨s, free, action, run⟩ | ⟨name, s, -, -, run⟩ |
    ⟨name, query, s, -, found, run⟩
  · rw [same]
    exact h
  · rw [run]
    rcases q.action_cases with ⟨_, ha⟩ | ha | ⟨d, t, -, draft, ht, ha⟩ | ⟨_, _, _, -, -, -, ha | ⟨_, ha⟩⟩ <;>
      cases action.symm.trans ha
    exact h.enter (lasting.drafted draft ht) free
  · rw [run]
    exact h.erase name
  · rw [run]
    exact h.replace (lasting.queried query (h name s found))

theorem each_start (lasting : Session.Lasting P) (demo : Bool) : (start demo).Each P := by
  have empty : Each P {} := fun name s hs => by cases hs
  cases demo with
  | false => exact empty
  | true => exact empty.enter lasting.demo rfl

theorem each_handleAll (lasting : Session.Lasting P) (demo : Bool) (requests : List Request) :
    ((start demo).handleAll requests).2.Each P :=
  handleAll_keeps (P := Each P) (fun _ q h => h.handle lasting q) (each_start lasting demo) requests

end Registry

/-! ### Sound sessions -/

/-- Every session stands under its own name and is sound. -/
def Registry.Sound (r : Registry) : Prop :=
  ∀ name s, r.find? name = some s → s.name = name ∧ s.Sound

theorem SessionDraft.sound_toSession {d : SessionDraft} {s : Session} (h : d.toSession = .ok s) : s.Sound := by
  obtain ⟨named, p, lines, -, -, hs⟩ := toSession_eq_ok h
  have hname : Text.trim d.name ≠ "" := fun ht => by
    cases named.symm.trans (Text.isBlankText_iff d.name |>.mpr ht)
  exact Session.sound_of_create hname hs

theorem Session.lasting_sound : Lasting fun name s => s.name = name ∧ s.Sound where
  demo := ⟨rfl, sound_demo⟩
  drafted _ hs := ⟨rfl, SessionDraft.sound_toSession hs⟩
  queried query h := ⟨(Query.name_run query).trans h.1, Query.sound_run h.2 query⟩

namespace Registry
variable {r : Registry}

theorem sound_handleAll (demo : Bool) (requests : List Request) : ((start demo).handleAll requests).2.Sound :=
  each_handleAll Session.lasting_sound demo requests

/-- A session without a name does not exist. -/
theorem Sound.find?_empty (h : r.Sound) : r.find? "" = none := by
  cases found : r.find? "" with
  | none => rfl
  | some s =>
    obtain ⟨hname, hs⟩ := h "" s found
    exact absurd (by rw [hname]; rfl) hs.name

end Registry

/-! ### What clients see -/

/-- The response shows a snapshot that has a drawing and no error. -/
def Response.ShowsDrawing (response : Response) : Prop :=
  ∃ members, response = .json 200 (.object members) ∧
    (∃ r : Rendering, members.lookup "graph" = some r.toJson) ∧ members.lookup "error" = none

theorem Snapshot.toJson_of_drawn {s : Snapshot} {r : Rendering} (hr : s.rendered = some r) (he : s.error = none) :
    s.toJson = .object [("selected_line", .ofInt s.line.toInt),
      ("selected_nodes", .array (s.selected.map (·.toJson))), ("graph", r.toJson),
      ("generation", .ofNat s.generation.toNat)] := by
  unfold toJson
  rw [hr, he]
  rfl

/-- A sound session is shown with its drawing. -/
theorem Session.Sound.shown {s : Session} (h : s.Sound) : s.shown.ShowsDrawing := by
  obtain ⟨r, -, hr, he⟩ := h.selection.drawn
  have drawn := Snapshot.toJson_of_drawn (s := s.selection.snapshot) hr he
  exact ⟨_, congrArg (Response.json 200) drawn, ⟨r.markWarnings, rfl⟩, rfl⟩

/-- A query that is answered with a snapshot. -/
def Query.Shows : Query → Prop
  | .selection => True
  | .click _ => True
  | .select _ => True
  | _ => False

theorem Query.Shows.run {q : Query} (h : q.Shows) {s : Session} (hs : s.Sound) : (q.run s).1.ShowsDrawing := by
  cases q with
  | selection => exact hs.shown
  | click line => exact (sound_run hs (.click line)).shown
  | select ids => exact (sound_run hs (.select ids)).shown
  | _ => exact h.elim

/-- A request that reads or changes the selection of a session. -/
def Request.AsksForSelection (q : Request) : Prop :=
  ∃ raw, q.Asks .get (.selection raw) ∨ q.Asks .post (.selectedLine raw) ∨ q.Asks .post (.selectedNodes raw)

/-- A request about a selection is refused for its form, or it is a query that is answered with a snapshot. -/
theorem Request.AsksForSelection.action {q : Request} (h : q.AsksForSelection) :
    (∃ response, q.action = .reply response ∧ response.status ≠ 200) ∨
      ∃ name query, q.action = .query name query ∧ query.Shows := by
  obtain ⟨raw, h | h | h⟩ := h
  · rw [h.action_of_get rfl]
    rcases Action.onName_cases raw (.query · .selection) with refused | ⟨name, ha⟩
    · exact Or.inl refused
    · exact Or.inr ⟨name, _, ha, trivial⟩
  · rw [h.action_of_post rfl]
    rcases Action.onName_cases raw _ with refused | ⟨name, ha⟩
    · exact Or.inl refused
    · rw [ha]
      exact (q.read_cases _ _).imp_right fun ⟨click, ha⟩ => ⟨name, _, ha, trivial⟩
  · rw [h.action_of_post rfl]
    rcases Action.onName_cases raw _ with refused | ⟨name, ha⟩
    · exact Or.inl refused
    · rw [ha]
      exact (q.read_cases _ _).imp_right fun ⟨selection, ha⟩ => ⟨name, _, ha, trivial⟩

namespace Registry
variable {r : Registry}

/-- A selection that is shown has its drawing. -/
theorem Sound.shows_drawing (h : r.Sound) {q : Request} (hq : q.AsksForSelection) (hs : (r.handle q).1.status = 200) :
    (r.handle q).1.ShowsDrawing := by
  have hm : q.method ≠ .head := by
    obtain ⟨raw, h | h | h⟩ := hq <;> rw [h.1] <;> decide
  rw [handle_fst hm] at hs ⊢
  rcases hq.action with ⟨response, ha, hne⟩ | ⟨name, query, ha, shows⟩
  · rw [ha] at hs
    exact absurd hs hne
  · rw [ha] at hs ⊢
    cases found : r.find? name with
    | none =>
      rw [Action.run_query_of_unknown query found] at hs
      exact absurd hs (ServiceError.status_response_ne _)
    | some s =>
      rw [Action.run_query_of_known query found]
      exact shows.run (h name s found).2

/-- The selection of a session that exists is shown with its drawing. -/
theorem Sound.shows_selection (h : r.Sound) {q : Request} {raw name : String} {s : Session}
    (hq : q.Asks .get (.selection raw)) (hname : decodeName raw = .ok name) (found : r.find? name = some s) :
    (r.handle q).1.ShowsDrawing := by
  rw [hq.handle_fst (by decide), hq.action_of_get rfl, Action.onName_of_ok hname, Action.run_query_of_known _ found]
  exact (h name s found).2.shown

/-- A session that exists can be drawn. -/
theorem Sound.status_rendering (h : r.Sound) {q : Request} {raw name : String} {s : Session}
    (hq : q.Asks .get (.rendering raw)) (hname : decodeName raw = .ok name) (found : r.find? name = some s) :
    (r.handle q).1.status = 200 := by
  obtain ⟨drawing, hd⟩ := (h name s found).2.program.render
  rw [handle_eq, Request.status_deliver, hq.action_of_get rfl, Action.onName_of_ok hname,
    Action.run_query_of_known _ found]
  simp only [Query.run, hd]
  rfl

/-- The nodes of the program that a session shows can be inspected, and no others. -/
theorem Sound.status_node (h : r.Sound) {q : Request} {raw id name : String} {n : NodeId} {s : Session}
    (hq : q.Asks .get (.node raw id)) (hname : decodeNode raw id = .ok (name, n)) (found : r.find? name = some s) :
    (r.handle q).1.status = 200 ∨ (r.handle q).1.status = 404 := by
  have ha : (Route.node raw id).get? = some (.query name (.node n)) := by
    simp only [Route.get?, hname]
  rw [handle_eq, Request.status_deliver, hq.action_of_get ha, Action.run_query_of_known _ found]
  show (s.inspect n).status = 200 ∨ (s.inspect n).status = 404
  unfold Session.inspect
  rcases (h name s found).2.selection.program.neighbourhood n with ⟨neighbourhood, hn⟩ | hn
  · left
    simp only [hn]
    rfl
  · right
    simp only [hn]
    rfl

/-- A request about the session without a name is answered as if there were no session at all. -/
theorem Sound.handle_empty (h : r.Sound) {q : Request} {route : Route} {raw : String}
    (hroute : Route.ofTarget? q.target = some route) (hraw : route.name? = some raw)
    (hname : decodeName raw = .ok "") : r.handle q = ((Registry.handle {} q).1, r) := by
  have names := Request.action_names hroute hraw
  rw [handle_eq, handle_eq]
  cases ha : q.action with
  | reply response => rfl
  | list => rw [ha] at names; exact names.elim
  | register s => rw [ha] at names; exact names.elim
  | remove name =>
    rw [ha] at names
    cases hname.symm.trans names
    rw [Action.run_remove_of_unknown h.find?_empty, Action.run_remove_of_unknown rfl]
  | query name query =>
    rw [ha] at names
    cases hname.symm.trans names
    rw [Action.run_query_of_unknown query h.find?_empty, Action.run_query_of_unknown query rfl]

example : Route.ofTarget? "/sessions//render" = some (.rendering "") ∧ decodeName "" = .ok "" := ⟨rfl, rfl⟩

/-- In every registry that requests lead to, every session stands under its own name, which is not blank, none of
its programs has a dangling edge, and it shows a drawing without an error. So a selection is never shown without
its drawing, a session that exists can always be drawn, the inspection of a node succeeds or does not find it,
and the session without a name is never found. -/
theorem reachable_sessions_sound (demo : Bool) (requests : List Request) :
    let r := ((start demo).handleAll requests).2
    (∀ name s, r.find? name = some s →
      s.name = name ∧ Text.trim name ≠ "" ∧ s.program.InRange ∧ s.selection.lineMap.fallback = s.program ∧
      (∀ entry ∈ s.selection.lineMap.entries, entry.2.InRange) ∧
      ∃ drawing, s.selection.program.render = .ok drawing ∧
        s.selection.rendered = some drawing.markWarnings ∧ s.selection.error = none) ∧
    (∀ q, q.AsksForSelection → (r.handle q).1.status = 200 → (r.handle q).1.ShowsDrawing) ∧
    (∀ q raw name s, q.Asks .get (.selection raw) → decodeName raw = .ok name → r.find? name = some s →
      (r.handle q).1.ShowsDrawing) ∧
    (∀ q raw name s, q.Asks .get (.rendering raw) → decodeName raw = .ok name → r.find? name = some s →
      (r.handle q).1.status = 200) ∧
    (∀ q raw id name n s, q.Asks .get (.node raw id) → decodeNode raw id = .ok (name, n) →
      r.find? name = some s → (r.handle q).1.status = 200 ∨ (r.handle q).1.status = 404) ∧
    r.find? "" = none ∧
    ∀ q route raw, Route.ofTarget? q.target = some route → route.name? = some raw → decodeName raw = .ok "" →
      r.handle q = ((Registry.handle {} q).1, r) := by
  intro r
  have sound : r.Sound := sound_handleAll demo requests
  refine ⟨fun name s found => ?_, fun q => sound.shows_drawing, fun q raw name s => sound.shows_selection,
    fun q raw name s => sound.status_rendering, fun q raw id name n s => sound.status_node, sound.find?_empty,
    fun q route raw => sound.handle_empty⟩
  obtain ⟨hname, hs⟩ := sound name s found
  exact ⟨hname, hname ▸ hs.name, hs.program, hs.fallback, hs.selection.table.entries, hs.selection.drawn⟩

end Registry

end CipherGraph
