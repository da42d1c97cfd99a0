import CipherGraph.Proofs.Json.Keys
import CipherGraph.Proofs.Service.Overrides

/-! # The list of sessions

Which sessions are listed is told by the requests that created and deleted them: the last one of a name that was granted
decides. And the list tells how the next requests are answered: a name that is listed is taken, and a session is found
exactly if it is listed. -/

namespace CipherGraph

/-! ### Names -/

namespace Registry
variable {r : Registry} {n : String}

theorem mem_names : n ∈ r.names ↔ ∃ s, r.find? n = some s := by
  unfold names
  rw [List.mem_mergeSort, List.mem_map]
  constructor
  · rintro ⟨⟨_, s⟩, entry, rfl⟩
    exact ⟨s, Catalog.find?_eq_some_iff.mpr entry⟩
  · rintro ⟨s, found⟩
    exact ⟨(n, s), Catalog.find?_eq_some_iff.mp found, rfl⟩

theorem not_mem_names : n ∉ r.names ↔ r.find? n = none := by
  rw [mem_names, Option.eq_none_iff_forall_ne_some, not_exists]

/-- The names stand in the order of their bytes, each of them once. -/
theorem pairwise_names (r : Registry) : r.names.Pairwise fun a b => Text.bytes a < Text.bytes b := by
  have ordered : r.names.Pairwise fun a b => (!Text.precedes b a) = true := by
    refine List.pairwise_mergeSort (fun a b c ab bc => ?_) (fun a b => ?_) _
    · simp only [Bool.not_eq_true', ← Bool.not_eq_true, Text.precedes_iff] at ab bc ⊢
      exact List.not_lt.mpr (List.le_trans (List.not_lt.mp ab) (List.not_lt.mp bc))
    · rw [Bool.or_eq_true, Bool.not_eq_true', Bool.not_eq_true', ← Bool.not_eq_true, ← Bool.not_eq_true]
      by_contra both
      rw [not_or, not_not, not_not] at both
      exact Text.precedes_irrefl _ (Text.precedes_trans both.1 both.2)
  have distinct : r.names.Nodup := (List.mergeSort_perm _ _).nodup_iff.mpr r.distinct
  refine (ordered.and distinct).imp fun {a b} ⟨later, other⟩ => ?_
  have later : ¬ Text.precedes b a = true := by simpa using later
  exact Text.precedes_iff.mp (Text.precedes_of_not other later)

end Registry

/-! ### Requests that decide -/

namespace Request
variable {q : Request} {n : String} {s : Session}

/-- A request to create a session with a name. -/
def Enters (q : Request) (n : String) : Prop :=
  q.Asks .post .sessions ∧ ∃ d, q.draft = .ok d ∧ d.name = n

instance : Decidable (q.Enters n) :=
  decidable_of_iff ((q.method = .post ∧ Route.ofTarget? q.target = some .sessions) ∧
    q.draft.toOption.map (·.name) = some n) (by
      simp only [Enters, Asks, Option.map_eq_some_iff, toOption_eq_some_iff])

/-- A request to create or to delete the session with a name. -/
def Decides (q : Request) (n : String) : Prop :=
  q.Enters n ∨ q.AsksIn .delete .session n

instance : Decidable (q.Decides n) :=
  inferInstanceAs (Decidable (_ ∨ _))

theorem not_enters_of_delete (h : q.AsksIn .delete .session n) : ¬ q.Enters n := by
  rintro ⟨⟨post, -⟩, -⟩
  obtain ⟨-, ⟨delete, -⟩, -⟩ := h
  cases post.symm.trans delete

theorem enters_of_action (h : q.action = .register s) : q.Enters s.name := by
  rcases q.action_cases with ⟨response, ha⟩ | ha | ⟨d, t, asks, draft, ht, ha⟩ | ⟨_, _, _, -, -, -, ha | ⟨_, ha⟩⟩ <;>
    cases h.symm.trans ha
  exact ⟨asks, d, draft, (SessionDraft.name_toSession ht).symm⟩

theorem deletes_of_action (h : q.action = .remove n) : q.AsksIn .delete .session n := by
  have writes : q.action.Writes := by
    rw [h]
    exact trivial
  rcases writes_cases writes with ⟨s, ha⟩ | ⟨m, asks, ha⟩ | ⟨m, query, -, ha⟩ <;> cases h.symm.trans ha
  exact asks

theorem AsksIn.action_of_delete (h : q.AsksIn .delete .session n) : q.action = .remove n := by
  obtain ⟨raw, asks, hname⟩ := h
  exact (asks.action_of_delete rfl).trans (Action.onName_of_ok hname _)

/-- The last of some requests that creates or deletes the session with a name. -/
def lastDecision (requests : List Request) (n : String) : Option Request :=
  (requests.filter (·.Decides n)).getLast?

theorem lastDecision_append (requests more : List Request) (n : String) :
    lastDecision (requests ++ more) n = (lastDecision more n).or (lastDecision requests n) := by
  unfold lastDecision
  rw [List.filter_append, List.getLast?_append]

theorem lastDecision_of_decides (h : q.Decides n) : lastDecision [q] n = some q := by
  simp [lastDecision, h]

theorem lastDecision_of_other (h : ¬ q.Decides n) : lastDecision [q] n = none := by
  simp [lastDecision, h]

end Request

/-! ### Histories -/

namespace Registry
variable {r : Registry} {q : Request} {n : String}

/-- A request that neither creates nor deletes the session of a name leaves it listed, or not. -/
theorem mem_names_handle_of_other (h : ¬ q.Decides n) : n ∈ (r.handle q).2.names ↔ n ∈ r.names := by
  rw [mem_names, mem_names, handle_eq]
  rcases q.action.run_cases r with same | ⟨s, free, action, run⟩ | ⟨m, s, action, -, run⟩ | ⟨m, query, s, -, -, run⟩
  · rw [same]
  · have other : n ≠ s.name := by
      rintro rfl
      exact h (Or.inl (Request.enters_of_action action))
    rw [run, Catalog.find?_enter, if_neg other]
  · have other : n ≠ m := by
      rintro rfl
      exact h (Or.inr (Request.deletes_of_action action))
    rw [run, Catalog.find?_erase, if_neg other]
  · rw [run, Catalog.find?_replace]
    split
    · simp
    · rfl

/-- What one request does to the list: it decides, if it is granted and about the name. -/
theorem mem_names_handle (r : Registry) (q : Request) (n : String) :
    n ∈ (r.handle q).2.names ↔ (Request.lastDecision (r.granted [q]) n).elim (n ∈ r.names) (·.Enters n) := by
  rw [granted_singleton]
  by_cases granted : (r.handle q).1.status = 200
  · rw [if_pos granted]
    by_cases decides : q.Decides n
    · rw [Request.lastDecision_of_decides decides, Option.elim_some]
      rcases decides with ⟨asks, d, draft, rfl⟩ | deletes
      · obtain ⟨s, -, -, -, found⟩ := of_created asks draft granted
        exact iff_of_true (mem_names.mpr ⟨s, found⟩) ⟨asks, d, draft, rfl⟩
      · refine iff_of_false (fun listed => ?_) (Request.not_enters_of_delete deletes)
        have action := deletes.action_of_delete
        rw [handle_eq, Request.status_deliver, action] at granted
        rw [mem_names, handle_eq, action] at listed
        cases found : r.find? n with
        | none =>
          rw [Action.run_remove_of_unknown found] at granted
          exact ServiceError.status_response_ne _ granted
        | some s =>
          obtain ⟨t, left⟩ := listed
          rw [Action.run_remove_of_known found, Catalog.find?_erase, if_pos rfl] at left
          cases left
    · rw [Request.lastDecision_of_other decides]
      exact mem_names_handle_of_other decides
  · have unchanged : (r.handle q).2 = r := by
      rw [handle_eq, Request.status_deliver] at granted
      exact Action.run_of_refused granted
    rw [if_neg granted, unchanged]
    rfl

/-- A name is listed after some requests if the last one that was granted and decides about it created its session, or if
it was listed before and none decides. -/
theorem mem_names_handleAll (r : Registry) (requests : List Request) (n : String) :
    n ∈ (r.handleAll requests).2.names ↔
      (Request.lastDecision (r.granted requests) n).elim (n ∈ r.names) (·.Enters n) := by
  induction requests generalizing r with
  | nil => exact Iff.rfl
  | cons q rest ih =>
    rw [handleAll_cons, ih, granted_cons, Request.lastDecision_append]
    cases Request.lastDecision ((r.handle q).2.granted rest) n with
    | some last => exact Iff.rfl
    | none => exact mem_names_handle r q n

theorem mem_names_start (demo : Bool) : n ∈ (start demo).names ↔ demo = true ∧ n = "demo" := by
  rw [mem_names]
  cases demo with
  | false => simp [start, Catalog.find?]
  | true =>
    have free : Catalog.find? ({} : Registry) "demo" = none := rfl
    have entered : start true = Catalog.enter {} "demo" Session.demo free := rfl
    rw [entered, Catalog.find?_enter]
    by_cases same : n = "demo" <;> simp [same, Catalog.find?]

end Registry

/-! ### Requests after a history -/

/-- What tells a client of a refusal. -/
def Response.envelope (status : Nat) (code message : String) : Response :=
  .json status <| .object [("error", .object [("code", .string code), ("message", .string message)]),
    ("success", .bool false)]

/-- A request to delete the session with a name, or to get its program, its drawing, its selection or its source. -/
def Request.Finds (q : Request) (n : String) : Prop :=
  q.AsksIn .delete .session n ∨ q.AsksIn .get .session n ∨ q.AsksIn .get .rendering n ∨
    q.AsksIn .get .selection n ∨ q.AsksIn .get .source n

theorem Session.Sound.status_rendering {s : Session} (h : s.Sound) : (Query.rendering.run s).1.status = 200 := by
  obtain ⟨drawing, hd⟩ := h.program.render
  simp only [Query.run, hd]
  rfl

/-- What such a request gets can be told of every session that is sound. -/
theorem Request.Finds.action {q : Request} {n : String} (h : q.Finds n) :
    q.method ≠ .head ∧ (q.action = .remove n ∨
      ∃ query, q.action = .query n query ∧ ∀ s : Session, s.Sound → (query.run s).1.status = 200) := by
  have plain {method : Method} {path : String → Route} (h : q.AsksIn method path n) (other : method ≠ .head) :
      q.method ≠ .head := by
    obtain ⟨-, ⟨asked, -⟩, -⟩ := h
    exact asked ▸ other
  rcases h with h | h | h | h | h
  · exact ⟨plain h (by decide), Or.inl h.action_of_delete⟩
  · exact ⟨plain h (by decide), Or.inr ⟨.program, h.action_of_get fun _ => rfl, fun _ _ => rfl⟩⟩
  · exact ⟨plain h (by decide), Or.inr ⟨.rendering, h.action_of_get fun _ => rfl, fun _ sound => sound.status_rendering⟩⟩
  · exact ⟨plain h (by decide), Or.inr ⟨.selection, h.action_of_get fun _ => rfl, fun _ _ => rfl⟩⟩
  · exact ⟨plain h (by decide), Or.inr ⟨.source, h.action_of_get fun _ => rfl, fun _ _ => rfl⟩⟩

namespace Registry
variable {r : Registry} {q : Request} {n : String} {d : SessionDraft}

theorem handle_of_unlisted (h : q.Finds n) (unlisted : n ∉ r.names) :
    (r.handle q).1 = .envelope 404 "NOT_FOUND" ("session '" ++ n ++ "' not found") := by
  have unknown := not_mem_names.mp unlisted
  obtain ⟨other, action | ⟨query, action, -⟩⟩ := h.action
  · rw [handle_fst other, action, Action.run_remove_of_unknown unknown]
    rfl
  · rw [handle_fst other, action, Action.run_query_of_unknown query unknown]
    rfl

theorem Sound.status_of_listed (sound : r.Sound) (h : q.Finds n) (listed : n ∈ r.names) :
    (r.handle q).1.status = 200 := by
  obtain ⟨s, found⟩ := mem_names.mp listed
  obtain ⟨other, action | ⟨query, action, answered⟩⟩ := h.action
  · rw [handle_fst other, action, Action.run_remove_of_known found]
    rfl
  · rw [handle_fst other, action, Action.run_query_of_known query found]
    exact answered s (sound n s found).2

/-- A request for a session that nothing is wrong with is refused exactly if its name is listed. -/
theorem status_of_acceptable (asks : q.Asks .post .sessions) (draft : q.draft = .ok d) (acceptable : d.Acceptable) :
    ((r.handle q).1.status = 409 ↔ d.name ∈ r.names) ∧ ((r.handle q).1.status = 200 ↔ d.name ∉ r.names) := by
  obtain ⟨s, hs⟩ := SessionDraft.acceptable_iff.mp acceptable
  rw [not_mem_names, mem_names]
  cases found : r.find? d.name with
  | none =>
    rw [(handle_of_free asks draft hs found).1]
    exact ⟨iff_of_false (show 200 ≠ 409 by decide) (by simp), iff_of_true rfl rfl⟩
  | some t =>
    rw [handle_of_taken asks draft hs found]
    exact ⟨iff_of_true rfl ⟨t, rfl⟩, iff_of_false (ServiceError.status_response_ne _) (by simp)⟩

/-- A session that was just created shows its selection at the default line, without nodes and before any click. -/
theorem shown_of_created {creation shown : Request} (enters : creation.Enters n)
    (created : (r.handle creation).1.status = 200) (shows : shown.AsksIn .get .selection n) :
    let answer := ((r.handle creation).2.handle shown).1
    ∃ snapshot : Snapshot, answer = .json 200 snapshot.toJson ∧ answer.Tells 200 Client.snapshot snapshot ∧
      snapshot.line = 0 ∧ snapshot.selected = [] ∧ snapshot.generation = 0 := by
  intro answer
  obtain ⟨asks, d, draft, rfl⟩ := enters
  obtain ⟨s, hs, -, -, found⟩ := of_created asks draft created
  obtain ⟨table, fresh, -⟩ := SessionDraft.selection_toSession (Request.sorted_lines draft) hs
  have answered : answer = s.shown := congrArg Prod.fst (shows.handle_get (fun _ => rfl) found)
  have told := (SessionDraft.sound_toSession hs).tells_shown (Request.few_toSession draft hs).shown
  refine ⟨s.selection.snapshot, answered, answered ▸ told, ?_⟩
  rw [fresh, Selection.ofLineMap_eq]
  exact ⟨rfl, rfl, rfl⟩

/-- What a client reads of a session that is not found. -/
theorem tells_of_unlisted (h : q.Finds n) (unlisted : n ∉ r.names) :
    (r.handle q).1.Tells 404 Client.refusal ("NOT_FOUND", "session '" ++ n ++ "' not found", false) := by
  rw [handle_of_unlisted h unlisted]
  exact (ServiceError.unknownSession n).refusal.tells_response

/-- In whatever order sessions were created and deleted, the list has the names of those that were created last, in the
order of their bytes: a name is listed exactly if the last request that was granted and that created or deleted its
session created it. The session of the demonstration counts as created at the start. A session is refused for its name
exactly if that is listed, and a session is found exactly if it is listed. A session that was just created has nothing of
one that had its name before. -/
theorem list_tells_history (demo : Bool) (requests : List Request) :
    let r := ((start demo).handleAll requests).2
    ∃ names : List String,
      (∀ q : Request, q.Asks .get .sessions →
        (r.handle q).1 = .json 200 (.object [("sessions", .array (names.map .string))]) ∧
          (r.handle q).1.Tells 200 Client.names names) ∧
      names.Pairwise (fun a b => Text.bytes a < Text.bytes b) ∧
      (∀ n, n ∈ names ↔ (Request.lastDecision ((start demo).granted requests) n).elim
        (demo = true ∧ n = "demo") (·.Enters n)) ∧
      (∀ q d, q.Asks .post .sessions → q.draft = .ok d → d.Acceptable →
        ((r.handle q).1.status = 409 ↔ d.name ∈ names) ∧ ((r.handle q).1.status = 200 ↔ d.name ∉ names)) ∧
      (∀ q n, q.Finds n →
        ((r.handle q).1 = .envelope 404 "NOT_FOUND" ("session '" ++ n ++ "' not found") ↔ n ∉ names) ∧
          ((r.handle q).1.Tells 404 Client.refusal ("NOT_FOUND", "session '" ++ n ++ "' not found", false) ↔ n ∉ names) ∧
          ((r.handle q).1.status = 200 ↔ n ∈ names)) ∧
      ∀ (creation shown : Request) (n : String), creation.Enters n → (r.handle creation).1.status = 200 →
        shown.AsksIn .get .selection n →
        let answer := ((r.handle creation).2.handle shown).1
        ∃ snapshot : Snapshot, answer = .json 200 snapshot.toJson ∧ answer.Tells 200 Client.snapshot snapshot ∧
          snapshot.line = 0 ∧ snapshot.selected = [] ∧ snapshot.generation = 0 := by
  intro r
  have sound : r.Sound := sound_handleAll demo requests
  refine ⟨r.names, fun q hq => ?_, r.pairwise_names, fun n => ?_, fun q d asks draft acceptable =>
    status_of_acceptable asks draft acceptable, fun q n finds => ?_, fun creation shown n => shown_of_created⟩
  · have answered : (r.handle q).1 = r.listed := by
      rw [hq.handle_fst (by decide), hq.action_of_get rfl]
      rfl
    exact ⟨answered, answered ▸ Response.tells_names r.names⟩
  · rw [mem_names_handleAll, mem_names_start]
  · by_cases listed : n ∈ r.names
    · have status := sound.status_of_listed finds listed
      refine ⟨iff_of_false (fun refused => ?_) (not_not_intro listed),
        iff_of_false (fun refused => ?_) (not_not_intro listed), iff_of_true status listed⟩
      · rw [refused] at status
        cases status
      · cases status.symm.trans refused.code
    · have refused := handle_of_unlisted finds listed
      refine ⟨iff_of_true refused listed, iff_of_true (tells_of_unlisted finds listed) listed,
        iff_of_false (fun status => ?_) listed⟩
      rw [refused] at status
      cases status

end Registry

end CipherGraph
