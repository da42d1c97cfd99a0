import CipherGraph.Proofs.Service.Creation

/-! # Sessions do not interfere

A request is about the session that its path names, or about the one that it asks to create. What it answers, and what
it leaves of that session, depends on that session alone, and it leaves every other session as it was. So the requests
about a session are answered as if no others had been sent. -/

namespace CipherGraph

/-- The session that an action looks up. -/
def Action.subject? : Action → Option String
  | .reply _ => none
  | .list => none
  | .register s => some s.name
  | .remove name => some name
  | .query name _ => some name

/-- A request is about the session that its path names, or about the one that it asks to create. -/
def Request.About (q : Request) (n : String) : Prop :=
  (∃ route raw, Route.ofTarget? q.target = some route ∧ route.name? = some raw ∧ decodeName raw = .ok n) ∨
    q.Asks .post .sessions ∧ ∃ d, q.draft = .ok d ∧ d.name = n

/-! ### The session a request is about -/

namespace Request
variable {q : Request} {n : String}

def subject? (q : Request) : Option String :=
  match Route.ofTarget? q.target with
  | none => none
  | some route =>
    match route.name? with
    | some raw => (decodeName raw).toOption
    | none => if q.method = .post then q.draft.toOption.map (·.name) else none

theorem subject?_eq_some_iff : q.subject? = some n ↔ q.About n := by
  unfold subject? About Asks
  cases hroute : Route.ofTarget? q.target with
  | none => simp
  | some route =>
    cases hraw : route.name? with
    | some raw =>
      have named : route ≠ .sessions := fun h => by cases hraw.symm.trans (Route.name?_eq_none_iff.mpr h)
      simp [hraw, named, toOption_eq_some_iff]
    | none =>
      obtain rfl := Route.name?_eq_none_iff.mp hraw
      by_cases post : q.method = .post <;> simp [hraw, post, Option.map_eq_some_iff, toOption_eq_some_iff]

instance (q : Request) (n : String) : Decidable (q.About n) :=
  decidable_of_iff (q.subject? = some n) subject?_eq_some_iff

/-- A request about a session is answered at once, or it looks up that session. -/
theorem About.action (h : q.About n) : (∃ response, q.action = .reply response) ∨ q.action.subject? = some n := by
  rcases h with ⟨route, raw, hroute, hraw, hname⟩ | ⟨hq, d, hd, rfl⟩
  · have names := action_names hroute hraw
    cases ha : q.action with
    | reply response => exact Or.inl ⟨response, rfl⟩
    | list => rw [ha] at names; exact names.elim
    | register s => rw [ha] at names; exact names.elim
    | remove name =>
      rw [ha] at names
      cases hname.symm.trans names
      exact Or.inr rfl
    | query name _ =>
      rw [ha] at names
      cases hname.symm.trans names
      exact Or.inr rfl
  · rcases hq.action_of_create with ⟨d', s, hd', hs, ha⟩ | ⟨e, ha⟩
    · cases hd.symm.trans hd'
      rw [ha]
      exact Or.inr (congrArg some (SessionDraft.name_toSession hs))
    · exact Or.inl ⟨_, ha⟩

/-- A request that looks up a session is about it. -/
theorem about_of_action (h : q.action.subject? = some n) : q.About n := by
  rcases q.action_cases with ⟨response, ha⟩ | ha | ⟨d, s, hq, hd, hs, ha⟩ |
    ⟨route, raw, name, hroute, hraw, hname, ha | ⟨query, ha⟩⟩ <;> rw [ha] at h <;> cases h
  · exact Or.inr ⟨hq, d, hd, (SessionDraft.name_toSession hs).symm⟩
  · exact Or.inl ⟨route, raw, hroute, hraw, hname⟩
  · exact Or.inl ⟨route, raw, hroute, hraw, hname⟩

end Request

/-! ### What an action does to a session -/

namespace Action
variable {a : Action} {r r' : Registry} {n : String}

/-- An action leaves every session that it does not look up. -/
theorem find?_run_of_other (h : a.subject? ≠ some n) : (a.run r).2.find? n = r.find? n := by
  have other : ∀ {name}, a.subject? = some name → n ≠ name := fun subject same => h (same ▸ subject)
  rcases a.run_cases r with same | ⟨s, free, rfl, run⟩ | ⟨name, s, rfl, -, run⟩ | ⟨name, q, s, rfl, -, run⟩
  · rw [same]
  · rw [run, Catalog.find?_enter, if_neg (other rfl)]
  · rw [run, Catalog.find?_erase, if_neg (other rfl)]
  · rw [run, Catalog.find?_replace, if_neg (other rfl)]

/-- What an action answers, and what it leaves of the session that it looks up, depends on this session alone. -/
theorem run_of_same (h : a.subject? = some n) (same : r.find? n = r'.find? n) :
    (a.run r).1 = (a.run r').1 ∧ (a.run r).2.find? n = (a.run r').2.find? n := by
  cases a with
  | reply response => cases h
  | list => cases h
  | register s =>
    cases h
    cases found : r.find? s.name with
    | none =>
      have found' := same.symm.trans found
      rw [run_register_of_free found, run_register_of_free found', Catalog.find?_enter, Catalog.find?_enter,
        if_pos rfl, if_pos rfl]
      exact ⟨rfl, rfl⟩
    | some t =>
      rw [run_register_of_taken found, run_register_of_taken (same.symm.trans found)]
      exact ⟨rfl, same⟩
  | remove name =>
    cases h
    cases found : r.find? n with
    | none =>
      rw [run_remove_of_unknown found, run_remove_of_unknown (same.symm.trans found)]
      exact ⟨rfl, same⟩
    | some s =>
      rw [run_remove_of_known found, run_remove_of_known (same.symm.trans found), Catalog.find?_erase,
        Catalog.find?_erase, if_pos rfl, if_pos rfl]
      exact ⟨rfl, rfl⟩
  | query name q =>
    cases h
    cases found : r.find? n with
    | none =>
      rw [run_query_of_unknown q found, run_query_of_unknown q (same.symm.trans found)]
      exact ⟨rfl, same⟩
    | some s =>
      rw [run_query_of_known q found, run_query_of_known q (same.symm.trans found), Catalog.find?_replace,
        Catalog.find?_replace, same]
      exact ⟨rfl, rfl⟩

end Action

/-! ### Requests about a session, among others -/

namespace Registry
variable {r r' : Registry} {q : Request} {n : String}

theorem find?_handle_of_other (h : ¬ q.About n) : (r.handle q).2.find? n = r.find? n :=
  Action.find?_run_of_other fun subject => h (Request.about_of_action subject)

theorem handle_of_same (h : q.About n) (same : r.find? n = r'.find? n) :
    (r.handle q).1 = (r'.handle q).1 ∧ (r.handle q).2.find? n = (r'.handle q).2.find? n := by
  rw [handle_eq, handle_eq]
  rcases h.action with ⟨response, ha⟩ | subject
  · rw [ha]
    exact ⟨rfl, same⟩
  · obtain ⟨answer, left⟩ := Action.run_of_same subject same
    exact ⟨congrArg q.deliver answer, left⟩

/-- The responses to the requests about a session, in the course of some requests. -/
def responsesAbout (r : Registry) (requests : List Request) (n : String) : List Response :=
  ((requests.zip (r.handleAll requests).1).filter fun answered => answered.1.About n).map (·.2)

theorem responsesAbout_cons (r : Registry) (q : Request) (rest : List Request) (n : String) :
    r.responsesAbout (q :: rest) n =
      if q.About n then (r.handle q).1 :: (r.handle q).2.responsesAbout rest n
      else (r.handle q).2.responsesAbout rest n := by
  unfold responsesAbout
  rw [handleAll_cons, List.zip_cons_cons, List.filter_cons]
  by_cases about : q.About n
  · rw [if_pos about, if_pos (decide_eq_true about)]
    rfl
  · rw [if_neg about, if_neg (by simpa using about)]

/-- Two registries with the same session of a name: among others, the requests about it are answered in one as they are
alone in the other. -/
theorem responsesAbout_of_same (same : r.find? n = r'.find? n) (requests : List Request) :
    r.responsesAbout requests n = (r'.handleAll (requests.filter (·.About n))).1 ∧
      (r.handleAll requests).2.find? n = (r'.handleAll (requests.filter (·.About n))).2.find? n := by
  -- What the two runs agree on throughout is the session; a request about another one is sent in the first run only.
  induction requests generalizing r r' with
  | nil => exact ⟨rfl, same⟩
  | cons q rest ih =>
    rw [responsesAbout_cons, handleAll_cons]
    by_cases about : q.About n
    · obtain ⟨answer, left⟩ := handle_of_same about same
      obtain ⟨answers, found⟩ := ih left
      rw [if_pos about, List.filter_cons, if_pos (decide_eq_true about), handleAll_cons, answer, answers]
      exact ⟨rfl, found⟩
    · obtain ⟨answers, found⟩ := ih ((find?_handle_of_other about).trans same)
      rw [if_neg about, List.filter_cons, if_neg (by simpa using about)]
      exact ⟨answers, found⟩

/-- Whatever other requests are sent, those about a session are answered as they are without the others, and they leave
the same session under its name. -/
theorem sessions_isolated (demo : Bool) (requests : List Request) (n : String) :
    let own := requests.filter (·.About n)
    (start demo).responsesAbout requests n = ((start demo).handleAll own).1 ∧
      ((start demo).handleAll requests).2.find? n = ((start demo).handleAll own).2.find? n :=
  responsesAbout_of_same rfl requests

end Registry

end CipherGraph
