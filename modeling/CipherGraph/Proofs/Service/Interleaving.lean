import CipherGraph.Proofs.Service.Run
import CipherGraph.Proofs.Service.Shelf
import Mathlib.Logic.Function.Basic

/-! # Interleaved requests

Requests that overlap, step by step. A request that registers or removes a session does so in one step, and so
is one answered that looks at no session. A query takes two steps: first it finds the handle of its session,
then it is run on the session at this handle, whatever happened to the name in between. The names are not read
in one step, so the request for their list is left out. -/

namespace CipherGraph

/-- How far a request has come. -/
inductive Progress where
  | waiting
  | holding (h : Handle)
  | answered (response : Response)

/-- The sessions, and how far each request has come. -/
structure Traffic (ι : Type) where
  shelf : Shelf
  progress : ι → Progress

namespace Traffic
variable {ι : Type}

/-- No request has begun. -/
def start (r : Registry) : Traffic ι :=
  ⟨.ofRegistry r, fun _ => .waiting⟩

/-- A request is answered. -/
def Answered (t : Traffic ι) (i : ι) : Prop :=
  ∃ response, t.progress i = .answered response

instance (t : Traffic ι) (i : ι) : Decidable (t.Answered i) :=
  match h : t.progress i with
  | .answered response => isTrue ⟨response, h⟩
  | .waiting => isFalse fun ⟨_, ha⟩ => nomatch h.symm.trans ha
  | .holding _ => isFalse fun ⟨_, ha⟩ => nomatch h.symm.trans ha

variable [DecidableEq ι]

def hold (t : Traffic ι) (i : ι) (h : Handle) : Traffic ι :=
  { t with progress := Function.update t.progress i (.holding h) }

/-- A request is answered, and leaves a shelf behind. -/
def answer (requests : ι → Request) (t : Traffic ι) (i : ι) (response : Response) (shelf : Shelf) : Traffic ι :=
  { shelf, progress := Function.update t.progress i (.answered ((requests i).deliver response)) }

/-- The next step of a request, unless it is answered or asks for the list. -/
def step (requests : ι → Request) (t : Traffic ι) (i : ι) : Option (Traffic ι) :=
  match t.progress i with
  | .waiting =>
    match (requests i).action with
    | .reply response => some (t.answer requests i response t.shelf)
    | .list => none
    | .register s =>
      match free : t.shelf.handles.find? s.name with
      | none => some (t.answer requests i s.created (t.shelf.add s free))
      | some _ => some (t.answer requests i (ServiceError.takenName s.name).response t.shelf)
    | .remove name =>
      match t.shelf.handles.find? name with
      | none => some (t.answer requests i (ServiceError.unknownSession name).response t.shelf)
      | some _ => some (t.answer requests i removed (t.shelf.drop name))
    | .query name _ =>
      match t.shelf.handles.find? name with
      | none => some (t.answer requests i (ServiceError.unknownSession name).response t.shelf)
      | some h => some (t.hold i h)
  | .holding h =>
    match (requests i).action, t.shelf.sessions[h]? with
    | .query _ q, some s => some (t.answer requests i (q.run s).1 (t.shelf.put h (q.run s).2))
    | _, _ => none
  | .answered _ => none

/-- The steps of a schedule, which names the request whose turn it is. -/
def run (requests : ι → Request) (t : Traffic ι) : List ι → Option (Traffic ι)
  | [] => some t
  | i :: schedule => (t.step requests i).bind fun t => t.run requests schedule

end Traffic

/-! ### What a step does -/

/-- Names keep their handles, new handles are fresh, and the sessions without a name stay as they are. -/
structure Shelf.Keeps (shelf shelf' : Shelf) : Prop where
  names : ∀ name h, shelf.handles.find? name = some h → shelf'.handles.find? name = some h
  fresh : ∀ name h, shelf'.handles.find? name = some h →
    shelf.handles.find? name = some h ∨ shelf.sessions.length ≤ h
  unnamed : ∀ h, h < shelf.sessions.length → (∀ name, shelf.handles.find? name ≠ some h) →
    shelf'.sessions[h]? = shelf.sessions[h]?

namespace Shelf
variable {shelf : Shelf} {s : Session} {name : String} {h : Handle}

theorem Keeps.refl (shelf : Shelf) : shelf.Keeps shelf :=
  ⟨fun _ _ => id, fun _ _ => Or.inl, fun _ _ _ => rfl⟩

theorem keeps_add (free : shelf.handles.find? s.name = none) : shelf.Keeps (shelf.add s free) where
  names name h found := by
    have hn : name ≠ s.name := by
      rintro rfl
      cases free.symm.trans found
    exact ((Catalog.find?_enter free name).trans (if_neg hn)).trans found
  fresh name h found := by
    replace found := (Catalog.find?_enter free name).symm.trans found
    split at found
    · cases found
      exact Or.inr (Nat.le_refl _)
    · exact Or.inl found
  unnamed h hlt _ := List.getElem?_append_left hlt

theorem keeps_put (found : shelf.handles.find? name = some h) : shelf.Keeps (shelf.put h s) where
  names _ _ := id
  fresh _ _ := Or.inl
  unnamed h' _ unnamed := by
    have hne : h ≠ h' := by
      rintro rfl
      exact unnamed name found
    exact List.getElem?_set_ne hne

end Shelf

namespace Traffic
variable {ι : Type} [DecidableEq ι] {requests : ι → Request} {t t' : Traffic ι} {i j : ι} {h : Handle}

/-- What the next step of a request can be: it is answered at once, as it would be on its own; it removes a
session; it finds its session; or it is run on the session that it found. -/
inductive Effect (requests : ι → Request) (t : Traffic ι) (i : ι) : Traffic ι → Prop
  | atOnce {response : Response} {shelf : Shelf} (waits : t.progress i = .waiting)
    (run : (requests i).action.run t.shelf.registry = (response, shelf.registry)) (keeps : t.shelf.Keeps shelf) :
    Effect requests t i (t.answer requests i response shelf)
  | removes {name : String} {h : Handle} (waits : t.progress i = .waiting)
    (asks : (requests i).action = .remove name) (found : t.shelf.handles.find? name = some h) :
    Effect requests t i (t.answer requests i removed (t.shelf.drop name))
  | finds {name : String} {q : Query} {h : Handle} (waits : t.progress i = .waiting)
    (asks : (requests i).action = .query name q) (found : t.shelf.handles.find? name = some h) :
    Effect requests t i (t.hold i h)
  | runs {name : String} {q : Query} {h : Handle} {s : Session} (holds : t.progress i = .holding h)
    (asks : (requests i).action = .query name q) (found : t.shelf.sessions[h]? = some s) :
    Effect requests t i (t.answer requests i (q.run s).1 (t.shelf.put h (q.run s).2))

theorem effect_of_step (taken : t.step requests i = some t') : Effect requests t i t' := by
  unfold step at taken
  split at taken
  · next waits =>
    split at taken
    · next asks =>
      cases taken
      exact .atOnce waits (by rw [asks]; rfl) (.refl _)
    · cases taken
    · next s asks =>
      split at taken
      · next free =>
        cases taken
        refine .atOnce waits ?_ (Shelf.keeps_add free)
        rw [asks, Action.run_register_of_free (Shelf.find?_registry_of_none free), Shelf.registry_add]
      · next found =>
        cases taken
        obtain ⟨_, -, found⟩ := Shelf.find?_registry_of_some found
        exact .atOnce waits (by rw [asks, Action.run_register_of_taken found]) (.refl _)
    · next asks =>
      split at taken
      · next found =>
        cases taken
        have unknown := Shelf.find?_registry_of_none found
        exact .atOnce waits (by rw [asks, Action.run_remove_of_unknown unknown]) (.refl _)
      · next found =>
        cases taken
        exact .removes waits asks found
    · next asks =>
      split at taken
      · next found =>
        cases taken
        have unknown := Shelf.find?_registry_of_none found
        exact .atOnce waits (by rw [asks, Action.run_query_of_unknown _ unknown]) (.refl _)
      · next found =>
        cases taken
        exact .finds waits asks found
  · next holds =>
    split at taken
    · next asks found =>
      cases taken
      exact .runs holds asks found
    · cases taken
  · cases taken

theorem run_cons (t : Traffic ι) (i : ι) (schedule : List ι) :
    t.run requests (i :: schedule) = (t.step requests i).bind fun t => t.run requests schedule :=
  rfl

theorem run_concat (t : Traffic ι) (schedule : List ι) (i : ι) :
    t.run requests (schedule ++ [i]) = (t.run requests schedule).bind fun t => t.step requests i := by
  induction schedule generalizing t with
  | nil =>
    show (t.step requests i).bind some = t.step requests i
    exact Option.bind_fun_some _
  | cons k rest ih =>
    rw [List.cons_append, run_cons, run_cons, Option.bind_assoc]
    exact Option.bind_congr fun t _ => ih t

/-! ### How far the requests have come -/

@[simp] theorem progress_answer_self (response : Response) (shelf : Shelf) :
    (t.answer requests i response shelf).progress i = .answered ((requests i).deliver response) :=
  Function.update_self i _ _

theorem progress_answer_of_ne (hne : j ≠ i) (response : Response) (shelf : Shelf) :
    (t.answer requests i response shelf).progress j = t.progress j :=
  Function.update_of_ne hne _ _

@[simp] theorem progress_hold_self (h : Handle) : (t.hold i h).progress i = .holding h :=
  Function.update_self i _ _

theorem progress_hold_of_ne (hne : j ≠ i) (h : Handle) : (t.hold i h).progress j = t.progress j :=
  Function.update_of_ne hne _ _

/-- Only those hold a handle after an answer that held it before. -/
theorem holding_of_answer {response : Response} {shelf : Shelf}
    (holds : (t.answer requests i response shelf).progress j = .holding h) : t.progress j = .holding h ∧ j ≠ i := by
  by_cases hne : j = i
  · subst hne
    rw [progress_answer_self] at holds
    cases holds
  · rw [progress_answer_of_ne hne] at holds
    exact ⟨holds, hne⟩

/-- After a request has found its session, the others hold what they held before. -/
theorem holding_of_hold {h' : Handle} (holds : (t.hold i h).progress j = .holding h') :
    (j = i ∧ h' = h) ∨ t.progress j = .holding h' := by
  by_cases hj : j = i
  · subst hj
    rw [progress_hold_self] at holds
    cases holds
    exact Or.inl ⟨rfl, rfl⟩
  · rw [progress_hold_of_ne hj] at holds
    exact Or.inr holds

theorem answered_of_hold (answered : (t.hold i h).Answered j) : t.Answered j := by
  obtain ⟨response, ha⟩ := answered
  by_cases hj : j = i
  · subst hj
    rw [progress_hold_self] at ha
    cases ha
  · rw [progress_hold_of_ne hj] at ha
    exact ⟨response, ha⟩

theorem Effect.not_answered (effect : Effect requests t i t') : ¬ t.Answered i := by
  rintro ⟨response, ha⟩
  cases effect with
  | atOnce waits => cases waits.symm.trans ha
  | removes waits => cases waits.symm.trans ha
  | finds waits => cases waits.symm.trans ha
  | runs holds => cases holds.symm.trans ha

/-- A step moves no other request. -/
theorem Effect.progress_of_ne (effect : Effect requests t i t') (hne : j ≠ i) : t'.progress j = t.progress j := by
  cases effect with
  | atOnce => exact progress_answer_of_ne hne _ _
  | removes => exact progress_answer_of_ne hne _ _
  | finds => exact progress_hold_of_ne hne _
  | runs => exact progress_answer_of_ne hne _ _

/-- A request that takes a step has begun. -/
theorem Effect.begun (effect : Effect requests t i t') : t'.progress i ≠ .waiting := by
  intro waits
  cases effect with
  | atOnce => rw [progress_answer_self] at waits; cases waits
  | removes => rw [progress_answer_self] at waits; cases waits
  | finds => rw [progress_hold_self] at waits; cases waits
  | runs => rw [progress_answer_self] at waits; cases waits

end Traffic

/-! ### Real time -/

section
variable {ι : Type} {past : List ι} {a b i j k : ι}

/-- All steps of a request come before all steps of another. -/
def Precedes (schedule : List ι) (a b : ι) : Prop :=
  ∃ before after, schedule = before ++ after ∧ a ∉ after ∧ b ∉ before

/-- A request begins before another does. -/
def Opens (schedule : List ι) (a b : ι) : Prop :=
  ∃ before after, schedule = before ++ after ∧ a ∈ before ∧ b ∉ before

theorem not_precedes_self (h : a ∈ past) : ¬ Precedes past a a := by
  rintro ⟨before, after, rfl, hafter, hbefore⟩
  exact (List.mem_append.mp h).elim hbefore hafter

theorem Precedes.of_concat (h : Precedes (past ++ [k]) a b) : Precedes past a b := by
  obtain ⟨before, after, hsplit, ha, hb⟩ := h
  -- The last step falls away on whichever side of the cut it stands.
  rcases List.eq_nil_or_concat' after with rfl | ⟨after, last, rfl⟩
  · rw [List.append_nil] at hsplit
    subst hsplit
    exact ⟨past, [], (List.append_nil past).symm, List.not_mem_nil, fun h => hb (List.mem_append_left _ h)⟩
  · rw [← List.append_assoc] at hsplit
    obtain ⟨rfl, -⟩ := List.append_inj' hsplit rfl
    exact ⟨before, after, rfl, fun h => ha (List.mem_append_left _ h), hb⟩

/-- The request that takes the last step precedes none that has begun. -/
theorem not_precedes_of_last (h : a ∈ past) : ¬ Precedes (past ++ [k]) k a := by
  rintro ⟨before, after, hsplit, hk, ha⟩
  rcases List.eq_nil_or_concat' after with rfl | ⟨after, last, rfl⟩
  · rw [List.append_nil] at hsplit
    subst hsplit
    exact ha (List.mem_append_left _ h)
  · rw [← List.append_assoc] at hsplit
    obtain ⟨-, hlast⟩ := List.append_inj' hsplit rfl
    cases hlast
    exact hk (List.mem_append_right _ (List.mem_singleton_self k))

theorem Opens.concat (h : Opens past a b) (k : ι) : Opens (past ++ [k]) a b := by
  obtain ⟨before, after, rfl, ha, hb⟩ := h
  exact ⟨before, after ++ [k], List.append_assoc _ _ _, ha, hb⟩

theorem opens_last (ha : a ∈ past) (hk : k ∉ past) : Opens (past ++ [k]) a k :=
  ⟨past, [k], rfl, ha, hk⟩

/-- What precedes a request precedes all that begin after it. -/
theorem Opens.precedes (h : Opens past i j) (hb : Precedes past b i) : Precedes past b j := by
  obtain ⟨early, late, hsplit, hi, hj⟩ := h
  obtain ⟨before, after, rfl, hafter, hbefore⟩ := hb
  refine ⟨before, after, rfl, hafter, fun hmem => hj ?_⟩
  rcases List.append_eq_append_iff.mp hsplit with ⟨rest, rfl, -⟩ | ⟨rest, rfl, -⟩
  · exact List.mem_append_left _ hmem
  · exact absurd (List.mem_append_left _ hi) hbefore

end

end CipherGraph
