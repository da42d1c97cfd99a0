import CipherGraph.Proofs.Service.Interleaving
import Mathlib.Data.List.Induction

/-! # Interleaved requests in a sequential order

Whatever the order of their steps, requests are answered as if they came one after the other. The sequential
order is kept in a log: a request is entered when it is answered. Mostly it comes last, but a query on a session
that was removed after it was found comes just before its removal. There the session still has its name, and
no request in between can tell. -/

namespace CipherGraph
open Traffic

/-- An answered request, and the handle of the session that it removed. -/
structure Entry (ι : Type) where
  request : ι
  dropped : Option Handle := none

/-! ### The log as a sequential run -/

section
variable {ι : Type} {requests : ι → Request} {t t' : Traffic ι} {r r' : Registry} {log : List (Entry ι)}
  {e d : Entry ι} {i k : ι} {h : Handle} {name : String} {q : Query} {s : Session}

/-- A request removes the session at a handle, and those that hold the handle hold it for the same name. -/
def Removes (requests : ι → Request) (t : Traffic ι) (r : Registry) (i : ι) (h : Handle) : Prop :=
  ∃ name s, (requests i).action = .remove name ∧ r.find? name = some s ∧ t.shelf.sessions[h]? = some s ∧
    ∀ j, t.progress j = .holding h → ∃ q, (requests j).action = .query name q

/-- A request is answered as it would be on its own, and what it removed stands at its handle. -/
structure Entry.Fits (requests : ι → Request) (t : Traffic ι) (r : Registry) (e : Entry ι) : Prop where
  answered : t.progress e.request = .answered (r.handle (requests e.request)).1
  dropped : ∀ h, e.dropped = some h → Removes requests t r e.request h

/-- The requests of a log, one after the other, lead from one registry to another. -/
def Replays (requests : ι → Request) (t : Traffic ι) (r : Registry) : List (Entry ι) → Registry → Prop
  | [], r' => r = r'
  | e :: log, r' => e.Fits requests t r ∧ Replays requests t (r.handle (requests e.request)).2 log r'

/-- What an entry tells is the same of both. -/
structure Entry.Agree (e : Entry ι) (t t' : Traffic ι) : Prop where
  progress : t'.progress e.request = t.progress e.request
  sessions : ∀ h, e.dropped = some h → t'.shelf.sessions[h]? = t.shelf.sessions[h]?
  holders : ∀ h, e.dropped = some h → ∀ i, t'.progress i = .holding h → t.progress i = .holding h

theorem Entry.Fits.keep (fits : e.Fits requests t r) (agree : e.Agree t t') : e.Fits requests t' r where
  answered := agree.progress.trans fits.answered
  dropped h hd := by
    obtain ⟨name, s, asks, known, kept, holders⟩ := fits.dropped h hd
    exact ⟨name, s, asks, known, (agree.sessions h hd).trans kept, fun i hi => holders i (agree.holders h hd i hi)⟩

theorem Replays.keep (replays : Replays requests t r log r') (agree : ∀ e ∈ log, e.Agree t t') :
    Replays requests t' r log r' := by
  induction log generalizing r with
  | nil => exact replays
  | cons e rest ih =>
    exact ⟨replays.1.keep (agree e List.mem_cons_self), ih replays.2 fun e he => agree e (List.mem_cons_of_mem _ he)⟩

theorem replays_append {before after : List (Entry ι)} :
    Replays requests t r (before ++ after) r' ↔
      ∃ mid, Replays requests t r before mid ∧ Replays requests t mid after r' := by
  induction before generalizing r with
  | nil => exact ⟨fun h => ⟨r, rfl, h⟩, fun ⟨_, rfl, h⟩ => h⟩
  | cons e rest ih =>
    constructor
    · rintro ⟨fits, replays⟩
      obtain ⟨mid, hrest, hafter⟩ := ih.mp replays
      exact ⟨mid, ⟨fits, hrest⟩, hafter⟩
    · rintro ⟨mid, ⟨fits, hrest⟩, hafter⟩
      exact ⟨fits, ih.mpr ⟨mid, hrest, hafter⟩⟩

/-- Every entry fits the registry that those before it lead to. -/
theorem Replays.fits (replays : Replays requests t r log r') (he : e ∈ log) : ∃ mid, e.Fits requests t mid := by
  obtain ⟨before, after, rfl⟩ := List.append_of_mem he
  obtain ⟨mid, -, fits, -⟩ := replays_append.mp replays
  exact ⟨mid, fits⟩

theorem Replays.answered (replays : Replays requests t r log r') (he : e ∈ log) : t.Answered e.request := by
  obtain ⟨mid, fits⟩ := replays.fits he
  exact ⟨_, fits.answered⟩

theorem Replays.dropped_lt (replays : Replays requests t r log r') (he : e ∈ log) (hd : e.dropped = some h) :
    h < t.shelf.sessions.length := by
  obtain ⟨mid, fits⟩ := replays.fits he
  obtain ⟨-, s, -, -, kept, -⟩ := fits.dropped h hd
  exact (List.getElem?_eq_some_iff.mp kept).1

/-- A log that replays is a run of its requests, one after the other. -/
theorem Replays.handleAll (replays : Replays requests t r log r') :
    (r.handleAll (log.map fun e => requests e.request)).1.map .answered = log.map (fun e => t.progress e.request) ∧
      (r.handleAll (log.map fun e => requests e.request)).2 = r' := by
  induction log generalizing r with
  | nil => exact ⟨rfl, replays⟩
  | cons e rest ih =>
    obtain ⟨fits, replays⟩ := replays
    obtain ⟨responses, final⟩ := ih replays
    rw [List.map_cons, List.map_cons, Registry.handleAll_cons, List.map_cons, responses, fits.answered]
    exact ⟨rfl, final⟩

variable [DecidableEq ι]

theorem Entry.agree_answer {response : Response} {shelf : Shelf} (answered : t.Answered e.request)
    (pending : ¬ t.Answered k)
    (kept : ∀ h, e.dropped = some h → shelf.sessions[h]? = t.shelf.sessions[h]?) :
    e.Agree t (t.answer requests k response shelf) where
  progress := by
    have hne : e.request ≠ k := fun hk => pending (hk ▸ answered)
    exact progress_answer_of_ne hne _ _
  sessions := kept
  holders _ _ _ holds := (holding_of_answer holds).1

/-- A request that is answered as it would be after the log comes last. -/
theorem Replays.concat {response : Response} {shelf : Shelf} (replays : Replays requests t r log t.shelf.registry)
    (pending : ¬ t.Answered e.request)
    (run : (requests e.request).action.run t.shelf.registry = (response, shelf.registry))
    (kept : ∀ e ∈ log, ∀ h, e.dropped = some h → shelf.sessions[h]? = t.shelf.sessions[h]?)
    (dropped : ∀ h, e.dropped = some h →
      Removes requests (t.answer requests e.request response shelf) t.shelf.registry e.request h) :
    Replays requests (t.answer requests e.request response shelf) r (log ++ [e]) shelf.registry := by
  have handled : t.shelf.registry.handle (requests e.request) =
      ((requests e.request).deliver response, shelf.registry) := by
    rw [Registry.handle_eq, run]
  refine replays_append.mpr ⟨t.shelf.registry, replays.keep fun e he => ?_, ⟨?_, dropped⟩, ?_⟩
  · exact Entry.agree_answer (replays.answered he) pending (kept e he)
  · rw [progress_answer_self, handled]
  · show (t.shelf.registry.handle (requests e.request)).2 = shelf.registry
    rw [handled]

/-- A query on a session that was removed is answered as it would be just before the removal, and no later
request can tell. -/
theorem Replays.insert {before after : List (Entry ι)} (replays : Replays requests t r (before ++ d :: after) r')
    (hd : d.dropped = some h) (others : ∀ e ∈ before ++ after, e.dropped ≠ some h)
    (holds : t.progress k = .holding h) (asks : (requests k).action = .query name q)
    (found : t.shelf.sessions[h]? = some s) :
    Replays requests (t.answer requests k (q.run s).1 (t.shelf.put h (q.run s).2)) r
      (before ++ ⟨k, none⟩ :: d :: after) r' := by
  have pending : ¬ t.Answered k := by
    rintro ⟨response, ha⟩
    cases holds.symm.trans ha
  have agree : ∀ e ∈ before ++ d :: after, e.dropped ≠ some h →
      e.Agree t (t.answer requests k (q.run s).1 (t.shelf.put h (q.run s).2)) := by
    intro e he hne
    refine Entry.agree_answer (replays.answered he) pending fun h' hd' => List.getElem?_set_ne ?_
    rintro rfl
    exact hne hd'
  obtain ⟨mid, hbefore, fits, hafter⟩ := replays_append.mp replays
  obtain ⟨name', s', removes, known, kept, holders⟩ := fits.dropped h hd
  obtain ⟨q', asks'⟩ := holders k holds
  cases asks.symm.trans asks'
  cases found.symm.trans kept
  have handled : mid.handle (requests k) = ((requests k).deliver (q.run s).1, mid.replace name (q.run s).2) := by
    rw [Registry.handle_eq, asks, Action.run_query_of_known q known]
  have known' : (mid.replace name (q.run s).2).find? name = some (q.run s).2 := by
    rw [Catalog.find?_replace, if_pos rfl, known]
    rfl
  -- The removal ends in the same registry, whether or not the session was changed before.
  have removal : Registry.handle (mid.replace name (q.run s).2) (requests d.request) =
      mid.handle (requests d.request) := by
    rw [Registry.handle_eq, Registry.handle_eq, removes, Action.run_remove_of_known known',
      Action.run_remove_of_known known, Catalog.erase_replace]
  refine replays_append.mpr ⟨mid, hbefore.keep fun e he => ?_, ⟨?_, nofun⟩, ?_⟩
  · exact agree e (List.mem_append_left _ he) (others e (List.mem_append_left _ he))
  · rw [progress_answer_self, handled]
  · rw [handled]
    refine ⟨⟨?_, fun h' hd' => ?_⟩, ?_⟩
    · rw [removal, progress_answer_of_ne ?_, fits.answered]
      rintro rfl
      exact pending ⟨_, fits.answered⟩
    · cases hd.symm.trans hd'
      refine ⟨name, _, removes, known', ?_, fun i hi => holders i (holding_of_answer hi).1⟩
      exact List.getElem?_set_self (List.getElem?_eq_some_iff.mp found).1
    · rw [removal]
      refine hafter.keep fun e he => ?_
      exact agree e (List.mem_append_right _ (List.mem_cons_of_mem _ he)) (others e (List.mem_append_right _ he))

end

/-! ### The log of a run -/

/-- An entry may come before another one. -/
structure Entry.Before {ι : Type} (past : List ι) (a b : Entry ι) : Prop where
  distinct : a.request ≠ b.request
  apart : ∀ h, a.dropped = some h → b.dropped ≠ some h
  timely : ¬ Precedes past b.request a.request

theorem Entry.Before.concat {ι : Type} {past : List ι} {a b : Entry ι} (hab : Entry.Before past a b) (k : ι) :
    Entry.Before (past ++ [k]) a b :=
  ⟨hab.distinct, hab.apart, fun hp => hab.timely hp.of_concat⟩

/-- The log tells how the requests came to be answered. A request that holds a handle either holds that of a
session with the name that it asked for, or the session was removed after the request had begun. -/
structure Explains {ι : Type} (requests : ι → Request) (r : Registry) (past : List ι) (t : Traffic ι)
    (log : List (Entry ι)) : Prop where
  replays : Replays requests t r log t.shelf.registry
  ordered : log.Pairwise (Entry.Before past)
  complete : ∀ i, t.Answered i → ∃ e ∈ log, e.request = i
  begun : ∀ i, t.progress i = .waiting ↔ i ∉ past
  unnamed : ∀ e ∈ log, ∀ h, e.dropped = some h → ∀ name, t.shelf.handles.find? name ≠ some h
  holding : ∀ i h, t.progress i = .holding h →
    (∃ e ∈ log, e.dropped = some h ∧ Opens past i e.request) ∨
      ∃ name q, (requests i).action = .query name q ∧ t.shelf.handles.find? name = some h

section
variable {ι : Type} {requests : ι → Request} {t t' : Traffic ι} {r : Registry} {past : List ι}
  {log before after : List (Entry ι)} {e d : Entry ι} {i k : ι} {h : Handle} {name : String} {q : Query}
  {s : Session}

/-- An entry that is new in the log. Those after it belong to requests that did not end before it began. -/
theorem ordered_insert (ordered : (before ++ after).Pairwise (Entry.Before past))
    (distinct : ∀ a ∈ before ++ after, a.request ≠ e.request)
    (begun : ∀ a ∈ before ++ after, a.request ∈ past)
    (apart : ∀ a ∈ before ++ after, ∀ h, a.dropped = some h → e.dropped ≠ some h)
    (timely : ∀ b ∈ after, ¬ Precedes past b.request e.request) :
    (before ++ e :: after).Pairwise (Entry.Before (past ++ [e.request])) := by
  obtain ⟨hbefore, hafter, hacross⟩ := List.pairwise_append.mp (ordered.imp fun hab => hab.concat e.request)
  refine List.pairwise_append.mpr ⟨hbefore, List.pairwise_cons.mpr ⟨fun b hb => ?_, hafter⟩, fun a ha b hb => ?_⟩
  · have hb' := List.mem_append_right before hb
    exact ⟨(distinct b hb').symm, fun h he hd => apart b hb' h hd he, fun hp => timely b hb hp.of_concat⟩
  · rcases List.mem_cons.mp hb with rfl | hb
    · have ha' := List.mem_append_left after ha
      exact ⟨distinct a ha', apart a ha', not_precedes_of_last (begun a ha')⟩
    · exact hacross a ha b hb

namespace Explains

theorem start (r : Registry) : Explains requests r [] (Traffic.start r) [] where
  replays := (Shelf.registry_ofRegistry r).symm
  ordered := .nil
  complete := by rintro i ⟨response, ⟨⟩⟩
  begun _ := iff_of_true rfl List.not_mem_nil
  unnamed := nofun
  holding := nofun

theorem logged_begun (explains : Explains requests r past t log) (he : e ∈ log) : e.request ∈ past := by
  obtain ⟨response, ha⟩ := explains.replays.answered he
  by_contra hpast
  cases ((explains.begun e.request).mpr hpast).symm.trans ha

theorem logged_ne (explains : Explains requests r past t log) (he : e ∈ log) (pending : ¬ t.Answered k) :
    e.request ≠ k := fun hk => pending (hk ▸ explains.replays.answered he)

/-- A handle that a request holds leads to a session. -/
theorem held (explains : Explains requests r past t log) (holds : t.progress i = .holding h) :
    ∃ name q s, (requests i).action = .query name q ∧ t.shelf.sessions[h]? = some s := by
  rcases explains.holding i h holds with ⟨e, he, hd, -⟩ | ⟨name, q, asks, found⟩
  · obtain ⟨mid, fits⟩ := explains.replays.fits he
    obtain ⟨name, s, -, -, there, holders⟩ := fits.dropped h hd
    obtain ⟨q, asks⟩ := holders i holds
    exact ⟨name, q, s, asks, there⟩
  · obtain ⟨s, there, -⟩ := Shelf.find?_registry_of_some found
    exact ⟨name, q, s, asks, there⟩

variable [DecidableEq ι]

theorem begun_step (explains : Explains requests r past t log) (effect : Effect requests t k t') (i : ι) :
    t'.progress i = .waiting ↔ i ∉ past ++ [k] := by
  by_cases hi : i = k
  · subst hi
    exact iff_of_false effect.begun fun h => h (List.mem_append_right _ (List.mem_singleton_self i))
  · rw [effect.progress_of_ne hi, explains.begun, List.mem_append, List.mem_singleton, or_iff_left hi]

theorem ordered_step {dropped : Option Handle} (explains : Explains requests r past t (before ++ after))
    (effect : Effect requests t k t') (apart : ∀ a ∈ before ++ after, ∀ h, a.dropped = some h → dropped ≠ some h)
    (timely : ∀ b ∈ after, ¬ Precedes past b.request k) :
    List.Pairwise (Entry.Before (past ++ [k])) (before ++ ⟨k, dropped⟩ :: after) :=
  ordered_insert (e := ⟨k, dropped⟩) explains.ordered (fun _ ha => explains.logged_ne ha effect.not_answered)
    (fun _ ha => explains.logged_begun ha) apart timely

theorem ordered_concat {dropped : Option Handle} (explains : Explains requests r past t log)
    (effect : Effect requests t k t') (apart : ∀ a ∈ log, ∀ h, a.dropped = some h → dropped ≠ some h) :
    List.Pairwise (Entry.Before (past ++ [k])) (log ++ [⟨k, dropped⟩]) := by
  rw [← List.append_nil log] at explains apart
  exact explains.ordered_step effect apart nofun

/-- A new entry completes the log. -/
theorem complete_step {dropped : Option Handle} (explains : Explains requests r past t (before ++ after))
    (effect : Effect requests t k t') (i : ι) (answered : t'.Answered i) :
    ∃ e : Entry ι, e ∈ before ++ ⟨k, dropped⟩ :: after ∧ e.request = i := by
  by_cases hi : i = k
  · subst hi
    exact ⟨⟨i, dropped⟩, List.mem_append_right _ List.mem_cons_self, rfl⟩
  · obtain ⟨response, ha⟩ := answered
    rw [effect.progress_of_ne hi] at ha
    obtain ⟨e, he, rfl⟩ := explains.complete i ⟨response, ha⟩
    refine ⟨e, ?_, rfl⟩
    rcases List.mem_append.mp he with he | he
    · exact List.mem_append_left _ he
    · exact List.mem_append_right _ (List.mem_cons_of_mem _ he)

theorem complete_concat {dropped : Option Handle} (explains : Explains requests r past t log)
    (effect : Effect requests t k t') (i : ι) (answered : t'.Answered i) :
    ∃ e : Entry ι, e ∈ log ++ [⟨k, dropped⟩] ∧ e.request = i := by
  rw [← List.append_nil log] at explains
  exact explains.complete_step effect i answered

/-- A request is answered as it would be on its own. -/
theorem step_alone {response : Response} {shelf : Shelf} (explains : Explains requests r past t log)
    (effect : Effect requests t k (t.answer requests k response shelf))
    (run : (requests k).action.run t.shelf.registry = (response, shelf.registry)) (keeps : t.shelf.Keeps shelf) :
    Explains requests r (past ++ [k]) (t.answer requests k response shelf) (log ++ [⟨k, none⟩]) where
  replays := by
    refine explains.replays.concat (e := ⟨k, none⟩) effect.not_answered run (fun e he h hd => ?_) nofun
    exact keeps.unnamed h (explains.replays.dropped_lt he hd) (explains.unnamed e he h hd)
  ordered := explains.ordered_concat effect (by rintro _ _ _ _ ⟨⟩)
  complete := explains.complete_concat effect
  begun := explains.begun_step effect
  unnamed e he h hd name found := by
    rcases List.mem_append.mp he with he | he
    · rcases keeps.fresh name h found with found | fresh
      · exact explains.unnamed e he h hd name found
      · exact absurd (explains.replays.dropped_lt he hd) (Nat.not_lt.mpr fresh)
    · cases List.mem_singleton.mp he
      cases hd
  holding i h holds := by
    rcases explains.holding i h (holding_of_answer holds).1 with ⟨e, he, hd, opens⟩ | ⟨name, q, asks, found⟩
    · exact Or.inl ⟨e, List.mem_append_left _ he, hd, opens.concat k⟩
    · exact Or.inr ⟨name, q, asks, keeps.names name h found⟩

/-- A request removes a session. Those that still hold it have begun before. -/
theorem step_removes (explains : Explains requests r past t log) (waits : t.progress k = .waiting)
    (asks : (requests k).action = .remove name) (found : t.shelf.handles.find? name = some h) :
    Explains requests r (past ++ [k]) (t.answer requests k removed (t.shelf.drop name)) (log ++ [⟨k, some h⟩]) := by
  have effect := Effect.removes waits asks found
  obtain ⟨s, there, known⟩ := Shelf.find?_registry_of_some found
  have fresh : ∀ e ∈ log, e.dropped ≠ some h := fun e he hd => explains.unnamed e he h hd name found
  refine ⟨?replays, ?ordered, explains.complete_concat effect, explains.begun_step effect, ?unnamed, ?holding⟩
  case replays =>
    refine explains.replays.concat (e := ⟨k, some h⟩) effect.not_answered ?_ (fun _ _ _ _ => rfl) fun h' hd => ?_
    · rw [asks, Action.run_remove_of_known known, Shelf.registry_drop]
    · cases hd
      refine ⟨name, s, asks, known, there, fun i holds => ?_⟩
      rcases explains.holding i h (holding_of_answer holds).1 with ⟨e, he, hd, -⟩ | ⟨name', q, asks', found'⟩
      · exact absurd hd (fresh e he)
      · cases t.shelf.apart name name' h found found'
        exact ⟨q, asks'⟩
  case ordered =>
    refine explains.ordered_concat effect ?_
    rintro e he h' hd ⟨⟩
    exact fresh e he hd
  case unnamed =>
    intro e he h' hd n hn
    rcases List.mem_append.mp he with he | he
    · exact explains.unnamed e he h' hd n (Shelf.find?_of_erase hn)
    · cases List.mem_singleton.mp he
      cases hd
      replace hn := (Catalog.find?_erase n).symm.trans hn
      split at hn
      · cases hn
      · next hne => exact hne (t.shelf.apart n name h hn found)
  case holding =>
    intro i h' holds
    replace holds := (holding_of_answer holds).1
    rcases explains.holding i h' holds with ⟨e, he, hd, opens⟩ | ⟨name', q, asks', found'⟩
    · exact Or.inl ⟨e, List.mem_append_left _ he, hd, opens.concat k⟩
    · -- Whoever found the session by its name holds, from now on, one that was removed after they had begun.
      by_cases hn : name' = name
      · subst hn
        cases found.symm.trans found'
        refine Or.inl ⟨_, List.mem_append_right _ (List.mem_singleton_self _), rfl, opens_last ?_ ?_⟩
        · by_contra hpast
          cases holds.symm.trans ((explains.begun i).mpr hpast)
        · exact (explains.begun k).mp waits
      · exact Or.inr ⟨name', q, asks', ((Catalog.find?_erase name').trans (if_neg hn)).trans found'⟩

/-- A request finds its session. Nobody can tell. -/
theorem step_finds (explains : Explains requests r past t log) (waits : t.progress k = .waiting)
    (asks : (requests k).action = .query name q) (found : t.shelf.handles.find? name = some h) :
    Explains requests r (past ++ [k]) (t.hold k h) log := by
  have effect := Effect.finds waits asks found
  refine ⟨?replays, ?ordered, ?complete, explains.begun_step effect, explains.unnamed, ?holding⟩
  case replays =>
    refine explains.replays.keep fun e he => ⟨?_, fun _ _ => rfl, fun h' hd i holds => ?_⟩
    · exact effect.progress_of_ne (explains.logged_ne he effect.not_answered)
    · rcases holding_of_hold holds with ⟨-, rfl⟩ | holds
      -- A session that the log drops has no name, so it is not the one that was found.
      · exact absurd found (explains.unnamed e he _ hd name)
      · exact holds
  case ordered => exact explains.ordered.imp fun hab => hab.concat k
  case complete => exact fun i answered => explains.complete i (answered_of_hold answered)
  case holding =>
    intro i h' holds
    rcases holding_of_hold holds with ⟨rfl, rfl⟩ | holds
    · exact Or.inr ⟨name, q, asks, found⟩
    · refine (explains.holding i h' holds).imp_left ?_
      rintro ⟨e, he, hd, opens⟩
      exact ⟨e, he, hd, opens.concat k⟩

/-- A request is run on a session that was removed after it was found. -/
theorem step_late (explains : Explains requests r past t (before ++ d :: after)) (hd : d.dropped = some h)
    (opens : Opens past k d.request) (holds : t.progress k = .holding h)
    (asks : (requests k).action = .query name q) (found : t.shelf.sessions[h]? = some s) :
    Explains requests r (past ++ [k]) (t.answer requests k (q.run s).1 (t.shelf.put h (q.run s).2))
      (before ++ ⟨k, none⟩ :: d :: after) := by
  have effect := Effect.runs holds asks found
  have hmem : d ∈ before ++ d :: after := List.mem_append_right _ List.mem_cons_self
  have nameless : ∀ name, t.shelf.handles.find? name ≠ some h := explains.unnamed d hmem h hd
  obtain ⟨-, hafter, hacross⟩ := List.pairwise_append.mp explains.ordered
  obtain ⟨hfirst, -⟩ := List.pairwise_cons.mp hafter
  refine ⟨?replays, ?ordered, explains.complete_step effect, explains.begun_step effect, ?unnamed, ?holding⟩
  case replays =>
    show Replays requests _ r _ (t.shelf.put h (q.run s).2).registry
    rw [Shelf.registry_put_of_unnamed nameless]
    refine explains.replays.insert hd (fun e he he' => ?_) holds asks found
    rcases List.mem_append.mp he with he | he
    · exact (hacross e he d List.mem_cons_self).apart h he' hd
    · exact (hfirst e he).apart h hd he'
  case ordered =>
    -- Whoever ended before the query began also ended before the removal, which began later.
    refine explains.ordered_step effect (by rintro _ _ _ _ ⟨⟩) fun b hb hp => ?_
    rcases List.mem_cons.mp hb with rfl | hb
    · exact not_precedes_self (explains.logged_begun hmem) (opens.precedes hp)
    · exact (hfirst b hb).timely (opens.precedes hp)
  case unnamed =>
    intro e he h' hd'
    rcases List.mem_append.mp he with he | he
    · exact explains.unnamed e (List.mem_append_left _ he) h' hd'
    · rcases List.mem_cons.mp he with rfl | he
      · cases hd'
      · exact explains.unnamed e (List.mem_append_right _ he) h' hd'
  case holding =>
    intro i h' holds'
    rcases explains.holding i h' (holding_of_answer holds').1 with ⟨e, he, hd', opens'⟩ | named
    · refine Or.inl ⟨e, ?_, hd', opens'.concat k⟩
      rcases List.mem_append.mp he with he | he
      · exact List.mem_append_left _ he
      · exact List.mem_append_right _ (List.mem_cons_of_mem _ he)
    · exact Or.inr named

/-- Every step can be told by a log. -/
theorem step (explains : Explains requests r past t log) (effect : Effect requests t k t') :
    ∃ log', Explains requests r (past ++ [k]) t' log' := by
  cases effect with
  | atOnce waits run keeps => exact ⟨_, explains.step_alone (.atOnce waits run keeps) run keeps⟩
  | removes waits asks found => exact ⟨_, explains.step_removes waits asks found⟩
  | finds waits asks found => exact ⟨_, explains.step_finds waits asks found⟩
  | @runs name q h s holds asks found =>
    -- The session was removed since it was found, or its name still leads to it.
    rcases explains.holding k h holds with ⟨d, hd, dropped, opens⟩ | ⟨name', q', asks', named⟩
    · obtain ⟨before, after, rfl⟩ := List.append_of_mem hd
      exact ⟨_, explains.step_late dropped opens holds asks found⟩
    · cases asks.symm.trans asks'
      obtain ⟨s', there, known⟩ := Shelf.find?_registry_of_some named
      cases found.symm.trans there
      refine ⟨_, explains.step_alone (.runs holds asks found) ?_ (Shelf.keeps_put named)⟩
      rw [asks, Action.run_query_of_known q known, Shelf.registry_put named]

/-- Every run can be told by a log. -/
theorem of_run (r : Registry) {schedule : List ι} (h : (Traffic.start r).run requests schedule = some t) :
    ∃ log, Explains requests r schedule t log := by
  induction schedule using List.reverseRecOn generalizing t with
  | nil =>
    cases h
    exact ⟨[], start r⟩
  | append_singleton past k ih =>
    rw [run_concat] at h
    obtain ⟨t₀, h₀, taken⟩ := Option.bind_eq_some_iff.mp h
    obtain ⟨log, explains⟩ := ih h₀
    exact explains.step (effect_of_step taken)

/-- A request that is not answered can go on. -/
theorem exists_step (explains : Explains requests r past t log) (pending : ¬ t.Answered i)
    (asks : (requests i).action ≠ .list) : ∃ t', t.step requests i = some t' := by
  unfold Traffic.step
  split
  · split
    · exact ⟨_, rfl⟩
    · exact absurd ‹_› asks
    · split <;> exact ⟨_, rfl⟩
    · split <;> exact ⟨_, rfl⟩
    · split <;> exact ⟨_, rfl⟩
  · next holds =>
    obtain ⟨name, q, s, asks, there⟩ := explains.held holds
    rw [asks, there]
    exact ⟨_, rfl⟩
  · next answered => exact absurd ⟨_, answered⟩ pending

end Explains

end

/-! ### Every run is linearizable -/

/-- One after the other, the answered requests get the same responses and end in the same registry. One whose
steps all come before those of another is not put after it. -/
structure Linearizes {ι : Type} (requests : ι → Request) (r : Registry) (schedule : List ι) (t : Traffic ι)
    (order : List ι) : Prop where
  distinct : order.Nodup
  complete : ∀ i, i ∈ order ↔ t.Answered i
  timely : order.Pairwise fun a b => ¬ Precedes schedule b a
  responses : (r.handleAll (order.map requests)).1.map .answered = order.map t.progress
  registry : (r.handleAll (order.map requests)).2 = t.shelf.registry

theorem Explains.linearizes {ι : Type} {requests : ι → Request} {r : Registry} {schedule : List ι} {t : Traffic ι}
    {log : List (Entry ι)} (explains : Explains requests r schedule t log) :
    Linearizes requests r schedule t (log.map (·.request)) where
  distinct := List.pairwise_map.mpr (explains.ordered.imp Entry.Before.distinct)
  complete i := by
    constructor
    · intro hi
      obtain ⟨e, he, rfl⟩ := List.mem_map.mp hi
      exact explains.replays.answered he
    · exact fun answered => List.mem_map.mpr (explains.complete i answered)
  timely := List.pairwise_map.mpr (explains.ordered.imp Entry.Before.timely)
  responses := by
    rw [List.map_map, List.map_map]
    exact explains.replays.handleAll.1
  registry := by
    rw [List.map_map]
    exact explains.replays.handleAll.2

namespace Traffic

/-- However the steps of requests are interleaved, there is a sequential order of the requests that respects real
time, gives each the same response and ends in the same registry. And none is ever stuck. -/
theorem run_linearizable {ι : Type} [DecidableEq ι] (requests : ι → Request) (r : Registry) {schedule : List ι}
    {t : Traffic ι} (h : (start r).run requests schedule = some t) :
    (∃ order, Linearizes requests r schedule t order) ∧
      ∀ i, (requests i).action ≠ .list → ¬ t.Answered i → ∃ t', t.step requests i = some t' := by
  obtain ⟨log, explains⟩ := Explains.of_run r h
  exact ⟨⟨_, explains.linearizes⟩, fun i asks pending => explains.exists_step pending asks⟩

/-- A click on a session, its removal, and the creation of another session with its name. -/
def lateClick : Fin 3 → Request
  | 0 => { method := .post, target := "/sessions/demo/selection/line", contentType := some "application/json",
           body := "\x7b\"line\":5\x7d" }
  | 1 => { method := .delete, target := "/sessions/demo" }
  | 2 => { method := .post, target := "/sessions", contentType := some "application/json",
           body := "\x7b\"name\":\"demo\",\"graph\":\x7b\"nodes\":[],\"edges\":[]\x7d\x7d" }

/-- The click finds the session before it is removed, and is run when its name belongs to another one. -/
theorem late_click_linearizable : ∃ t, (start (Registry.start true)).run lateClick [0, 1, 2, 0] = some t ∧
    (∀ i, t.Answered i) ∧ ∃ order, Linearizes lateClick (Registry.start true) [0, 1, 2, 0] t order := by
  have runs : ((start (Registry.start true)).run lateClick [0, 1, 2, 0]).any fun t => ∀ i, t.Answered i := by
    decide +kernel
  obtain ⟨t, h, answered⟩ := (Option.any_eq_true _ _).mp runs
  exact ⟨t, h, of_decide_eq_true answered, (run_linearizable lateClick _ h).1⟩

end Traffic

end CipherGraph
