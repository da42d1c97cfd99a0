import CipherGraph.Proofs.Selection.Move

/-! # What observers are told

The notices of a run are those of its moves, one after the other. An observer is told of the line and of the program
when it is added, and from then on of whatever a move tells to all observers. So an observer is never behind: what it
heard last is what the selection has. The other way round, nothing but the list of observers depends on who observes. -/

namespace CipherGraph

def Move.observer? : Move → Option Observer
  | .observe o => some o
  | _ => none

theorem Move.observer?_eq_some_iff {m : Move} {o : Observer} : m.observer? = some o ↔ m = .observe o := by
  cases m <;> simp [observer?]

/-- What an observer that goes by this name is told. -/
def heardBy (name : Nat) (notices : List Notice) : List Callback :=
  (notices.filter (·.observer = name)).map (·.callback)

namespace Callback

def line? : Callback → Option Int64
  | .line l => some l
  | .program .. => none

def program? : Callback → Option (Option Rendering × NodeSet)
  | .line _ => none
  | .program rendered selected => some (rendered, selected)

end Callback

/-! ### Delivery -/

section Delivery
variable {name : Nat} {o : Observer} {os : List Observer}

theorem Callback.deliver_cons (c : Callback) (o : Observer) (os : List Observer) :
    c.deliver (o :: os) = c.deliver [o] ++ c.deliver os := by
  unfold deliver
  rw [← List.map_append, ← List.filter_append]
  rfl

theorem heardBy_append (name : Nat) (ns ms : List Notice) :
    heardBy name (ns ++ ms) = heardBy name ns ++ heardBy name ms := by
  simp [heardBy]

theorem heardBy_deliver_self (c : Callback) (o : Observer) : heardBy o.name (c.deliver [o]) = [c].filter o.hears := by
  unfold Callback.deliver heardBy
  cases h : o.hears c <;> simp [h]

theorem heardBy_deliver_of_stranger (c : Callback) (stranger : name ∉ os.map Observer.name) :
    heardBy name (c.deliver os) = [] := by
  unfold heardBy Callback.deliver
  rw [List.map_eq_nil_iff, List.filter_eq_nil_iff]
  intro n hn same
  obtain ⟨o, ho, rfl⟩ := List.mem_map.mp hn
  exact stranger (List.mem_map.mpr ⟨o, (List.mem_filter.mp ho).1, of_decide_eq_true same⟩)

/-- Every observer is told a callback once, if it hears such callbacks. -/
theorem heardBy_deliver (c : Callback) (distinct : (os.map Observer.name).Nodup) (h : o ∈ os) :
    heardBy o.name (c.deliver os) = [c].filter o.hears := by
  induction os with
  | nil => cases h
  | cons first os ih =>
    obtain ⟨new, distinct⟩ := List.nodup_cons.mp distinct
    rw [Callback.deliver_cons, heardBy_append]
    rcases List.mem_cons.mp h with rfl | h
    · rw [heardBy_deliver_self, heardBy_deliver_of_stranger c new, List.append_nil]
    · have other : o.name ∉ [first].map Observer.name := fun same =>
        new (List.mem_singleton.mp same ▸ List.mem_map_of_mem h)
      rw [heardBy_deliver_of_stranger c other, ih distinct h, List.nil_append]

theorem heardBy_flatMap_deliver (cs : List Callback) (distinct : (os.map Observer.name).Nodup) (h : o ∈ os) :
    heardBy o.name (cs.flatMap (·.deliver os)) = cs.filter o.hears := by
  induction cs with
  | nil => rfl
  | cons c cs ih =>
    rw [List.flatMap_cons, heardBy_append, heardBy_deliver c distinct h, ih, ← List.filter_append]
    rfl

theorem heardBy_flatMap_deliver_of_stranger (cs : List Callback) (stranger : name ∉ os.map Observer.name) :
    heardBy name (cs.flatMap (·.deliver os)) = [] := by
  induction cs with
  | nil => rfl
  | cons c cs ih => rw [List.flatMap_cons, heardBy_append, heardBy_deliver_of_stranger c stranger, ih, List.nil_append]

end Delivery

namespace Selection
open Callback
variable {μ : Type} {s : Selection μ} {name : Nat} {o : Observer} {moves : List Move}

/-- The observers go by different names, by which notices tell them apart. -/
def Named (s : Selection μ) : Prop :=
  (s.observers.map Observer.name).Nodup

instance (s : Selection μ) : Decidable s.Named :=
  inferInstanceAs (Decidable (List.Nodup _))

/-- What an observer heard last of the line and of the program is what the selection has. -/
structure UpToDate (s : Selection μ) (o : Observer) (heard : List Callback) : Prop where
  line : o.hearsLines = true → (heard.filterMap line?).getLast? = some s.line
  program : o.hearsPrograms = true → (heard.filterMap program?).getLast? = some (s.rendered, s.selected)

/-- The selection without its observers. -/
def unobserved (s : Selection μ) : Selection μ :=
  { s with observers := [] }

theorem unobserved_display (s : Selection μ) (p : Program) : (s.display p).unobserved = s.unobserved.display p := by
  rw [display_eq, display_eq]
  rfl

variable [LineMap μ]

/-! ### Notices of a run -/

/-- The notices that a move gives. -/
def notices (s : Selection μ) : Move → List Notice
  | .click line => (s.click line).2
  | .begin line => (s.begin line).2.2
  | .complete ticket p => (s.complete ticket p).2.2
  | .select ids => (s.select ids).2
  | .observe o => (s.observe o).2

def noticesAll (s : Selection μ) : List Move → List Notice
  | [] => []
  | m :: moves => s.notices m ++ (s.after m).noticesAll moves

/-- What a move tells every observer that was added before. -/
def callbacks (s : Selection μ) (m : Move) : List Callback :=
  match m with
  | .click _ => [(s.after m).lineCallback, (s.after m).programCallback]
  | .begin _ => [(s.after m).lineCallback]
  | .complete ticket p => if (s.complete ticket p).1 then [(s.after m).programCallback] else []
  | .select _ => [(s.after m).programCallback]
  | .observe _ => []

def callbacksAll (s : Selection μ) : List Move → List Callback
  | [] => []
  | m :: moves => s.callbacks m ++ (s.after m).callbacksAll moves

theorem noticesAll_append (s : Selection μ) (moves rest : List Move) :
    s.noticesAll (moves ++ rest) = s.noticesAll moves ++ (s.afterAll moves).noticesAll rest := by
  induction moves generalizing s with
  | nil => rfl
  | cons m moves ih =>
    show s.notices m ++ (s.after m).noticesAll (moves ++ rest) = _
    rw [ih, ← List.append_assoc]
    rfl

/-- A click tells of the line, and then of the program. -/
theorem click_snd (line : Int64) :
    (s.click line).2 = (s.begin line).2.2 ++ (s.after (.click line)).programNotices := by
  rw [after, click_fst]
  exact congrArg ((s.begin line).2.2 ++ ·.2) (complete_of_accepted (complete_begin (s := s) line (s.resolve line)))

/-- A completion shows its program and tells of it, or it does nothing. -/
theorem complete_cases (s : Selection μ) (ticket : Ticket) (p : Program) :
    let m := Move.complete ticket p
    (s.after m = s.display p ∧ s.callbacks m = [(s.display p).programCallback] ∧
      s.notices m = (s.display p).programNotices) ∨ s.after m = s ∧ s.callbacks m = [] ∧ s.notices m = [] := by
  simp only [after, callbacks, notices]
  cases accepted : (s.complete ticket p).1
  · rw [complete_of_refused accepted]
    exact Or.inr ⟨rfl, rfl, rfl⟩
  · rw [complete_of_accepted accepted]
    exact Or.inl ⟨rfl, rfl, rfl⟩

/-- A move that adds no observer tells the same to all of them. -/
theorem notices_eq {m : Move} (h : m.observer? = none) :
    s.notices m = (s.callbacks m).flatMap (·.deliver s.observers) := by
  cases m with
  | click line =>
    rw [notices, click_snd, after, click_fst, display_eq]
    simp only [callbacks, after, click_fst, display_eq, List.flatMap_cons, List.flatMap_nil, List.append_nil]
    rfl
  | begin line => exact (List.append_nil _).symm
  | complete ticket p =>
    obtain ⟨-, told, given⟩ | ⟨-, told, given⟩ := s.complete_cases ticket p
    · rw [told, given, display_eq]
      exact (List.append_nil _).symm
    · rw [told, given]
      rfl
  | select ids => exact (List.append_nil _).symm
  | observe o => cases h

theorem notices_observe (o : Observer) :
    s.notices (.observe o) = [s.lineCallback, s.programCallback].flatMap (·.deliver [o]) := by
  simp only [List.flatMap_cons, List.flatMap_nil, List.append_nil]
  rfl

/-! ### Observers of a run -/

theorem observers_after (m : Move) : (s.after m).observers = s.observers ++ m.observer?.toList := by
  cases m with
  | click line => rw [after, click_fst, display_eq]; exact (List.append_nil _).symm
  | complete ticket p =>
    rcases after_complete (s := s) ticket p with h | h <;> rw [h]
    · exact (List.append_nil _).symm
    · rw [display_eq]
      exact (List.append_nil _).symm
  | observe o => rfl
  | _ => exact (List.append_nil _).symm

theorem observers_afterAll (s : Selection μ) (moves : List Move) :
    (s.afterAll moves).observers = s.observers ++ moves.filterMap Move.observer? := by
  induction moves generalizing s with
  | nil => exact (List.append_nil _).symm
  | cons m moves ih =>
    show ((s.after m).afterAll moves).observers = _
    rw [ih, observers_after, List.append_assoc]
    cases h : m.observer? <;> simp [h]

theorem mem_observers_after (h : o ∈ s.observers) (m : Move) : o ∈ (s.after m).observers := by
  rw [observers_after]
  exact List.mem_append_left _ h

theorem Named.of_afterAll (named : (s.afterAll moves).Named) : s.Named := by
  unfold Named at named
  rw [observers_afterAll, List.map_append] at named
  exact (List.nodup_append.mp named).1

/-- An observer goes by another name than those that were added before. -/
theorem Named.stranger (named : (s.after (.observe o)).Named) : o.name ∉ s.observers.map Observer.name := by
  unfold Named at named
  rw [observers_after, List.map_append, List.nodup_append] at named
  exact fun known => named.2.2 _ known _ (List.mem_singleton.mpr rfl) rfl

theorem heardBy_notices {m : Move} (named : (s.after m).Named) (h : o ∈ s.observers) :
    heardBy o.name (s.notices m) = (s.callbacks m).filter o.hears := by
  cases hm : m.observer? with
  | none =>
    have later : (s.afterAll [m]).Named := named
    rw [notices_eq hm, heardBy_flatMap_deliver _ later.of_afterAll h]
  | some new =>
    -- Only the observer that is added is told something.
    obtain rfl := Move.observer?_eq_some_iff.mp hm
    have other : o.name ∉ [new].map Observer.name := fun same =>
      named.stranger (List.mem_singleton.mp same ▸ List.mem_map_of_mem h)
    rw [notices_observe, heardBy_flatMap_deliver_of_stranger _ other]
    rfl

theorem heardBy_notices_of_stranger {m : Move} (stranger : name ∉ (s.after m).observers.map Observer.name) :
    heardBy name (s.notices m) = [] := by
  rw [observers_after, List.map_append, List.mem_append, not_or] at stranger
  cases hm : m.observer? with
  | none => rw [notices_eq hm, heardBy_flatMap_deliver_of_stranger _ stranger.1]
  | some new =>
    obtain rfl := Move.observer?_eq_some_iff.mp hm
    rw [notices_observe]
    exact heardBy_flatMap_deliver_of_stranger _ stranger.2

/-- In a run, an observer that was added before it is told what the moves tell. -/
theorem heardBy_noticesAll (named : (s.afterAll moves).Named) (h : o ∈ s.observers) :
    heardBy o.name (s.noticesAll moves) = (s.callbacksAll moves).filter o.hears := by
  induction moves generalizing s with
  | nil => rfl
  | cons m moves ih =>
    have named : ((s.after m).afterAll moves).Named := named
    rw [noticesAll, heardBy_append, heardBy_notices named.of_afterAll h, ih named (mem_observers_after h m),
      ← List.filter_append]
    rfl

theorem heardBy_noticesAll_of_stranger (stranger : name ∉ (s.afterAll moves).observers.map Observer.name) :
    heardBy name (s.noticesAll moves) = [] := by
  induction moves generalizing s with
  | nil => rfl
  | cons m moves ih =>
    have later : name ∉ ((s.after m).afterAll moves).observers.map Observer.name := stranger
    have now : name ∉ (s.after m).observers.map Observer.name := by
      rw [observers_afterAll, List.map_append, List.mem_append, not_or] at later
      exact later.1
    rw [noticesAll, heardBy_append, heardBy_notices_of_stranger now, ih later, List.nil_append]

/-- An observer that is added in the course of a run is told of the line and of the program, and then of what the
moves tell. -/
theorem heardBy_of_added {before rest : List Move} (named : (s.afterAll (before ++ .observe o :: rest)).Named) :
    heardBy o.name (s.noticesAll (before ++ .observe o :: rest)) =
      ([(s.afterAll before).lineCallback, (s.afterAll before).programCallback] ++
        ((s.afterAll before).after (.observe o)).callbacksAll rest).filter o.hears := by
  rw [afterAll_append] at named
  have later : (((s.afterAll before).after (.observe o)).afterAll rest).Named := named
  have stranger : o.name ∉ (s.afterAll before).observers.map Observer.name := later.of_afterAll.stranger
  have alone : ([o].map Observer.name).Nodup := by simp
  have added : o ∈ ((s.afterAll before).after (.observe o)).observers := by
    rw [observers_after]
    exact List.mem_append_right _ (List.mem_singleton.mpr rfl)
  rw [noticesAll_append, noticesAll, heardBy_append, heardBy_append, heardBy_noticesAll_of_stranger stranger,
    notices_observe, heardBy_flatMap_deliver _ alone (List.mem_singleton.mpr rfl),
    heardBy_noticesAll later added, List.nil_append, ← List.filter_append]

/-! ### Being up to date -/

/-- An observer misses nothing of the callbacks that it hears. -/
theorem filterMap_filter_hears {α : Type} {f : Callback → Option α} (h : ∀ c a, f c = some a → o.hears c = true)
    (cs : List Callback) : (cs.filter o.hears).filterMap f = cs.filterMap f := by
  rw [List.filterMap_filter]
  refine congrArg (List.filterMap · cs) (funext fun c => ?_)
  cases hf : f c with
  | none => exact ite_self _
  | some a => exact if_pos (h c a hf)

theorem hears_of_line? (hears : o.hearsLines = true) (c : Callback) (line : Int64) (h : c.line? = some line) :
    o.hears c = true := by
  cases c with
  | line l => exact hears
  | program rendered selected => cases h

theorem hears_of_program? (hears : o.hearsPrograms = true) (c : Callback) (shown : Option Rendering × NodeSet)
    (h : c.program? = some shown) : o.hears c = true := by
  cases c with
  | line l => cases h
  | program rendered selected => exact hears

/-- The last line that a move tells is the line after it; a move that tells no line leaves it. -/
theorem line_of_callbacks (m : Move) : ((s.callbacks m).filterMap line?).getLast?.getD s.line = (s.after m).line := by
  cases m with
  | complete ticket p =>
    obtain ⟨next, told, -⟩ | ⟨next, told, -⟩ := s.complete_cases ticket p <;> rw [next, told]
    · rw [display_eq]
      rfl
    · rfl
  | _ => rfl

theorem program_of_callbacks (m : Move) :
    ((s.callbacks m).filterMap program?).getLast?.getD (s.rendered, s.selected) =
      ((s.after m).rendered, (s.after m).selected) := by
  cases m with
  | complete ticket p =>
    obtain ⟨next, told, -⟩ | ⟨next, told, -⟩ := s.complete_cases ticket p <;> rw [next, told] <;> rfl
  | _ => rfl

theorem upToDate_after_observe (o : Observer) :
    (s.after (.observe o)).UpToDate o ([s.lineCallback, s.programCallback].filter o.hears) where
  line h := by
    rw [filterMap_filter_hears (hears_of_line? h)]
    rfl
  program h := by
    rw [filterMap_filter_hears (hears_of_program? h)]
    rfl

theorem UpToDate.after {heard : List Callback} (h : s.UpToDate o heard) (m : Move) :
    (s.after m).UpToDate o (heard ++ (s.callbacks m).filter o.hears) where
  line hears := by
    rw [List.filterMap_append, List.getLast?_append, h.line hears, filterMap_filter_hears (hears_of_line? hears),
      Option.or_some, line_of_callbacks]
  program hears := by
    rw [List.filterMap_append, List.getLast?_append, h.program hears, filterMap_filter_hears (hears_of_program? hears),
      Option.or_some, program_of_callbacks]

theorem UpToDate.afterAll {heard : List Callback} (h : s.UpToDate o heard) (moves : List Move) :
    (s.afterAll moves).UpToDate o (heard ++ (s.callbacksAll moves).filter o.hears) := by
  induction moves generalizing s heard with
  | nil => rwa [callbacksAll, List.filter_nil, List.append_nil]
  | cons m moves ih =>
    rw [callbacksAll, List.filter_append, ← List.append_assoc]
    exact ih (h.after m)

/-- Whoever observes at the end of a run was added in the course of it, and is up to date since. -/
theorem upToDate_afterAll (none : s.observers = []) (named : (s.afterAll moves).Named)
    (h : o ∈ (s.afterAll moves).observers) : (s.afterAll moves).UpToDate o (heardBy o.name (s.noticesAll moves)) := by
  rw [observers_afterAll, none, List.nil_append] at h
  obtain ⟨m, hm, ho⟩ := List.mem_filterMap.mp h
  obtain rfl := Move.observer?_eq_some_iff.mp ho
  obtain ⟨before, rest, rfl⟩ := List.append_of_mem hm
  rw [heardBy_of_added named, List.filter_append, afterAll_append]
  exact (upToDate_after_observe o).afterAll rest

/-! ### Runs without observers -/

theorem unobserved_after {m : Move} (h : m.observer? = none) : (s.after m).unobserved = s.unobserved.after m := by
  cases m with
  | click line =>
    rw [Selection.after, Selection.after, click_fst, click_fst]
    exact unobserved_display _ _
  | complete ticket p =>
    by_cases counts : ticket.generation = s.generation
    · have shown : s.unobserved.complete ticket p = _ := if_pos counts
      rw [Selection.after, Selection.after, shown, complete, if_pos counts]
      exact unobserved_display s p
    · have dropped : s.unobserved.complete ticket p = _ := if_neg counts
      rw [Selection.after, Selection.after, dropped, complete, if_neg counts]
  | observe o => cases h
  | _ => rfl

/-- Without the moves that add observers, a run leads to the same states. -/
theorem unobserved_afterAll (s : Selection μ) (moves : List Move) :
    (s.afterAll moves).unobserved = s.unobserved.afterAll (moves.filter (·.observer?.isNone)) := by
  induction moves generalizing s with
  | nil => rfl
  | cons m moves ih =>
    show ((s.after m).afterAll moves).unobserved = _
    rw [ih]
    cases hm : m.observer? with
    | none =>
      rw [unobserved_after hm, List.filter_cons_of_pos (by rw [hm]; rfl)]
      rfl
    | some o =>
      rw [List.filter_cons_of_neg (by simp [hm])]
      obtain rfl := Move.observer?_eq_some_iff.mp hm
      rfl

/-! ### Never behind -/

/-- After every move of a run, every observer was last told what the selection has. An observer is told of the line and
of the program when it is added, and then of exactly what those added before are told. Without the moves that add
observers, the run leads to the same states. -/
theorem observers_never_behind (lineMap : μ) (moves : List Move) (named : ((ofLineMap lineMap).afterAll moves).Named) :
    let start := ofLineMap lineMap
    (∀ before, before <+: moves → ∀ o ∈ (start.afterAll before).observers,
      (start.afterAll before).UpToDate o (heardBy o.name (start.noticesAll before))) ∧
    (∀ before o rest, moves = before ++ .observe o :: rest →
      let s := start.afterAll before
      let t := s.after (.observe o)
      heardBy o.name (start.noticesAll moves) =
        ([s.lineCallback, s.programCallback] ++ t.callbacksAll rest).filter o.hears ∧
      ∀ o' ∈ s.observers,
        heardBy o'.name (s.noticesAll (.observe o :: rest)) = (t.callbacksAll rest).filter o'.hears) ∧
    ∀ before, before <+: moves →
      let s := start.afterAll before
      let alone := start.afterAll (before.filter (·.observer?.isNone))
      alone = s.unobserved ∧ alone.snapshot = s.snapshot := by
  intro start
  have none : start.observers = [] := congrArg observers (ofLineMap_eq lineMap)
  have bare : start.unobserved = start := by
    unfold unobserved
    rw [← none]
  refine ⟨?_, ?_, ?_⟩
  · rintro before ⟨rest, rfl⟩ o ho
    rw [afterAll_append] at named
    exact upToDate_afterAll none named.of_afterAll ho
  · rintro before o rest rfl
    refine ⟨heardBy_of_added named, fun o' ho' => ?_⟩
    rw [afterAll_append] at named
    exact heardBy_noticesAll named ho'
  · intro before _
    have alone := unobserved_afterAll start before
    rw [bare] at alone
    exact ⟨alone.symm, congrArg (fun s => s.snapshot) alone.symm⟩

/-- The third observer comes while a click is completed late, and stays while a program cannot be drawn. -/
theorem late_observer_never_behind :
    let broken : Program := ⟨[.output], [⟨5, 0, .unary⟩]⟩
    let lineMap : Int64 → Program := fun line => if line < 0 then broken else .product
    let start := ofLineMap lineMap
    let before := [.observe { name := 1 }, .observe { name := 2, hearsPrograms := false }, .begin 3]
    let rest := [.select [4], .complete ⟨8, 0⟩ broken, .complete ⟨3, 1⟩ .sample, .observe { name := 4 }, .click (-1)]
    let moves := before ++ .observe { name := 3 } :: rest
    let others := [.begin 3, .select [4], .complete ⟨8, 0⟩ broken, .complete ⟨3, 1⟩ .sample, .click (-1)]
    let s := start.afterAll before
    (start.afterAll moves).Named ∧
      heardBy 3 (start.noticesAll moves) = [.line 3, .program s.rendered []] ++
        heardBy 1 (s.noticesAll (.observe { name := 3 } :: rest)) ∧
      (start.afterAll moves).UpToDate { name := 3 } (heardBy 3 (start.noticesAll moves)) ∧
      (start.afterAll moves).rendered = none ∧
      (start.afterAll others).snapshot = (start.afterAll moves).snapshot := by
  intro broken lineMap start before rest moves others s
  have named : (start.afterAll moves).Named := by decide
  have all (name : Nat) (c : Callback) : ({ name := name } : Observer).hears c = true := by cases c <;> rfl
  obtain ⟨current, added, alone⟩ := observers_never_behind lineMap moves named
  obtain ⟨third, earlier⟩ := added before { name := 3 } rest rfl
  have first := earlier { name := 1 } (by decide)
  rw [List.filter_eq_self.mpr fun c _ => all _ c] at third first
  rw [← first] at third
  exact ⟨named, third, current moves (List.prefix_refl _) { name := 3 } (by decide), by decide,
    (alone moves (List.prefix_refl _)).2⟩

end Selection

end CipherGraph
