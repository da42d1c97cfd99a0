import CipherGraph.Proofs.Selection.Ticket
import Mathlib.Data.List.Induction

/-! # Clicks that are completed later

A run in which every ticket is redeemed, with the program of its line, ends in the same state as the run in
which every click is carried out at once. Between the two runs stands `settle`, which shows the program of
the selected line: the run at once is always one `settle` ahead of the run with tickets (`settle_afterAll`),
and the latter has nothing left to settle once its last ticket was redeemed (`settled_or_pending`). -/

namespace CipherGraph

/-- A move with a click in place of its beginning, and nothing in place of its completion. -/
def Move.direct? : Move → Option Move
  | .begin line => some (.click line)
  | .complete _ _ => none
  | m => some m

namespace Selection
variable {μ : Type} [LineMap μ] {s : Selection μ}

/-- Every completion redeems a ticket issued before it, with the program of the ticket's line. -/
def Faithful (s : Selection μ) (moves : List Move) : Prop :=
  ∀ before ticket p rest, moves = before ++ .complete ticket p :: rest →
    s.Issued before ticket ∧ p = s.resolve ticket.line

/-- Every ticket is redeemed at some time after it was issued. -/
def Redeemed (s : Selection μ) (moves : List Move) : Prop :=
  ∀ before line rest, moves = before ++ .begin line :: rest →
    ∃ p, .complete ((s.afterAll before).begin line).1 p ∈ rest

theorem Faithful.of_append {moves rest : List Move} (h : s.Faithful (moves ++ rest)) : s.Faithful moves := by
  rintro before ticket p after rfl
  exact h before ticket p (after ++ rest) (by simp)

/-- The program of the selected line is shown. -/
def settle (s : Selection μ) : Selection μ :=
  s.display (s.resolve s.line)

theorem settle_eq (s : Selection μ) :
    let p := s.resolve s.line
    s.settle = { s with program := p, rendered := p.view.toOption, error := p.obstacle? } :=
  display_eq _ _

theorem settle_settle (s : Selection μ) : s.settle.settle = s.settle := by
  rw [settle_eq, settle_eq]
  rfl

theorem settle_ofLineMap (lineMap : μ) : (ofLineMap lineMap).settle = ofLineMap lineMap := by
  rw [ofLineMap_eq]
  exact settle_eq _

/-- A click shows the program of its line. -/
theorem click_eq_settle (s : Selection μ) (line : Int64) : (s.click line).1 = (s.begin line).2.1.settle :=
  click_fst line

/-- What a move does at once, it also does before the program of the selected line is shown. -/
theorem settle_after {m direct : Move} (h : m.direct? = some direct) :
    (s.after m).settle = s.settle.after direct := by
  have begun (line : Int64) : (s.begin line).2.1.settle = (s.settle.begin line).2.1.settle := by
    rw [settle_eq s, settle_eq, settle_eq]
    rfl
  cases m with
  | click line =>
    cases h
    rw [after, after, click_eq_settle, click_eq_settle, settle_settle, begun]
  | begin line =>
    cases h
    rw [after, after, click_eq_settle, begun]
  | complete ticket p => cases h
  | select ids =>
    cases h
    rw [settle_eq, settle_eq]
    rfl
  | observe o =>
    cases h
    rw [settle_eq, settle_eq]
    rfl

/-- An accepted completion shows the program of the selected line. -/
theorem complete_faithful {moves : List Move} {ticket : Ticket} {p : Program} (few : clicks moves < UInt64.size)
    (faithful : s.Faithful (moves ++ [.complete ticket p]))
    (h : ((s.afterAll moves).complete ticket p).1 = true) :
    s.afterAll (moves ++ [.complete ticket p]) = (s.afterAll moves).settle := by
  obtain ⟨issued, rfl⟩ := faithful moves ticket p [] rfl
  rw [afterAll_concat]
  show ((s.afterAll moves).complete ticket (s.resolve ticket.line)).2.1 = _
  rw [complete_of_accepted h, settle, resolve_afterAll, line_of_accepted few issued h]

theorem complete_refused {moves : List Move} {ticket : Ticket} {p : Program}
    (h : ((s.afterAll moves).complete ticket p).1 = false) :
    s.afterAll (moves ++ [.complete ticket p]) = s.afterAll moves := by
  rw [afterAll_concat]
  exact congrArg Prod.fst (complete_of_refused h)

/-- The run in which clicks are carried out at once is one `settle` ahead of the run with tickets. -/
theorem settle_afterAll {moves : List Move} (few : clicks moves < UInt64.size) (faithful : s.Faithful moves)
    (settled : s.settle = s) : (s.afterAll moves).settle = s.afterAll (moves.filterMap Move.direct?) := by
  -- From the back, since whether a ticket counts depends on all moves before its completion.
  induction moves using List.reverseRecOn with
  | nil => exact settled
  | append_singleton moves m ih =>
    have few' := clicks_lt_of_append few
    rw [List.filterMap_append, afterAll_append s (List.filterMap _ _), ← ih few' faithful.of_append]
    cases hd : m.direct? with
    | some direct =>
      rw [afterAll_concat, List.filterMap_cons_some hd]
      exact settle_after hd
    | none =>
      rw [List.filterMap_cons_none hd]
      -- Only a completion has nothing in its place: it settles the state or leaves it.
      cases m with
      | complete ticket p =>
        cases h : ((s.afterAll moves).complete ticket p).1
        · rw [complete_refused h]
          rfl
        · rw [complete_faithful few' faithful h]
          exact settle_settle _
      | _ => cases hd

/-- The last click was only begun, and its ticket was not redeemed since. -/
def Pending (s : Selection μ) (moves : List Move) : Prop :=
  ∃ before line rest, moves = before ++ .begin line :: rest ∧
    ∀ m ∈ rest, m.starts = false ∧ ∀ p, m ≠ .complete ((s.afterAll before).begin line).1 p

/-- A pending click stays so while no click begins and no completion is accepted. -/
theorem Pending.concat {moves : List Move} {m : Move} (few : clicks moves < UInt64.size) (h : s.Pending moves)
    (quiet : m.starts = false)
    (refused : ∀ ticket p, m = .complete ticket p → ((s.afterAll moves).complete ticket p).1 = false) :
    s.Pending (moves ++ [m]) := by
  obtain ⟨before, line, rest, rfl, unredeemed⟩ := h
  refine ⟨before, line, rest ++ [m], by simp, fun m' hm => ?_⟩
  rcases List.mem_append.mp hm with hm | hm
  · exact unredeemed m' hm
  · obtain rfl := List.mem_singleton.mp hm
    refine ⟨quiet, fun p hp => ?_⟩
    have few' := clicks_lt_of_begin few
    have accepted := (complete_issued_iff s before line few' p).mpr fun m hm => (unredeemed m hm).1
    rw [refused _ p hp] at accepted
    cases accepted

/-- Nothing is left to settle unless a click is pending. -/
theorem settled_or_pending {moves : List Move} (few : clicks moves < UInt64.size) (faithful : s.Faithful moves)
    (settled : s.settle = s) : (s.afterAll moves).settle = s.afterAll moves ∨ s.Pending moves := by
  induction moves using List.reverseRecOn with
  | nil => exact Or.inl settled
  | append_singleton moves m ih =>
    have few' := clicks_lt_of_append few
    have ih := ih few' faithful.of_append
    cases m with
    | click line =>
      left
      rw [afterAll_concat, after, click_eq_settle]
      exact settle_settle _
    | begin line => exact Or.inr ⟨moves, line, [], rfl, fun _ hm => by cases hm⟩
    | complete ticket p =>
      cases h : ((s.afterAll moves).complete ticket p).1
      · refine ih.imp (fun ih => ?_) fun ih => ih.concat few' rfl fun _ _ hm => by cases hm; exact h
        rw [complete_refused h]
        exact ih
      · left
        rw [complete_faithful few' faithful h]
        exact settle_settle _
    | select ids =>
      refine ih.imp (fun ih => ?_) fun ih => ih.concat few' rfl fun _ _ hm => by cases hm
      rw [afterAll_concat, settle_after rfl, ih]
    | observe o =>
      refine ih.imp (fun ih => ?_) fun ih => ih.concat few' rfl fun _ _ hm => by cases hm
      rw [afterAll_concat, settle_after rfl, ih]

/-- A run of fewer than `2 ^ 64` clicks in which every ticket is redeemed, in whatever order and however often,
ends in the state of the run in which every click is carried out where it was begun. -/
theorem afterAll_eq_direct (lineMap : μ) (moves : List Move) (few : clicks moves < UInt64.size)
    (faithful : (ofLineMap lineMap).Faithful moves) (redeemed : (ofLineMap lineMap).Redeemed moves) :
    (ofLineMap lineMap).afterAll moves = (ofLineMap lineMap).afterAll (moves.filterMap Move.direct?) := by
  have settled := settle_ofLineMap lineMap
  rw [← settle_afterAll few faithful settled]
  rcases settled_or_pending few faithful settled with h | ⟨before, line, rest, rfl, unredeemed⟩
  · exact h.symm
  · obtain ⟨p, hp⟩ := redeemed before line rest rfl
    exact absurd rfl ((unredeemed _ hp).2 p)

/-- A run with two clicks that overlap, the ticket of the second redeemed first and twice. -/
theorem overlapping_clicks_eq_direct :
    let start := ofLineMap ProgramTable.demo
    let moves := [.begin 1, .begin 5, .complete ⟨5, 2⟩ .sample, .select [4], .complete ⟨1, 1⟩ .product,
      .complete ⟨5, 2⟩ .sample]
    clicks moves < UInt64.size ∧ start.Faithful moves ∧ start.Redeemed moves ∧
      start.afterAll moves = start.afterAll [.click 1, .click 5, .select [4]] := by
  intro start moves
  have few : clicks moves < UInt64.size := by decide
  have first : ∀ rest, start.Issued (.begin 1 :: .begin 5 :: rest) ⟨1, 1⟩ := fun rest => ⟨[], 1, _, rfl, rfl⟩
  have second : ∀ rest, start.Issued (.begin 1 :: .begin 5 :: rest) ⟨5, 2⟩ := fun rest => ⟨[.begin 1], 5, _, rfl, rfl⟩
  have faithful : start.Faithful moves := by
    intro before ticket p rest h
    simp only [moves, List.cons_eq_append_iff, List.nil_eq, List.append_eq_nil_iff, List.cons.injEq, reduceCtorEq,
      Move.complete.injEq, exists_const, or_false, false_or, and_false, false_and, true_and, ↓existsAndEq] at h
    obtain ⟨_, rfl, ⟨rfl, ⟨rfl, rfl⟩, -⟩ | ⟨_, rfl, ⟨rfl, ⟨rfl, rfl⟩, -⟩ | ⟨rfl, ⟨rfl, rfl⟩, -⟩⟩⟩ := h
    · exact ⟨second _, rfl⟩
    · exact ⟨first _, rfl⟩
    · exact ⟨second _, rfl⟩
  have redeemed : start.Redeemed moves := by
    intro before line rest h
    simp only [moves, List.cons_eq_append_iff, List.nil_eq, List.append_eq_nil_iff, List.cons.injEq, reduceCtorEq,
      Move.begin.injEq, exists_const, or_false, or_self, and_false, false_and, true_and, ↓existsAndEq] at h
    rcases h with ⟨rfl, rfl, rfl⟩ | ⟨rfl, rfl, rfl⟩
    · exact ⟨.product, List.mem_of_getElem? (i := 3) rfl⟩
    · exact ⟨.sample, List.mem_cons_self⟩
  exact ⟨few, faithful, redeemed, afterAll_eq_direct ProgramTable.demo moves few faithful redeemed⟩

end Selection

end CipherGraph
