import CipherGraph.Selection.Basic

/-! # Runs of a selection

What the clients of a selection can do, and the state that a sequence of such moves leads to. A click counts
from the moment it is begun, whether or not it is ever completed. -/

namespace CipherGraph

/-- What can be done with a selection. -/
inductive Move where
  | click (line : Int64)
  | begin (line : Int64)
  | complete (ticket : Ticket) (program : Program)
  | select (ids : List NodeId)
  | observe (observer : Observer)
  deriving DecidableEq, Repr

/-- Whether a move begins a click. -/
def Move.starts : Move → Bool
  | .click _ => true
  | .begin _ => true
  | _ => false

/-- The number of clicks that some moves begin. -/
def clicks (moves : List Move) : Nat :=
  moves.countP (·.starts)

/-- Why a program is not drawn, as it is told. -/
def Program.obstacle? (p : Program) : Option String :=
  match p.view with
  | .ok _ => none
  | .error e => some e.message

namespace Selection
variable {μ : Type} {s : Selection μ}

/-! ### Displaying -/

/-- Whatever was shown before, it is replaced by what is to be shown of the program. The rest of the state is left. -/
theorem display_eq (s : Selection μ) (p : Program) :
    s.display p = { s with program := p, rendered := p.view.toOption, error := p.obstacle? } := by
  unfold display Program.obstacle?
  cases p.view <;> rfl

theorem ofLineMap_eq [LineMap μ] (lineMap : μ) :
    let p := LineMap.resolve lineMap defaultLine
    ofLineMap lineMap = ⟨lineMap, defaultLine, [], p, p.view.toOption, p.obstacle?, 0, []⟩ :=
  display_eq _ _

/-! ### Completions -/

/-- A completion is accepted if no click was begun since its ticket was issued. -/
theorem complete_fst_eq_true_iff {ticket : Ticket} {p : Program} :
    (s.complete ticket p).1 = true ↔ ticket.generation = s.generation := by
  unfold complete
  split <;> simp_all

theorem complete_of_accepted {ticket : Ticket} {p : Program} (h : (s.complete ticket p).1 = true) :
    (s.complete ticket p).2 = (s.display p, (s.display p).programNotices) := by
  unfold complete
  rw [if_pos (complete_fst_eq_true_iff.mp h)]

theorem complete_of_refused {ticket : Ticket} {p : Program} (h : (s.complete ticket p).1 = false) :
    (s.complete ticket p).2 = (s, []) := by
  unfold complete
  rw [if_neg fun hg => by simp [complete_fst_eq_true_iff.mpr hg] at h]

/-- A ticket that was just issued is accepted. -/
theorem complete_begin (line : Int64) (p : Program) :
    ((s.begin line).2.1.complete (s.begin line).1 p).1 = true :=
  complete_fst_eq_true_iff.mpr rfl

variable [LineMap μ]

/-! ### Moves -/

/-- The state after a move. -/
def after (s : Selection μ) : Move → Selection μ
  | .click line => (s.click line).1
  | .begin line => (s.begin line).2.1
  | .complete ticket p => (s.complete ticket p).2.1
  | .select ids => (s.select ids).1
  | .observe o => (s.observe o).1

/-- The state after some moves. -/
def afterAll (s : Selection μ) (moves : List Move) : Selection μ :=
  moves.foldl after s

/-- A ticket that is issued in the course of some moves. -/
def Issued (s : Selection μ) (moves : List Move) (ticket : Ticket) : Prop :=
  ∃ before line rest, moves = before ++ .begin line :: rest ∧ ticket = ((s.afterAll before).begin line).1

/-- A click is begun and completed at once. -/
theorem click_fst (line : Int64) : (s.click line).1 = (s.begin line).2.1.display (s.resolve line) :=
  congrArg Prod.fst (complete_of_accepted (complete_begin (s := s) line (s.resolve line)))

/-- A completion shows its program or does nothing. -/
theorem after_complete (ticket : Ticket) (p : Program) :
    s.after (.complete ticket p) = s ∨ s.after (.complete ticket p) = s.display p := by
  cases h : (s.complete ticket p).1
  · exact Or.inl (congrArg Prod.fst (complete_of_refused h))
  · exact Or.inr (congrArg Prod.fst (complete_of_accepted h))

/-- Only the beginning of a click changes the generation. -/
theorem generation_after (m : Move) :
    (s.after m).generation = s.generation + UInt64.ofNat (clicks [m]) := by
  cases m with
  | click line => rw [after, click_fst, display_eq]; rfl
  | begin line => rfl
  | complete ticket p =>
    show _ = s.generation + 0
    rw [UInt64.add_zero]
    rcases after_complete (s := s) ticket p with h | h <;> rw [h]
    rw [display_eq]
  | select ids => exact (UInt64.add_zero _).symm
  | observe o => exact (UInt64.add_zero _).symm

/-- Only the beginning of a click changes the line. -/
theorem line_after {m : Move} (h : m.starts = false) : (s.after m).line = s.line := by
  cases m with
  | click line => cases h
  | begin line => cases h
  | complete ticket p =>
    rcases after_complete (s := s) ticket p with h | h <;> rw [h]
    rw [display_eq]
  | select ids => rfl
  | observe o => rfl

theorem lineMap_after (m : Move) : (s.after m).lineMap = s.lineMap := by
  cases m with
  | click line => rw [after, click_fst, display_eq]; rfl
  | begin line => rfl
  | complete ticket p =>
    rcases after_complete (s := s) ticket p with h | h <;> rw [h]
    rw [display_eq]
  | select ids => rfl
  | observe o => rfl

/-! ### Runs -/

theorem clicks_append (moves rest : List Move) : clicks (moves ++ rest) = clicks moves + clicks rest :=
  List.countP_append

theorem clicks_cons_begin (line : Int64) (moves : List Move) :
    clicks (.begin line :: moves) = clicks moves + 1 :=
  List.countP_cons_of_pos rfl

theorem clicks_lt_of_append {n : Nat} {moves rest : List Move} (few : clicks (moves ++ rest) < n) :
    clicks moves < n := by
  rw [clicks_append] at few
  omega

theorem clicks_lt_of_begin {n : Nat} {before rest : List Move} {line : Int64}
    (few : clicks (before ++ .begin line :: rest) < n) : clicks rest < n := by
  rw [clicks_append, clicks_cons_begin] at few
  omega

theorem clicks_eq_zero_iff {moves : List Move} : clicks moves = 0 ↔ ∀ m ∈ moves, m.starts = false := by
  simp [clicks, List.countP_eq_zero]

theorem afterAll_append (s : Selection μ) (moves rest : List Move) :
    s.afterAll (moves ++ rest) = (s.afterAll moves).afterAll rest :=
  List.foldl_append

theorem afterAll_concat (s : Selection μ) (moves : List Move) (m : Move) :
    s.afterAll (moves ++ [m]) = (s.afterAll moves).after m :=
  afterAll_append s moves [m]

/-- The generation counts the clicks. -/
theorem generation_afterAll (s : Selection μ) (moves : List Move) :
    (s.afterAll moves).generation = s.generation + UInt64.ofNat (clicks moves) := by
  induction moves generalizing s with
  | nil => exact (UInt64.add_zero _).symm
  | cons m rest ih =>
    show ((s.after m).afterAll rest).generation = _
    rw [ih, generation_after, UInt64.add_assoc, ← UInt64.ofNat_add, ← clicks_append]
    rfl

theorem line_afterAll {moves : List Move} (h : ∀ m ∈ moves, m.starts = false) :
    (s.afterAll moves).line = s.line := by
  induction moves generalizing s with
  | nil => rfl
  | cons m rest ih =>
    show ((s.after m).afterAll rest).line = _
    rw [ih fun m' hm => h m' (List.mem_cons_of_mem _ hm), line_after (h m List.mem_cons_self)]

theorem lineMap_afterAll (s : Selection μ) (moves : List Move) : (s.afterAll moves).lineMap = s.lineMap := by
  induction moves generalizing s with
  | nil => rfl
  | cons m rest ih =>
    show ((s.after m).afterAll rest).lineMap = _
    rw [ih, lineMap_after]

theorem resolve_afterAll (s : Selection μ) (moves : List Move) (line : Int64) :
    (s.afterAll moves).resolve line = s.resolve line := by
  unfold resolve
  rw [lineMap_afterAll]

end Selection

end CipherGraph
