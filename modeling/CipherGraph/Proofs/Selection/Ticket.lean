import CipherGraph.Proofs.Selection.Move

/-! # Tickets

A ticket is accepted as long as no click was begun since it was issued. The number in a ticket is the
generation at its issue, the generation counts the clicks, and fewer than `2 ^ 64` of them never bring the
generation back to a number that was issued before. So an accepted ticket is about the selected line, however
often and in whatever order tickets are redeemed, and the program that is shown is the one of the last
completion that was accepted. -/

namespace CipherGraph.Selection
variable {μ : Type} [LineMap μ] {s : Selection μ}

/-- The program of the completion that a move makes, if it makes one and it is accepted. -/
def accepted? (s : Selection μ) : Move → Option Program
  | .click line =>
    let (ticket, begun, _) := s.begin line
    if (begun.complete ticket (s.resolve line)).1 then some (s.resolve line) else none
  | .complete ticket p => if (s.complete ticket p).1 then some p else none
  | _ => none

/-- The programs of the completions that are accepted in the course of some moves. -/
def accepted (s : Selection μ) : List Move → List Program
  | [] => []
  | m :: rest => (s.accepted? m).toList ++ (s.after m).accepted rest

theorem program_after (m : Move) : (s.after m).program = (s.accepted? m).getD s.program := by
  cases m with
  | click line =>
    rw [after, click_fst]
    show s.resolve line = (if ((s.begin line).2.1.complete (s.begin line).1 (s.resolve line)).1
      then some (s.resolve line) else none).getD s.program
    rw [complete_begin, if_pos rfl, Option.getD_some]
  | begin line => rfl
  | complete ticket p =>
    show (s.complete ticket p).2.1.program = (if (s.complete ticket p).1 then some p else none).getD s.program
    cases h : (s.complete ticket p).1
    · rw [complete_of_refused h]; rfl
    · rw [complete_of_accepted h]; rfl
  | select ids => rfl
  | observe o => rfl

/-- The program that is shown is the one of the last completion that was accepted. -/
theorem program_afterAll (s : Selection μ) (moves : List Move) :
    (s.afterAll moves).program = ((s.accepted moves).getLast?).getD s.program := by
  induction moves generalizing s with
  | nil => rfl
  | cons m rest ih =>
    show ((s.after m).afterAll rest).program = (((s.accepted? m).toList ++ (s.after m).accepted rest).getLast?).getD _
    rw [ih, program_after, List.getLast?_append]
    cases ((s.after m).accepted rest).getLast? with
    | some p => rfl
    | none => cases s.accepted? m <;> rfl

/-- The generation after a click was begun is the number of its ticket, raised by the clicks since. -/
theorem generation_afterAll_begin (s : Selection μ) (before : List Move) (line : Int64) (rest : List Move) :
    (s.afterAll (before ++ .begin line :: rest)).generation =
      ((s.afterAll before).begin line).1.generation + UInt64.ofNat (clicks rest) := by
  rw [afterAll_append]
  exact generation_afterAll ((s.afterAll before).begin line).2.1 rest

/-- A ticket is accepted exactly if no click was begun since it was issued. -/
theorem complete_issued_iff (s : Selection μ) (before : List Move) (line : Int64) {rest : List Move}
    (few : clicks rest < UInt64.size) (p : Program) :
    ((s.afterAll (before ++ .begin line :: rest)).complete ((s.afterAll before).begin line).1 p).1 = true ↔
      ∀ m ∈ rest, m.starts = false := by
  rw [complete_fst_eq_true_iff, generation_afterAll_begin, ← clicks_eq_zero_iff]
  constructor
  · intro h
    -- The numbers agree only modulo `2 ^ 64`, and so few clicks cannot come round to where they began.
    have hzero : (UInt64.ofNat (clicks rest)).toNat = 0 :=
      congrArg UInt64.toNat ((UInt64.add_right_inj _).mp (h.symm.trans (UInt64.add_zero _).symm))
    rwa [UInt64.toNat_ofNat_of_lt' few] at hzero
  · intro h
    rw [h]
    exact (UInt64.add_zero _).symm

/-- A ticket that is accepted is about the selected line. -/
theorem line_of_accepted {moves : List Move} {ticket : Ticket} {p : Program} (few : clicks moves < UInt64.size)
    (issued : s.Issued moves ticket) (h : ((s.afterAll moves).complete ticket p).1 = true) :
    ticket.line = (s.afterAll moves).line := by
  obtain ⟨before, line, rest, rfl, rfl⟩ := issued
  have few' := clicks_lt_of_begin few
  rw [afterAll_append]
  exact (line_afterAll (s := ((s.afterAll before).begin line).2.1) ((complete_issued_iff s before line few' p).mp h)).symm

/-- In the course of fewer than `2 ^ 64` clicks, a ticket is accepted exactly if no click was begun since it was
issued. A ticket that is refused changes nothing and tells nobody, and one that is accepted is about the
selected line and shows its program. What is shown is the program of the last completion that was accepted,
or that of the default line, and the completion within a click is always accepted. -/
theorem ticket_accepted_iff_latest (lineMap : μ) (moves : List Move) (few : clicks moves < UInt64.size) :
    let start := ofLineMap lineMap
    let s := start.afterAll moves
    (∀ before line rest, moves = before ++ .begin line :: rest → ∀ p,
      let ticket := ((start.afterAll before).begin line).1
      ((s.complete ticket p).1 = true ↔ ∀ m ∈ rest, m.starts = false) ∧
      ((s.complete ticket p).1 = false → (s.complete ticket p).2 = (s, [])) ∧
      ((s.complete ticket p).1 = true → ticket.line = s.line ∧ (s.complete ticket p).2.1.program = p)) ∧
    s.program = ((start.accepted moves).getLast?).getD (LineMap.resolve lineMap defaultLine) ∧
    ∀ line, ((s.begin line).2.1.complete (s.begin line).1 (s.resolve line)).1 = true := by
  intro start s
  refine ⟨?_, program_afterAll start moves, fun line => complete_begin line _⟩
  rintro before line rest rfl p ticket
  have few' := clicks_lt_of_begin few
  refine ⟨complete_issued_iff start before line few' p, complete_of_refused, fun h => ⟨?_, ?_⟩⟩
  · exact line_of_accepted few ⟨before, line, rest, rfl, rfl⟩ h
  · rw [complete_of_accepted h]
    rfl

/-- Of two clicks that overlap, the ticket of the first is refused and that of the second accepted. -/
theorem earlier_ticket_refused :
    let start := ofLineMap ProgramTable.demo
    let moves := [.begin 1, .begin 5, .complete ⟨5, 2⟩ .sample, .complete ⟨1, 1⟩ .product]
    clicks moves < UInt64.size ∧
      ((start.afterAll moves).complete (start.begin 1).1 .product).1 = false ∧
      ((start.afterAll moves).complete ((start.after (.begin 1)).begin 5).1 .sample).1 = true ∧
      (start.afterAll moves).program = .sample := by
  intro start moves
  have few : clicks moves < UInt64.size := by decide
  obtain ⟨tickets, shown, -⟩ := ticket_accepted_iff_latest ProgramTable.demo moves few
  refine ⟨few, ?_, ?_, shown⟩
  · have first := (tickets [] 1 _ rfl .product).1
    rw [← Bool.not_eq_true]
    exact fun h => absurd (first.mp h (.begin 5) List.mem_cons_self) (by decide)
  · exact (tickets [.begin 1] 5 _ rfl .sample).1.mpr (by decide)

end CipherGraph.Selection
