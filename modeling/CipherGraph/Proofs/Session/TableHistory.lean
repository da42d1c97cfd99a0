import CipherGraph.Proofs.Session.Overrides
import Mathlib.Data.List.Basic
import Mathlib.Data.List.Induction

/-! # Histories of a table

All that a table tells can be told from the calls that filled it: the program of a line is that of the last call for the
line, and the lines stand in the order of their first calls. A call replaces the program of its line and of no other
(`entry?_after`), and it appends its line only if the table does not have it (`lines_after`). -/

namespace CipherGraph

/-- A call that enters a program for a line, and either asks for the program that it replaces or goes on with the table. -/
inductive TableCall where
  | insert (line : Int64) (p : Program)
  | withLine (line : Int64) (p : Program)
  deriving DecidableEq, Repr

namespace TableCall

def line : TableCall → Int64
  | .insert line _ => line
  | .withLine line _ => line

def program : TableCall → Program
  | .insert _ p => p
  | .withLine _ p => p

/-- The program of the last call for a line. -/
def last? (calls : List TableCall) (line : Int64) : Option Program :=
  ((calls.filter fun c => c.line = line).getLast?).map (·.program)

theorem last?_concat (calls : List TableCall) (c : TableCall) (line : Int64) :
    last? (calls ++ [c]) line = if line = c.line then some c.program else last? calls line := by
  unfold last?
  rw [List.filter_append]
  by_cases here : line = c.line
  · simp [here]
  · simp [here, Ne.symm here]

end TableCall

namespace ProgramTable
variable {t : ProgramTable} {fallback : Program}

/-- The table after a call. -/
def after (t : ProgramTable) : TableCall → ProgramTable
  | .insert line p => (t.insert line p).2
  | .withLine line p => t.withLine line p

/-- The table after some calls. -/
def afterAll (t : ProgramTable) (calls : List TableCall) : ProgramTable :=
  calls.foldl after t

theorem afterAll_concat (t : ProgramTable) (calls : List TableCall) (c : TableCall) :
    t.afterAll (calls ++ [c]) = (t.afterAll calls).after c :=
  List.foldl_append

/-! ### One call -/

theorem after_eq (t : ProgramTable) (c : TableCall) : t.after c = t.withLine c.line c.program := by
  cases c <;> rfl

theorem entry?_after (t : ProgramTable) (c : TableCall) (line : Int64) :
    entry? (t.after c) line = if line = c.line then some c.program else t.entry? line := by
  rw [after_eq, entry?_withLine]

theorem map_fst_put (line : Int64) (p : Program) (entries : List (Int64 × Program)) :
    (put line p entries).map (·.1) =
      if line ∈ entries.map (·.1) then entries.map (·.1) else entries.map (·.1) ++ [line] := by
  induction entries with
  | nil => rfl
  | cons entry rest ih =>
    obtain ⟨l, q⟩ := entry
    unfold put
    by_cases here : l = line
    · simp [here]
    · simp only [if_neg here, List.map_cons, ih, List.mem_cons, Ne.symm here, false_or]
      split <;> rfl

/-- A line that the table has keeps its place, and any other is appended. -/
theorem lines_after (t : ProgramTable) (c : TableCall) :
    (t.after c).lines = if c.line ∈ t.lines then t.lines else t.lines ++ [c.line] := by
  rw [after_eq]
  exact map_fst_put c.line c.program t.entries

/-! ### Calls in a row -/

theorem entry?_afterAll (fallback : Program) (calls : List TableCall) (line : Int64) :
    entry? (afterAll { fallback } calls) line = TableCall.last? calls line := by
  induction calls using List.reverseRecOn with
  | nil => rfl
  | append_singleton calls c ih => rw [afterAll_concat, entry?_after, ih, TableCall.last?_concat]

theorem fallback_afterAll (t : ProgramTable) (calls : List TableCall) : (t.afterAll calls).fallback = t.fallback := by
  induction calls generalizing t with
  | nil => rfl
  | cons c rest ih =>
    refine (ih (t.after c)).trans ?_
    rw [after_eq]
    rfl

theorem mem_lines_afterAll (fallback : Program) (calls : List TableCall) (line : Int64) :
    line ∈ (afterAll { fallback } calls).lines ↔ ∃ c ∈ calls, c.line = line := by
  induction calls using List.reverseRecOn with
  | nil => simp [afterAll, lines]
  | append_singleton calls c ih =>
    have split : (∃ c' ∈ calls ++ [c], c'.line = line) ↔ (∃ c' ∈ calls, c'.line = line) ∨ c.line = line := by
      simp [or_and_right, exists_or]
    rw [afterAll_concat, lines_after, split, ← ih]
    by_cases known : c.line ∈ (afterAll { fallback } calls).lines
    · rw [if_pos known]
      exact ⟨Or.inl, fun h => h.elim id fun same => same ▸ known⟩
    · rw [if_neg known, List.mem_append, List.mem_singleton, eq_comm (a := line)]

/-- The lines stand in the order of their first calls. -/
theorem pairwise_lines_afterAll (fallback : Program) (calls : List TableCall) :
    (afterAll { fallback } calls).lines.Pairwise fun a b =>
      (calls.map (·.line)).idxOf a < (calls.map (·.line)).idxOf b := by
  induction calls using List.reverseRecOn with
  | nil => exact .nil
  | append_singleton calls c ih =>
    -- A call changes the first place of no line that was called before.
    have called : ∀ line ∈ (afterAll { fallback } calls).lines, line ∈ calls.map (·.line) := fun line known =>
      List.mem_map.mpr ((mem_lines_afterAll fallback calls line).mp known)
    have kept : ∀ line ∈ (afterAll { fallback } calls).lines,
        ((calls ++ [c]).map (·.line)).idxOf line = (calls.map (·.line)).idxOf line := fun line known => by
      rw [List.map_append, List.idxOf_append_of_mem (called line known)]
    have before : (afterAll { fallback } calls).lines.Pairwise fun a b =>
        ((calls ++ [c]).map (·.line)).idxOf a < ((calls ++ [c]).map (·.line)).idxOf b :=
      ih.imp_of_mem fun {a b} ha hb first => by rwa [kept a ha, kept b hb]
    rw [afterAll_concat, lines_after]
    split
    · exact before
    · next new =>
      have uncalled : c.line ∉ calls.map (·.line) := fun mem =>
        new ((mem_lines_afterAll fallback calls c.line).mpr (List.mem_map.mp mem))
      refine List.pairwise_append.mpr ⟨before, List.pairwise_singleton _ _, fun a ha b hb => ?_⟩
      cases List.mem_singleton.mp hb
      rw [kept a ha, List.map_append, List.idxOf_append_of_notMem uncalled]
      exact Nat.lt_of_lt_of_le (List.idxOf_lt_length_of_mem (called a ha)) (Nat.le_add_right _ _)

theorem resolve_afterAll (fallback : Program) (calls : List TableCall) (line : Int64) :
    (afterAll { fallback } calls).resolve line = (TableCall.last? calls line).getD fallback := by
  unfold resolve
  rw [entry?_afterAll, fallback_afterAll]

/-- Whatever calls fill a table, a line has the program of the last call for it, or the fallback if there was none. A
further call is answered with the program of the last call for its line, if any. The lines are listed once each, in the
order of their first calls, and a line that is called again keeps its place. So tables whose last calls agree for every
line have the same programs. -/
theorem table_tells_history (fallback : Program) (calls : List TableCall) :
    let t := afterAll { fallback } calls
    (∀ line, t.resolve line = (TableCall.last? calls line).getD fallback) ∧
    (∀ line p, (t.insert line p).1 = TableCall.last? calls line) ∧
    (t.lines.Nodup ∧ (∀ line, line ∈ t.lines ↔ ∃ c ∈ calls, c.line = line) ∧
      (t.lines.Pairwise fun a b => (calls.map (·.line)).idxOf a < (calls.map (·.line)).idxOf b) ∧
      ∀ c : TableCall, (t.after c).lines = if c.line ∈ t.lines then t.lines else t.lines ++ [c.line]) ∧
    t.fallback = fallback ∧
    ∀ calls', (∀ line, TableCall.last? calls' line = TableCall.last? calls line) →
      ∀ line, (afterAll { fallback } calls').resolve line = t.resolve line := by
  intro t
  have ordered := pairwise_lines_afterAll fallback calls
  refine ⟨resolve_afterAll fallback calls, fun line p => entry?_afterAll fallback calls line,
    ⟨ordered.imp fun {a b} first => ?_, mem_lines_afterAll fallback calls, ordered, t.lines_after⟩,
    fallback_afterAll _ calls, fun calls' same line => ?_⟩
  · rintro rfl
    exact absurd first (Nat.lt_irrefl _)
  · rw [resolve_afterAll, same, ← resolve_afterAll]

/-- The last of the lines is called twice, the second time with an empty program, and the first of all lines is called. A
table whose lines were called once each, in another order, has the same programs. -/
theorem recalled_line_tells_history :
    let calls : List TableCall :=
      [.insert Int64.maxValue .product, .withLine Int64.minValue .product, .insert Int64.maxValue {}]
    let calls' : List TableCall := [.insert Int64.minValue .product, .withLine Int64.maxValue {}]
    let t := afterAll { fallback := .sample } calls
    t.resolve Int64.maxValue = {} ∧ t.resolve 0 = .sample ∧ (t.insert Int64.maxValue .sample).1 = some {} ∧
      (t.insert 0 {}).1 = none ∧ t.lines.Nodup ∧ Int64.minValue ∈ t.lines ∧
      (calls.map (·.line)).idxOf Int64.maxValue < (calls.map (·.line)).idxOf Int64.minValue ∧
      (t.after (.insert Int64.minValue .sample)).lines = t.lines ∧
      ∀ line, (afterAll { fallback := .sample } calls').resolve line = t.resolve line := by
  intro calls calls' t
  obtain ⟨resolved, replied, ⟨once, listed, -, kept⟩, -, agree⟩ := table_tells_history .sample calls
  have present : Int64.minValue ∈ t.lines := (listed _).mpr ⟨.withLine Int64.minValue .product, by decide, rfl⟩
  have same : ∀ line, TableCall.last? calls' line = TableCall.last? calls line := by
    intro line
    by_cases lowest : Int64.minValue = line
    · subst lowest
      decide
    · by_cases highest : Int64.maxValue = line
      · subst highest
        decide
      · simp [calls, calls', TableCall.last?, TableCall.line, lowest, highest]
  exact ⟨(resolved _).trans (by decide), (resolved _).trans (by decide), (replied _ _).trans (by decide),
    (replied _ _).trans (by decide), once, present, by decide, (kept _).trans (if_pos present), agree calls' same⟩

end ProgramTable

end CipherGraph
