import CipherGraph.Proofs.Selection.Deferred
import Mathlib.Data.List.Sort

/-! # Selections without history

A user clicks lines and selects nodes. In whatever order that is done, the selection shows the program of the line that
was clicked last, it holds the nodes that were selected last, and it counts the clicks; nothing else is left of what was
done before (`afterAll_gestures`). -/

namespace CipherGraph

/-! ### Sets of nodes -/

namespace NodeSet
variable {id n : NodeId} {ids : List NodeId} {set : NodeSet}

theorem mem_insert : n ∈ insert id set ↔ n = id ∨ n ∈ set := by
  induction set with
  | nil => simp [insert]
  | cons m rest ih =>
    unfold insert
    split
    · exact List.mem_cons
    · split
      · next same =>
        subst same
        simp
      · rw [List.mem_cons, ih, List.mem_cons, or_left_comm]

theorem pairwise_insert (h : set.Pairwise (· < ·)) : (insert id set).Pairwise (· < ·) := by
  induction set with
  | nil => exact List.pairwise_singleton _ _
  | cons m rest ih =>
    obtain ⟨first, sorted⟩ := List.pairwise_cons.mp h
    unfold insert
    split
    · next before =>
      have later : ∀ k ∈ m :: rest, id < k := by
        intro k hk
        rcases List.mem_cons.mp hk with rfl | hk
        · exact before
        · exact UInt32.lt_trans before (first k hk)
      exact List.pairwise_cons.mpr ⟨later, h⟩
    · split
      · exact h
      · next before other =>
        have after : m < id := UInt32.lt_of_le_of_ne (UInt32.not_lt.mp before) (Ne.symm other)
        refine List.pairwise_cons.mpr ⟨fun k hk => ?_, ih sorted⟩
        rcases mem_insert.mp hk with rfl | hk
        · exact after
        · exact first k hk

theorem mem_ofList : n ∈ ofList ids ↔ n ∈ ids := by
  unfold ofList
  induction ids with
  | nil => exact Iff.rfl
  | cons id rest ih => rw [List.foldr_cons, mem_insert, ih, List.mem_cons]

/-- The members of a set stand in ascending order, each of them once. -/
theorem pairwise_ofList (ids : List NodeId) : (ofList ids).Pairwise (· < ·) := by
  unfold ofList
  induction ids with
  | nil => exact List.Pairwise.nil
  | cons id rest ih => exact pairwise_insert ih

/-- Lists with the same members make the same set. -/
theorem ofList_congr {ids' : List NodeId} (same : ∀ n, n ∈ ids ↔ n ∈ ids') : ofList ids = ofList ids' := by
  refine (pairwise_ofList ids).eq_of_mem_iff (pairwise_ofList ids') fun n => ?_
  rw [mem_ofList, mem_ofList]
  exact same n

end NodeSet

/-! ### Gestures -/

/-- What a user does: a click on a line, whose program is shown at once, or a choice of nodes. -/
inductive Gesture where
  | click (line : Int64)
  | select (ids : List NodeId)
  deriving DecidableEq, Repr

namespace Gesture

def move : Gesture → Move
  | .click line => .click line
  | .select ids => .select ids

def line? : Gesture → Option Int64
  | .click line => some line
  | .select _ => none

def ids? : Gesture → Option (List NodeId)
  | .click _ => none
  | .select ids => some ids

/-- The lines that are clicked, in order. -/
def lines (gestures : List Gesture) : List Int64 :=
  gestures.filterMap line?

/-- The choices of nodes, in order. -/
def choices (gestures : List Gesture) : List (List NodeId) :=
  gestures.filterMap ids?

theorem lines_append (gestures more : List Gesture) : lines (gestures ++ more) = lines gestures ++ lines more :=
  List.filterMap_append

theorem choices_append (gestures more : List Gesture) :
    choices (gestures ++ more) = choices gestures ++ choices more :=
  List.filterMap_append

/-- The line that is clicked last, or the default line if none is. -/
def lastLine (gestures : List Gesture) : Int64 :=
  (lines gestures).getLastD Selection.defaultLine

/-- The nodes that are chosen last, or none. -/
def lastChoice (gestures : List Gesture) : List NodeId :=
  (choices gestures).getLastD []

end Gesture

namespace Selection
variable {μ : Type} [LineMap μ] {s : Selection μ}

/-! ### What is left of a run -/

/-- The state at another line whose program is shown, with another set of nodes and some more clicks. -/
def moved (s : Selection μ) (line : Int64) (selected : NodeSet) (more : Nat) : Selection μ :=
  { s with line, selected, generation := s.generation + UInt64.ofNat more }.settle

theorem moved_eq (s : Selection μ) (line : Int64) (selected : NodeSet) (more : Nat) :
    let p := s.resolve line
    s.moved line selected more = ⟨s.lineMap, line, selected, p, p.view.toOption, p.obstacle?,
      s.generation + UInt64.ofNat more, s.observers⟩ :=
  settle_eq _

theorem line_moved (s : Selection μ) (line : Int64) (selected : NodeSet) (more : Nat) :
    (s.moved line selected more).line = line :=
  congrArg Selection.line (s.moved_eq line selected more)

theorem selected_moved (s : Selection μ) (line : Int64) (selected : NodeSet) (more : Nat) :
    (s.moved line selected more).selected = selected :=
  congrArg Selection.selected (s.moved_eq line selected more)

theorem settle_moved (s : Selection μ) (line : Int64) (selected : NodeSet) (more : Nat) :
    (s.moved line selected more).settle = s.moved line selected more :=
  settle_settle _

theorem after_gesture_click (s : Selection μ) (line : Int64) :
    s.after (Gesture.click line).move = s.moved line s.selected 1 :=
  click_fst line

/-- A selection of nodes leaves the program of the line, if that is shown. -/
theorem after_gesture_select (settled : s.settle = s) (ids : List NodeId) :
    s.after (Gesture.select ids).move = s.moved s.line (NodeSet.ofList ids) 0 := by
  have same : s.generation + UInt64.ofNat 0 = s.generation := UInt64.add_zero _
  unfold moved
  rw [same]
  have chosen : (s.after (.select ids)).settle = s.settle.after (.select ids) := settle_after rfl
  exact (chosen.trans (congrArg (·.after (.select ids)) settled)).symm

theorem moved_moved (s : Selection μ) (line line' : Int64) (selected selected' : NodeSet) (more more' : Nat) :
    (s.moved line selected more).moved line' selected' more' = s.moved line' selected' (more + more') := by
  have clicks : s.generation + UInt64.ofNat more + UInt64.ofNat more' = s.generation + UInt64.ofNat (more + more') := by
    rw [UInt64.add_assoc, ← UInt64.ofNat_add]
  rw [moved_eq, moved_eq, moved_eq, ← clicks]
  rfl

/-- Where the program of the line can be drawn, a selection that was moved there shows the drawing, without an error. -/
theorem snapshot_moved (lineMap : μ) {line : Int64} {selected : NodeSet} {more : Nat} {drawing : Rendering}
    (hr : (LineMap.resolve lineMap line).render = .ok drawing) :
    ((ofLineMap lineMap).moved line selected more).snapshot =
      ⟨line, selected, some drawing.markWarnings, none, UInt64.ofNat more⟩ := by
  have view : (LineMap.resolve lineMap line).view = .ok drawing.markWarnings :=
    congrArg (Except.map Rendering.markWarnings) hr
  rw [moved_eq, ofLineMap_eq]
  unfold snapshot Program.obstacle? resolve
  rw [view]
  exact congrArg (Snapshot.mk line selected _ none) (UInt64.zero_add _)

/-- Of a run, only the last line, the last choice of nodes and the number of clicks are left. -/
theorem afterAll_gestures (settled : s.settle = s) (gestures : List Gesture) :
    s.afterAll (gestures.map Gesture.move) =
      s.moved ((Gesture.lines gestures).getLastD s.line)
        (((Gesture.choices gestures).map NodeSet.ofList).getLastD s.selected) (Gesture.lines gestures).length := by
  -- Every gesture replaces its own part of the state, so the parts start from what they are before the run.
  induction gestures generalizing s with
  | nil =>
    have same : s.generation + UInt64.ofNat 0 = s.generation := UInt64.add_zero _
    show s = { s with generation := s.generation + UInt64.ofNat 0 }.settle
    rw [same]
    exact settled.symm
  | cons g rest ih =>
    show (s.after g.move).afterAll (rest.map Gesture.move) = _
    cases g with
    | click line =>
      have lines : Gesture.lines (.click line :: rest) = line :: Gesture.lines rest := rfl
      rw [after_gesture_click, ih (settle_moved ..), moved_moved, line_moved, selected_moved, Nat.add_comm 1, lines,
        List.getLastD_cons]
      rfl
    | select ids =>
      have choices : Gesture.choices (.select ids :: rest) = ids :: Gesture.choices rest := rfl
      rw [after_gesture_select settled, ih (settle_moved ..), moved_moved, line_moved, selected_moved, Nat.zero_add,
        choices, List.map_cons, List.getLastD_cons]
      rfl

/-- Clicks leave the nodes selected. -/
theorem selected_afterAll_clicks (s : Selection μ) (lines : List Int64) :
    (s.afterAll (lines.map Move.click)).selected = s.selected := by
  induction lines generalizing s with
  | nil => rfl
  | cons line rest ih =>
    show ((s.after (.click line)).afterAll (rest.map Move.click)).selected = _
    rw [ih, after, click_fst, display_eq]
    rfl

theorem afterAll_gestures_ofLineMap (lineMap : μ) (gestures : List Gesture) :
    (ofLineMap lineMap).afterAll (gestures.map Gesture.move) =
      (ofLineMap lineMap).moved (Gesture.lastLine gestures) (NodeSet.ofList (Gesture.lastChoice gestures))
        (Gesture.lines gestures).length := by
  have last : ((Gesture.choices gestures).map NodeSet.ofList).getLastD [] =
      NodeSet.ofList ((Gesture.choices gestures).getLastD []) := by
    rw [List.getLastD_eq_getLast?, List.getLastD_eq_getLast?, List.getLast?_map]
    cases (Gesture.choices gestures).getLast? <;> rfl
  rw [afterAll_gestures (settle_ofLineMap lineMap), ofLineMap_eq]
  exact congrArg (fun selected => moved _ _ selected _) last

/-- After some gestures, a click shows its line. -/
theorem afterAll_click (lineMap : μ) (gestures : List Gesture) (line : Int64) :
    (ofLineMap lineMap).afterAll ((gestures ++ [Gesture.click line]).map Gesture.move) =
      (ofLineMap lineMap).moved line (NodeSet.ofList (Gesture.lastChoice gestures))
        ((Gesture.lines gestures).length + 1) := by
  have lines : Gesture.lines (gestures ++ [.click line]) = Gesture.lines gestures ++ [line] :=
    Gesture.lines_append _ _
  have choices : Gesture.choices (gestures ++ [.click line]) = Gesture.choices gestures :=
    (Gesture.choices_append _ _).trans (List.append_nil _)
  have last : Gesture.lastLine (gestures ++ [.click line]) = line := by
    unfold Gesture.lastLine
    rw [lines, List.getLastD_concat]
  have chosen : Gesture.lastChoice (gestures ++ [.click line]) = Gesture.lastChoice gestures :=
    congrArg (List.getLastD · []) choices
  rw [afterAll_gestures_ofLineMap, last, chosen, lines, List.length_append]
  rfl

/-- A run of clicks and selections, of fewer than `2 ^ 64` clicks, leaves the line of the last click, the program of
that line, the nodes of the last selection in ascending order, and the number of the clicks. So what is seen of it
depends on nothing else: it is the same however clicks and selections are interleaved, and clicks leave the nodes
selected. -/
theorem snapshot_without_history (lineMap : μ) (gestures : List Gesture)
    (few : (Gesture.lines gestures).length < UInt64.size) :
    let start := ofLineMap lineMap
    let s := start.afterAll (gestures.map Gesture.move)
    s.snapshot.line = Gesture.lastLine gestures ∧
    s.program = LineMap.resolve lineMap (Gesture.lastLine gestures) ∧
    s.snapshot.selected.Pairwise (· < ·) ∧
    (∀ id, id ∈ s.snapshot.selected ↔ id ∈ Gesture.lastChoice gestures) ∧
    s.snapshot.generation.toNat = (Gesture.lines gestures).length ∧
    (∀ gestures', (Gesture.lines gestures').length = (Gesture.lines gestures).length →
      Gesture.lastLine gestures' = Gesture.lastLine gestures →
      (∀ id, id ∈ Gesture.lastChoice gestures' ↔ id ∈ Gesture.lastChoice gestures) →
      (start.afterAll (gestures'.map Gesture.move)).snapshot = s.snapshot) ∧
    (∀ gestures', Gesture.lines gestures' = Gesture.lines gestures →
      Gesture.choices gestures' = Gesture.choices gestures →
      (start.afterAll (gestures'.map Gesture.move)).snapshot = s.snapshot) ∧
    ∀ lines : List Int64, (s.afterAll (lines.map Move.click)).snapshot.selected = s.snapshot.selected := by
  intro start s
  have left : s = start.moved (Gesture.lastLine gestures) (NodeSet.ofList (Gesture.lastChoice gestures))
      (Gesture.lines gestures).length := afterAll_gestures_ofLineMap lineMap gestures
  have depends : ∀ gestures', (Gesture.lines gestures').length = (Gesture.lines gestures).length →
      Gesture.lastLine gestures' = Gesture.lastLine gestures →
      (∀ id, id ∈ Gesture.lastChoice gestures' ↔ id ∈ Gesture.lastChoice gestures) →
      (start.afterAll (gestures'.map Gesture.move)).snapshot = s.snapshot := by
    intro gestures' clicks line nodes
    have left' := afterAll_gestures_ofLineMap lineMap gestures'
    rw [clicks, line, NodeSet.ofList_congr nodes, ← left] at left'
    exact congrArg snapshot left'
  rw [moved_eq, show start = _ from ofLineMap_eq lineMap] at left
  refine ⟨?_, ?_, ?_, ?_, ?_, depends, ?_, selected_afterAll_clicks s⟩
  · rw [left]
    rfl
  · rw [left]
    rfl
  · rw [left]
    exact NodeSet.pairwise_ofList _
  · intro id
    rw [left]
    exact NodeSet.mem_ofList
  · have count : (0 + UInt64.ofNat (Gesture.lines gestures).length).toNat = (Gesture.lines gestures).length := by
      rw [UInt64.zero_add, UInt64.toNat_ofNat_of_lt' few]
    rw [left]
    exact count
  · intro gestures' lines choices
    refine depends gestures' (congrArg List.length lines) (congrArg (List.getLastD · defaultLine) lines) fun id => ?_
    unfold Gesture.lastChoice
    rw [choices]

/-- Nodes that are chosen twice or do not exist, a choice in place of an earlier one, and a line that is clicked again
after another; and the same clicks and choices in another order. -/
theorem interleaved_gestures_snapshot :
    let gestures := [.select [2], .click 1, .select [99, 4, 99], .click (-7), .click 1]
    let others := [.click 1, .click (-7), .select [2], .click 1, .select [99, 4, 99]]
    let start := ofLineMap ProgramTable.demo
    let s := start.afterAll (gestures.map Gesture.move)
    (Gesture.lines gestures).length < UInt64.size ∧ s.snapshot.line = 1 ∧ s.program = .product ∧
      s.snapshot.selected.Pairwise (· < ·) ∧ (∀ id, id ∈ s.snapshot.selected ↔ id = 4 ∨ id = 99) ∧
      s.snapshot.generation.toNat = 3 ∧ (start.afterAll (others.map Gesture.move)).snapshot = s.snapshot := by
  intro gestures others start s
  have few : (Gesture.lines gestures).length < UInt64.size := by decide
  obtain ⟨line, program, sorted, chosen, clicks, -, interleaved, -⟩ :=
    snapshot_without_history ProgramTable.demo gestures few
  have last : ∀ id, id ∈ Gesture.lastChoice gestures ↔ id = 4 ∨ id = 99 := by
    intro id
    show id ∈ [99, 4, 99] ↔ _
    rw [List.mem_cons, List.mem_cons, List.mem_singleton]
    tauto
  exact ⟨few, line, program, sorted, fun id => (chosen id).trans (last id), clicks, interleaved others rfl rfl⟩

end Selection

end CipherGraph
