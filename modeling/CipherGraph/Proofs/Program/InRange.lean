import CipherGraph.Program.Digraph
import CipherGraph.Selection.Basic

/-! # Programs without dangling edges

The check of a program passes exactly if both ends of every edge are nodes of the program. Such a program can
be drawn, and the neighbourhood of each of its nodes can be given. -/

namespace CipherGraph

/-- Both ends of every edge are nodes. -/
def Program.InRange (p : Program) : Prop :=
  ∀ e ∈ p.edges, e.source.toNat < p.nodeCount ∧ e.target.toNat < p.nodeCount

instance (p : Program) : Decidable p.InRange :=
  inferInstanceAs (Decidable (∀ e ∈ p.edges, e.source.toNat < p.nodeCount ∧ e.target.toNat < p.nodeCount))

/-- An edge has no missing end exactly if both ends are nodes. -/
theorem Edge.missing?_eq_none_iff {e : Edge} {n : Nat} :
    e.missing? n = none ↔ e.source.toNat < n ∧ e.target.toNat < n := by
  unfold missing?
  split
  · simp only [reduceCtorEq, false_iff]
    omega
  · split
    · simp only [reduceCtorEq, false_iff]
      omega
    · simp only [true_iff]
      omega

namespace Program
variable {p : Program}

theorem exists_node? {id : NodeId} (hid : id.toNat < p.nodeCount) : ∃ op, p.node? id = some op :=
  ⟨_, List.getElem?_eq_getElem hid⟩

theorem firstDangling_eq_none_iff {n position : Nat} {edges : List Edge} :
    firstDangling n position edges = none ↔ ∀ e ∈ edges, e.source.toNat < n ∧ e.target.toNat < n := by
  induction edges generalizing position with
  | nil => simp [firstDangling]
  | cons e rest ih =>
    rw [firstDangling, List.forall_mem_cons, ← Edge.missing?_eq_none_iff]
    cases h : e.missing? n with
    | some missing => simp
    | none => simpa using ih

/-- The check passes exactly if no edge dangles. -/
theorem check_eq_ok_iff : p.check = .ok () ↔ p.InRange := by
  unfold check dangling?
  cases h : firstDangling p.nodeCount 0 p.edges with
  | some d =>
    simp only [reduceCtorEq, false_iff]
    intro inRange
    rw [firstDangling_eq_none_iff.mpr inRange] at h
    cases h
  | none =>
    simp only [true_iff]
    exact firstDangling_eq_none_iff.mp h

/-- A program without dangling edges can be drawn. -/
theorem InRange.render (h : p.InRange) : ∃ r, p.render = .ok r := by
  unfold Program.render
  rw [check_eq_ok_iff.mpr h]
  exact ⟨_, rfl⟩

/-- A program without dangling edges is shown with the nodes of its warnings marked. -/
theorem InRange.view (h : p.InRange) : ∃ r, p.render = .ok r ∧ p.view = .ok r.markWarnings := by
  obtain ⟨r, hr⟩ := h.render
  refine ⟨r, hr, ?_⟩
  unfold Program.view
  rw [hr]
  rfl

/-- The neighbourhood of a node fails only if the node does not exist. -/
theorem InRange.neighbourhood (h : p.InRange) (id : NodeId) :
    (∃ n, p.neighbourhood id = .ok n) ∨ p.neighbourhood id = .error (.nodeNotFound id) := by
  unfold Program.neighbourhood toDigraph
  cases p.node? id with
  | none => exact Or.inr rfl
  | some op =>
    left
    simp only [check_eq_ok_iff.mpr h]
    exact ⟨_, rfl⟩

end Program

end CipherGraph
