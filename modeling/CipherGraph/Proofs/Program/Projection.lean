import CipherGraph.Proofs.Program.Arity
import CipherGraph.Proofs.Program.Drawing

/-! # Drawings as projections

A program is drawn as a whole or not at all. Its drawing has one node for every operation, with the id that tells its
place, and the edges and the warnings of the program as they are. So every id in a drawing, be it at an end of an edge or
in a warning, is that of a node of the drawing. -/

namespace CipherGraph

theorem Operation.isInput_iff {op : Operation} : op.isInput = true ↔ ∃ slot, op = .input slot := by
  cases op <;> simp [isInput, slot?]

/-- The node shows an operation at a place: an input by its slot, any other operation by its name. -/
structure DrawnNode.Shows (n : DrawnNode) (op : Operation) (place : Nat) : Prop where
  id : n.id.toNat = place
  title_of_input : ∀ slot, op = .input slot → n.title = toString slot.toNat
  title_of_other : (∀ slot, op ≠ .input slot) → n.title = op.name
  input_iff : n.kind = .input ↔ ∃ slot, op = .input slot
  empty_iff : n.kind = .empty ↔ ∀ slot, op ≠ .input slot

/-- A node with the id stands at the place that the id tells. -/
def Rendering.Names (r : Rendering) (id : NodeId) : Prop :=
  ∃ n, r.node? id = some n ∧ n.id = id

/-- The rendering shows the nodes of a program one by one, with the edges and the warnings of the program, and all its ids
are those of its nodes. -/
structure Rendering.Projects (r : Rendering) (p : Program) : Prop where
  length : r.nodes.length = p.nodeCount
  nodes : ∀ i op, p.nodes[i]? = some op → ∃ n : DrawnNode, r.nodes[i]? = some n ∧ n.Shows op i
  unmarked : ∀ n ∈ r.nodes, n.kind ≠ .problematic
  edges : r.edges = p.edges
  ends : ∀ e ∈ r.edges, r.Names e.source ∧ r.Names e.target
  warnings : r.warnings = p.warnings
  warned : ∀ w ∈ r.warnings, r.Names w.node

theorem Operation.shows_render (op : Operation) {place : Nat} (fits : (UInt32.ofNat place).toNat = place) :
    (op.render place).Shows op place := by
  have kind : (op.render place).kind = if op.isInput then .input else .empty := rfl
  refine ⟨fits, ?_, fun other => ?_, ?_, ?_⟩
  · rintro slot rfl
    rfl
  · cases op with
    | input slot => exact absurd rfl (other slot)
    | _ => rfl
  · rw [kind, ← isInput_iff]
    cases op.isInput <;> simp
  · rw [kind, ← not_exists, ← isInput_iff]
    cases op.isInput <;> simp

namespace Program
variable {p : Program} {r : Rendering} {id : NodeId}

/-- A program is not drawn exactly if an end of some edge is beyond its nodes. -/
theorem render_fails_iff :
    (∃ failure, p.render = .error failure) ↔
      ∃ e ∈ p.edges, p.nodeCount ≤ e.source.toNat ∨ p.nodeCount ≤ e.target.toNat := by
  rw [← not_inRange_iff]
  constructor
  · rintro ⟨failure, failed⟩ inRange
    cases failed.symm.trans (render_of_inRange inRange)
  · intro outside
    obtain ⟨d, -, failed⟩ := render_of_not_inRange outside
    exact ⟨_, failed⟩

/-- The ids of the nodes of a program are those of the nodes of its drawing. -/
theorem names_of_render (h : p.render = .ok r) (hid : id.toNat < p.nodeCount) : r.Names id := by
  obtain ⟨op, hop⟩ := exists_node? hid
  have drawn : r.node? id = some (op.render id.toNat) := by
    unfold Rendering.node?
    unfold node? at hop
    rw [render_nodes_getElem? h, hop, Option.map_some]
  exact ⟨_, drawn, UInt32.ofNat_toNat⟩

/-- A program is drawn exactly if both ends of all its edges are nodes, and its drawing is an exact projection of it. -/
theorem render_projects (p : Program) (few : p.nodeCount ≤ UInt32.size) :
    ((∃ failure, p.render = .error failure) ↔
      ∃ e ∈ p.edges, p.nodeCount ≤ e.source.toNat ∨ p.nodeCount ≤ e.target.toNat) ∧
    ∀ r, p.render = .ok r → r.Projects p := by
  refine ⟨render_fails_iff, fun r h => ?_⟩
  have inRange := inRange_of_render h
  constructor
  · exact length_of_render h
  · intro i op hop
    refine ⟨op.render i, ?_, op.shows_render (toNat_place few hop)⟩
    rw [render_nodes_getElem? h, hop, Option.map_some]
  · intro n hn
    rcases kind_of_render h hn with kind | kind <;> simp [kind]
  · exact edges_of_render h
  · intro e he
    rw [edges_of_render h] at he
    exact ⟨names_of_render h (inRange e he).1, names_of_render h (inRange e he).2⟩
  · exact warnings_of_render h
  · intro w hw
    rw [warnings_of_render h] at hw
    exact names_of_render h (toNat_node_lt few hw)

/-- A product that gets its left operand twice, from an input and from itself, and no right one. -/
def lopsided : Program where
  nodes := [.input 12, .multiply]
  edges := [⟨0, 1, .left⟩, ⟨1, 1, .left⟩]

/-- It is drawn with its flaws; with one more edge, to a node that does not exist, nothing of it is drawn. -/
theorem lopsided_projected :
    lopsided.nodeCount ≤ UInt32.size ∧
      (∃ r, lopsided.render = .ok r ∧ r.Projects lopsided ∧
        (∃ n, r.nodes[0]? = some n ∧ n.title = "12" ∧ n.kind = .input) ∧ r.Names 1 ∧
        r.warnings = [.duplicate 1 .left 2, .missing 1 .right]) ∧
      ∃ failure, (⟨lopsided.nodes, ⟨0, 2, .right⟩ :: lopsided.edges⟩ : Program).render = .error failure := by
  have few : lopsided.nodeCount ≤ UInt32.size := by decide
  have inRange : lopsided.InRange := by decide
  obtain ⟨r, drawn⟩ := inRange.render
  obtain ⟨-, projects⟩ := render_projects lopsided few
  have projects := projects r drawn
  obtain ⟨n, hn, shows⟩ := projects.nodes 0 (.input 12) rfl
  have loop : (⟨1, 1, .left⟩ : Edge) ∈ r.edges := by
    rw [projects.edges]
    decide
  have warnings : r.warnings = [.duplicate 1 .left 2, .missing 1 .right] := projects.warnings.trans (by decide)
  refine ⟨few, ⟨r, drawn, projects, ⟨n, hn, ?_, shows.input_iff.mpr ⟨12, rfl⟩⟩, (projects.ends _ loop).1, warnings⟩, ?_⟩
  · exact (shows.title_of_input 12 rfl).trans (by decide)
  · obtain ⟨fails, -⟩ := render_projects ⟨lopsided.nodes, ⟨0, 2, .right⟩ :: lopsided.edges⟩ few
    exact fails.mpr ⟨⟨0, 2, .right⟩, by decide, by decide⟩

end Program

end CipherGraph
