import CipherGraph.Proofs.Program.InRange
import Mathlib.Data.List.Forall2

/-! # Drawings of programs

A program is drawn exactly if no edge dangles. Its nodes stand at the places that their ids name, as inputs or as empty
nodes. To mark ids makes the nodes at their places problematic and changes nothing else; so in a drawing it makes the
nodes with these ids problematic. -/

namespace CipherGraph

/-- The node as it is drawn if something is wrong with it. -/
def DrawnNode.problem (n : DrawnNode) : DrawnNode :=
  { n with kind := .problematic }

/-- The rendering with the nodes of some ids drawn as problematic. -/
def Rendering.highlight (r : Rendering) (ids : List NodeId) : Rendering :=
  { r with nodes := r.nodes.map fun n => if n.id ∈ ids then n.problem else n }

/-- The node of another drawing, problematic if it is named, and as it was if not: an input or empty. -/
structure DrawnNode.Flags (drawn plain : DrawnNode) (named : Prop) : Prop where
  id : drawn.id = plain.id
  title : drawn.title = plain.title
  flagged : drawn.kind = .problematic ↔ named
  unflagged : ¬ named → drawn.kind = plain.kind ∧ (plain.kind = .input ∨ plain.kind = .empty)

/-- Another drawing, place by place, with exactly the nodes at some places problematic. -/
structure Rendering.FlagsAt (drawn plain : Rendering) (named : Nat → Prop) : Prop where
  length : drawn.nodes.length = plain.nodes.length
  nodes : ∀ i (d n : DrawnNode), drawn.nodes[i]? = some d → plain.nodes[i]? = some n → d.Flags n (named i)
  edges : drawn.edges = plain.edges
  warnings : drawn.warnings = plain.warnings

/-- Another drawing, node by node, with exactly the nodes of some ids problematic. -/
structure Rendering.Flags (drawn plain : Rendering) (ids : List NodeId) : Prop where
  nodes : List.Forall₂ (fun d n => d.Flags n (n.id ∈ ids)) drawn.nodes plain.nodes
  edges : drawn.edges = plain.edges
  warnings : drawn.warnings = plain.warnings

/-! ### Marks -/

namespace Rendering
variable {r : Rendering} {n : DrawnNode}

theorem markNode_getElem? (nodes : Array DrawnNode) (id : NodeId) (i : Nat) :
    (markNode nodes id)[i]? = nodes[i]?.map fun n => if id.toNat = i then n.problem else n := by
  unfold markNode
  rw [Array.getElem?_modify]
  split
  · rfl
  · rw [Option.map_id']

theorem foldl_markNode_getElem? (ids : List NodeId) (nodes : Array DrawnNode) (i : Nat) :
    (ids.foldl markNode nodes)[i]? =
      nodes[i]?.map fun n => if ∃ id ∈ ids, id.toNat = i then n.problem else n := by
  induction ids generalizing nodes with
  | nil => simp
  | cons id rest ih =>
    rw [List.foldl_cons, ih, markNode_getElem?, Option.map_map]
    refine congrArg (Option.map · nodes[i]?) (funext fun n => ?_)
    by_cases first : id.toNat = i <;> by_cases later : ∃ id ∈ rest, id.toNat = i <;>
      simp [first, later, DrawnNode.problem]

theorem mark_nodes_getElem? (r : Rendering) (ids : List NodeId) (i : Nat) :
    (r.mark ids).nodes[i]? = r.nodes[i]?.map fun n => if ∃ id ∈ ids, id.toNat = i then n.problem else n := by
  show (ids.foldl markNode r.nodes.toArray).toList[i]? = _
  rw [Array.getElem?_toList, foldl_markNode_getElem?, List.getElem?_toArray]

theorem length_mark (r : Rendering) (ids : List NodeId) : (r.mark ids).nodes.length = r.nodes.length := by
  have size : ∀ nodes : Array DrawnNode, (ids.foldl markNode nodes).size = nodes.size := by
    induction ids with
    | nil => exact fun _ => rfl
    | cons id rest ih =>
      intro nodes
      rw [List.foldl_cons, ih]
      exact Array.size_modify
  exact (Array.length_toList).trans (size r.nodes.toArray)

/-- Where nodes stand at the places of their ids, marks are about the nodes with these ids. -/
theorem mark_eq_highlight (places : ∀ i (n : DrawnNode), r.nodes[i]? = some n → n.id.toNat = i) (ids : List NodeId) :
    r.mark ids = r.highlight ids := by
  have nodes : (r.mark ids).nodes = (r.highlight ids).nodes := by
    apply List.ext_getElem?
    intro i
    rw [mark_nodes_getElem?, highlight, List.getElem?_map]
    cases hn : r.nodes[i]? with
    | none => rfl
    | some n =>
      -- No two ids name the same place, so a place is marked only through the id of the node that stands there.
      have named : (∃ id ∈ ids, id.toNat = i) ↔ n.id ∈ ids := by
        constructor
        · rintro ⟨id, hid, place⟩
          rwa [← UInt32.toNat_inj.mp (place.trans (places i n hn).symm)]
        · exact fun hid => ⟨n.id, hid, places i n hn⟩
      simp only [Option.map_some, named]
  show (⟨(r.mark ids).nodes, r.edges, r.warnings⟩ : Rendering) = _
  rw [nodes]
  rfl

theorem flags_problem (plain : n.kind = .input ∨ n.kind = .empty) (named : Prop) [Decidable named] :
    (if named then n.problem else n).Flags n named := by
  by_cases h : named
  · rw [if_pos h]
    exact ⟨rfl, rfl, iff_of_true rfl h, fun unnamed => absurd h unnamed⟩
  · rw [if_neg h]
    refine ⟨rfl, rfl, iff_of_false (fun problematic => ?_) h, fun _ => ⟨rfl, plain⟩⟩
    rcases plain with kind | kind <;> cases kind.symm.trans problematic

theorem flags_highlight (plain : ∀ n ∈ r.nodes, n.kind = .input ∨ n.kind = .empty) (ids : List NodeId) :
    (r.highlight ids).Flags r ids := by
  refine ⟨?_, rfl, rfl⟩
  unfold highlight
  rw [List.forall₂_map_left_iff, List.forall₂_same]
  exact fun n hn => flags_problem (plain n hn) _

/-- A drawing with problematic nodes has the titles of the other, place by place. -/
theorem FlagsAt.title? {drawn : Rendering} {named : Nat → Prop} (h : drawn.FlagsAt r named) (i : Nat) :
    (drawn.nodes[i]?).map (·.title) = (r.nodes[i]?).map (·.title) := by
  by_cases place : i < r.nodes.length
  · have place' : i < drawn.nodes.length := h.length ▸ place
    have hn := List.getElem?_eq_getElem place
    have hd := List.getElem?_eq_getElem place'
    rw [hn, hd]
    exact congrArg some (h.nodes i _ _ hd hn).title
  · rw [List.getElem?_eq_none (Nat.le_of_not_lt place), List.getElem?_eq_none (h.length ▸ Nat.le_of_not_lt place)]

end Rendering

/-! ### Drawing -/

namespace Program
variable {p : Program} {r : Rendering} {n : DrawnNode} {i : Nat}

theorem render_of_inRange (h : p.InRange) :
    p.render = .ok ⟨p.nodes.zipIdx.map fun (op, i) => op.render i, p.edges, p.warnings⟩ := by
  unfold render
  rw [check_eq_ok_iff.mpr h]
  rfl

theorem not_inRange_iff :
    ¬ p.InRange ↔ ∃ e ∈ p.edges, p.nodeCount ≤ e.source.toNat ∨ p.nodeCount ≤ e.target.toNat := by
  simp only [InRange, not_forall, not_and_or, Nat.not_lt, exists_prop]

/-- A program with a dangling edge is not drawn, for the reason that its check gives. -/
theorem render_of_not_inRange (h : ¬ p.InRange) :
    ∃ d, p.check = .error (.dangling d) ∧ p.render = .error (.dangling d) := by
  have failed : p.check ≠ .ok () := fun passed => h (check_eq_ok_iff.mp passed)
  unfold render
  unfold check at failed ⊢
  cases hd : p.dangling? with
  | none =>
    rw [hd] at failed
    exact absurd rfl failed
  | some d => exact ⟨d, rfl, rfl⟩

theorem inRange_of_render (h : p.render = .ok r) : p.InRange := by
  refine Decidable.byContradiction fun dangling => ?_
  obtain ⟨d, -, failed⟩ := render_of_not_inRange dangling
  cases h.symm.trans failed

theorem render_nodes_getElem? (h : p.render = .ok r) (i : Nat) :
    r.nodes[i]? = p.nodes[i]?.map fun op => op.render i := by
  cases h.symm.trans (render_of_inRange (inRange_of_render h))
  rw [List.getElem?_map, List.getElem?_zipIdx, Option.map_map, Nat.zero_add]
  rfl

theorem exists_of_mem_render (h : p.render = .ok r) (hn : r.nodes[i]? = some n) :
    ∃ op, p.nodes[i]? = some op ∧ n = op.render i := by
  rw [render_nodes_getElem? h] at hn
  obtain ⟨op, hop, rfl⟩ := Option.map_eq_some_iff.mp hn
  exact ⟨op, hop, rfl⟩

theorem place_of_render (few : p.nodeCount ≤ UInt32.size) (h : p.render = .ok r) (hn : r.nodes[i]? = some n) :
    n.id.toNat = i := by
  obtain ⟨op, hop, rfl⟩ := exists_of_mem_render h hn
  exact toNat_place few hop

theorem kind_of_render (h : p.render = .ok r) (hn : n ∈ r.nodes) : n.kind = .input ∨ n.kind = .empty := by
  obtain ⟨i, hi⟩ := List.mem_iff_getElem?.mp hn
  obtain ⟨op, -, rfl⟩ := exists_of_mem_render h hi
  unfold Operation.render
  cases op.isInput
  · exact Or.inr rfl
  · exact Or.inl rfl

theorem edges_of_render (h : p.render = .ok r) : r.edges = p.edges := by
  cases h.symm.trans (render_of_inRange (inRange_of_render h))
  rfl

theorem warnings_of_render (h : p.render = .ok r) : r.warnings = p.warnings := by
  cases h.symm.trans (render_of_inRange (inRange_of_render h))
  rfl

theorem length_of_render (h : p.render = .ok r) : r.nodes.length = p.nodeCount := by
  cases h.symm.trans (render_of_inRange (inRange_of_render h))
  rw [List.length_map, List.length_zipIdx]
  rfl

/-- However large a program is, it is shown with the nodes at the places of its warnings problematic. -/
theorem flagsAt_markWarnings (h : p.render = .ok r) :
    r.markWarnings.FlagsAt r fun i => ∃ w ∈ p.warnings, w.node.toNat = i := by
  refine ⟨Rendering.length_mark r _, fun i d n hd hn => ?_, rfl, rfl⟩
  have marked : d = if ∃ id ∈ r.warnings.map (·.node), id.toNat = i then n.problem else n := by
    have at_place := Rendering.mark_nodes_getElem? r (r.warnings.map (·.node)) i
    rw [hn, Option.map_some] at at_place
    exact Option.some.inj (hd.symm.trans at_place)
  have named : (∃ id ∈ r.warnings.map (·.node), id.toNat = i) ↔ ∃ w ∈ p.warnings, w.node.toNat = i := by
    simp [warnings_of_render h]
  rw [marked, ← propext named]
  exact Rendering.flags_problem (kind_of_render h (List.mem_of_getElem? hn)) _

/-- A program is shown with the nodes of its warnings drawn as problematic. -/
theorem view_of_render (few : p.nodeCount ≤ UInt32.size) (h : p.render = .ok r) :
    p.view = .ok (r.highlight (p.warnings.map (·.node))) := by
  unfold view
  rw [h, ← Rendering.mark_eq_highlight (fun i n => place_of_render few h), ← warnings_of_render h]
  rfl

end Program

end CipherGraph
