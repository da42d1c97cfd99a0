import CipherGraph.Proofs.Program.Arity
import CipherGraph.Proofs.Program.Drawing

/-! # Marks on drawings

Marks are a set. Calls that mark ids come to one call with all these ids (`markAll_eq_mark`), and a call only asks of a
node whether its id is among them (`mark_eq_highlight`). So neither the order of the calls nor repeated ids count, and ids
that no node has do nothing. The ids in a drawing ascend, and so do those of the nodes that are marked. -/

namespace CipherGraph

/-! ### Calls in a row -/

namespace Rendering
variable {r : Rendering} {ids ids' : List NodeId}

/-- The rendering after some calls that mark ids. -/
def markAll (r : Rendering) (calls : List (List NodeId)) : Rendering :=
  calls.foldl mark r

theorem mark_append (r : Rendering) (ids more : List NodeId) : r.mark (ids ++ more) = (r.mark ids).mark more := by
  unfold mark
  rw [List.foldl_append]

theorem markAll_eq_mark (r : Rendering) (calls : List (List NodeId)) : r.markAll calls = r.mark calls.flatten := by
  induction calls generalizing r with
  | nil => rfl
  | cons ids rest ih =>
    rw [List.flatten_cons, mark_append]
    exact ih (r.mark ids)

theorem markAll_append (r : Rendering) (calls more : List (List NodeId)) :
    r.markAll (calls ++ more) = (r.markAll calls).markAll more :=
  List.foldl_append

/-! ### Highlighted nodes -/

/-- Ids that no node has do not count. -/
theorem highlight_congr (same : ∀ n ∈ r.nodes, (n.id ∈ ids ↔ n.id ∈ ids')) : r.highlight ids = r.highlight ids' := by
  have nodes : (r.highlight ids).nodes = (r.highlight ids').nodes :=
    List.map_congr_left fun n hn => by simp only [same n hn]
  show (⟨(r.highlight ids).nodes, r.edges, r.warnings⟩ : Rendering) = _
  rw [nodes]
  rfl

/-- Where no node was problematic, those with the ids that are highlighted are. -/
theorem problematic_highlight (plain : ∀ n ∈ r.nodes, n.kind = .input ∨ n.kind = .empty) (ids : List NodeId) :
    (r.highlight ids).problematic = (r.nodes.map (·.id)).filter (· ∈ ids) := by
  have flags : ∀ n ∈ r.nodes, (if n.id ∈ ids then n.problem else n).Flags n (n.id ∈ ids) :=
    fun n hn => flags_problem (plain n hn) _
  unfold problematic highlight
  rw [List.filter_map, List.map_map, List.filter_map]
  have kept : r.nodes.filter ((fun n => n.kind = .problematic) ∘ fun n => if n.id ∈ ids then n.problem else n) =
      r.nodes.filter ((fun id => decide (id ∈ ids)) ∘ fun n => n.id) :=
    List.filter_congr fun n hn => decide_eq_decide.mpr (flags n hn).flagged
  rw [kept]
  exact List.map_congr_left fun n hn => (flags n (List.mem_of_mem_filter hn)).id

end Rendering

/-! ### Ids in drawings -/

namespace Program
variable {p : Program} {r : Rendering} {id : NodeId}

theorem ids_of_render (h : p.render = .ok r) : r.nodes.map (·.id) = (List.range p.nodeCount).map UInt32.ofNat := by
  cases h.symm.trans (render_of_inRange (inRange_of_render h))
  rw [← places_eq_range, List.map_map, List.map_map]
  rfl

theorem pairwise_ids (few : p.nodeCount ≤ UInt32.size) (h : p.render = .ok r) :
    (r.nodes.map (·.id)).Pairwise (· < ·) := by
  rw [ids_of_render h, List.pairwise_map]
  refine List.pairwise_lt_range.imp_of_mem fun {i j} hi hj before => ?_
  rw [List.mem_range] at hi hj
  rw [UInt32.lt_iff_toNat_lt, UInt32.toNat_ofNat_of_lt' (Nat.lt_of_lt_of_le hi few),
    UInt32.toNat_ofNat_of_lt' (Nat.lt_of_lt_of_le hj few)]
  exact before

theorem mem_ids_iff (few : p.nodeCount ≤ UInt32.size) (h : p.render = .ok r) :
    id ∈ r.nodes.map (·.id) ↔ id.toNat < p.nodeCount := by
  rw [ids_of_render h, List.mem_map]
  constructor
  · rintro ⟨i, hi, rfl⟩
    rw [List.mem_range] at hi
    rwa [UInt32.toNat_ofNat_of_lt' (Nat.lt_of_lt_of_le hi few)]
  · exact fun place => ⟨id.toNat, List.mem_range.mpr place, UInt32.ofNat_toNat⟩

theorem markAll_of_render (few : p.nodeCount ≤ UInt32.size) (h : p.render = .ok r) (calls : List (List NodeId)) :
    r.markAll calls = r.highlight calls.flatten := by
  rw [Rendering.markAll_eq_mark, Rendering.mark_eq_highlight fun i n => place_of_render few h]

theorem problematic_markAll (few : p.nodeCount ≤ UInt32.size) (h : p.render = .ok r) (calls : List (List NodeId)) :
    (r.markAll calls).problematic = (r.nodes.map (·.id)).filter (· ∈ calls.flatten) := by
  rw [markAll_of_render few h, Rendering.problematic_highlight fun n => kind_of_render h]

/-- Calls with the same ids among those of the nodes have the same effect. -/
theorem markAll_congr (few : p.nodeCount ≤ UInt32.size) (h : p.render = .ok r) {calls calls' : List (List NodeId)}
    (same : ∀ id : NodeId, id.toNat < p.nodeCount → (id ∈ calls.flatten ↔ id ∈ calls'.flatten)) :
    r.markAll calls = r.markAll calls' := by
  rw [markAll_of_render few h, markAll_of_render few h]
  refine Rendering.highlight_congr fun n hn => same n.id ?_
  exact (mem_ids_iff few h).mp (List.mem_map_of_mem hn)

theorem mem_problematic_markAll_iff (few : p.nodeCount ≤ UInt32.size) (h : p.render = .ok r)
    {calls : List (List NodeId)} :
    id ∈ (r.markAll calls).problematic ↔ id.toNat < p.nodeCount ∧ ∃ ids ∈ calls, id ∈ ids := by
  rw [problematic_markAll few h, List.mem_filter, mem_ids_iff few h, decide_eq_true_iff, List.mem_flatten]

theorem pairwise_problematic_markAll (few : p.nodeCount ≤ UInt32.size) (h : p.render = .ok r)
    (calls : List (List NodeId)) : (r.markAll calls).problematic.Pairwise (· < ·) := by
  rw [problematic_markAll few h]
  exact (pairwise_ids few h).filter _

/-- However ids are marked in a drawing, in any number of calls and any order, with repeats and with ids that no node has,
the problematic nodes are listed in ascending order and are those with an id that was marked; nothing else changes. So only
the set of the ids counts that were marked and that nodes have. In particular the nodes of the warnings can be marked, each
of which is listed once then. -/
theorem marks_are_set (p : Program) (few : p.nodeCount ≤ UInt32.size) (r : Rendering) (h : p.render = .ok r) :
    (∀ calls : List (List NodeId),
      (r.markAll calls).problematic.Pairwise (· < ·) ∧
      (∀ id, id ∈ (r.markAll calls).problematic ↔ id.toNat < p.nodeCount ∧ ∃ ids ∈ calls, id ∈ ids) ∧
      (r.markAll calls).Flags r calls.flatten) ∧
    (∀ calls calls' : List (List NodeId),
      (∀ id : NodeId, id.toNat < p.nodeCount → ((∃ ids ∈ calls, id ∈ ids) ↔ ∃ ids ∈ calls', id ∈ ids)) →
        r.markAll calls = r.markAll calls') ∧
    (∀ (calls : List (List NodeId)) (ids ids' : List NodeId),
      ((r.markAll calls).mark ids).mark ids' = ((r.markAll calls).mark ids').mark ids ∧
        ((r.markAll calls).mark ids).mark ids = (r.markAll calls).mark ids) ∧
    r.markWarnings.problematic.Pairwise (· < ·) ∧
    ∀ id, id ∈ r.markWarnings.problematic ↔ ∃ w ∈ p.warnings, w.node = id := by
  have warned : r.markWarnings = r.markAll [p.warnings.map (·.node)] := by
    rw [← warnings_of_render h]
    rfl
  refine ⟨fun calls => ⟨pairwise_problematic_markAll few h calls, fun id => mem_problematic_markAll_iff few h, ?_⟩,
    fun calls calls' same => markAll_congr few h fun id place => ?_, fun calls ids ids' => ⟨?_, ?_⟩, ?_, fun id => ?_⟩
  · rw [markAll_of_render few h]
    exact Rendering.flags_highlight (fun n => kind_of_render h) _
  · rw [List.mem_flatten, List.mem_flatten]
    exact same id place
  · show (r.markAll calls).markAll [ids, ids'] = (r.markAll calls).markAll [ids', ids]
    rw [← Rendering.markAll_append, ← Rendering.markAll_append]
    refine markAll_congr few h fun id _ => ?_
    simp [or_comm]
  · show (r.markAll calls).markAll [ids, ids] = (r.markAll calls).markAll [ids]
    rw [← Rendering.markAll_append, ← Rendering.markAll_append]
    refine markAll_congr few h fun id _ => ?_
    simp
  · rw [warned]
    exact pairwise_problematic_markAll few h _
  · rw [warned, mem_problematic_markAll_iff few h]
    constructor
    · rintro ⟨-, ids, hids, hid⟩
      cases List.mem_singleton.mp hids
      exact List.mem_map.mp hid
    · rintro ⟨w, hw, rfl⟩
      exact ⟨toNat_node_lt few hw, _, List.mem_singleton_self _, List.mem_map_of_mem hw⟩

/-- A sum with two left operands and no right one, which is put out. -/
def twiceWarned : Program where
  nodes := [.input 4, .add, .output]
  edges := [⟨0, 1, .left⟩, ⟨0, 1, .left⟩, ⟨1, 2, .unary⟩]

/-- Marking the output twice and a node that is not there, and then the input, comes to marking the input and the output.
The sum has two warnings and is listed once for them. -/
theorem scattered_marks_are_set :
    twiceWarned.nodeCount ≤ UInt32.size ∧ ∃ r, twiceWarned.render = .ok r ∧
      ((r.markAll [[2, 9, 2], [0]]).problematic.Pairwise (· < ·) ∧ 0 ∈ (r.markAll [[2, 9, 2], [0]]).problematic ∧
        2 ∈ (r.markAll [[2, 9, 2], [0]]).problematic ∧ 9 ∉ (r.markAll [[2, 9, 2], [0]]).problematic) ∧
      r.markAll [[2, 9, 2], [0]] = r.markAll [[0, 2]] ∧
      twiceWarned.warnings = [.duplicate 1 .left 2, .missing 1 .right] ∧
      r.markWarnings.problematic.Pairwise (· < ·) ∧ 1 ∈ r.markWarnings.problematic ∧ 0 ∉ r.markWarnings.problematic := by
  have few : twiceWarned.nodeCount ≤ UInt32.size := by decide
  have inRange : twiceWarned.InRange := by decide
  obtain ⟨r, drawn⟩ := inRange.render
  obtain ⟨listed, same, -, warnedSorted, warned⟩ := marks_are_set twiceWarned few r drawn
  obtain ⟨sorted, marked, -⟩ := listed [[2, 9, 2], [0]]
  refine ⟨few, r, drawn, ⟨sorted, (marked 0).mpr (by decide), (marked 2).mpr (by decide), fun absent => ?_⟩, ?_, by decide,
    warnedSorted, (warned 1).mpr (by decide), fun unwarned => ?_⟩
  · have place := ((marked 9).mp absent).1
    exact absurd place (by decide)
  · refine same [[2, 9, 2], [0]] [[0, 2]] fun id place => ?_
    have present : id ≠ 9 := by
      rintro rfl
      exact absurd place (by decide)
    simp [present, or_comm]
  · exact absurd ((warned 0).mp unwarned) (by decide)

end Program

end CipherGraph
