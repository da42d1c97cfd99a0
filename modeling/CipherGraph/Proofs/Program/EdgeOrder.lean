import CipherGraph.Proofs.Program.Drawing
import CipherGraph.Proofs.Program.Neighbourhood

/-! # The order of edges

A program means the same in whatever order its edges are listed, and its warnings do not even depend on the edges that
dangle. What arrives at an inlet is counted, and a count does not see the order of what it counts
(`operandCount_of_perm`). A neighbourhood is determined by what it lists, since there is one order to list it in
(`Surrounds.unique`). -/

namespace CipherGraph

/-- The edges that do not dangle. -/
def Program.edgesInRange (p : Program) : List Edge :=
  p.edges.filter fun e => p.contains e.source && p.contains e.target

namespace Program
variable {p q : Program} {i : Nat} {op : Operation}

/-! ### Warnings -/

/-- What arrives at a node arrives over edges that do not dangle. -/
theorem operandCount_eq_countP (hi : i < p.nodeCount) (r : Role) :
    p.operandCount i r = p.edgesInRange.countP (·.feeds p.nodeCount i r) := by
  unfold operandCount edgesInRange
  rw [List.countP_filter]
  refine List.countP_congr fun e _ => ?_
  simp only [Edge.feeds, contains, Bool.and_eq_true, decide_eq_true_eq]
  constructor
  · rintro ⟨⟨source, rfl⟩, role⟩
    exact ⟨⟨⟨source, rfl⟩, role⟩, source, hi⟩
  · exact fun h => h.1

theorem operandCount_of_perm (nodes : p.nodes = q.nodes) (edges : p.edgesInRange.Perm q.edgesInRange)
    (hi : i < p.nodeCount) (r : Role) : p.operandCount i r = q.operandCount i r := by
  have count : p.nodeCount = q.nodeCount := congrArg List.length nodes
  rw [operandCount_eq_countP hi, operandCount_eq_countP (count ▸ hi), count, edges.countP_eq]

theorem warnings_of_perm (nodes : p.nodes = q.nodes) (edges : p.edgesInRange.Perm q.edgesInRange) :
    p.warnings = q.warnings := by
  rw [warnings_eq, warnings_eq, ← nodes]
  refine List.flatMap_congr fun ⟨op, i⟩ he => ?_
  have place : i < p.nodeCount := (List.getElem?_eq_some_iff.mp (List.mk_mem_zipIdx_iff_getElem?.mp he)).1
  simp only [verdicts, operandCount_of_perm nodes edges place]

theorem node?_of_nodes_eq (nodes : p.nodes = q.nodes) (id : NodeId) : p.node? id = q.node? id :=
  congrArg (·[id.toNat]?) nodes

theorem InRange.edgesInRange (inRange : p.InRange) : p.edgesInRange = p.edges := by
  refine List.filter_eq_self.mpr fun e he => ?_
  simpa [contains] using inRange e he

end Program

/-! ### Neighbourhoods -/

/-- There is one way to tell what surrounds a node. -/
theorem Neighbourhood.Surrounds.unique {h h' : Neighbourhood} {p q : Program} {id : NodeId}
    (surrounds : h.Surrounds p id) (surrounds' : h'.Surrounds q id) (nodes : p.nodes = q.nodes)
    (edges : p.edges.Perm q.edges) : h = h' := by
  have node : h.node = h'.node := surrounds.node.trans surrounds'.node.symm
  have operation : h.operation = h'.operation := by
    have same := Program.node?_of_nodes_eq nodes id
    exact Option.some.inj (surrounds.operation.symm.trans (same.trans surrounds'.operation))
  have operands : h.operands = h'.operands := by
    have arrived := (edges.filter fun e => e.target = id).map fun e => (⟨e.source, e.role⟩ : Neighbour)
    exact ((surrounds.operands.trans arrived).trans surrounds'.operands.symm).eq_of_pairwise
      (fun a b _ _ => Neighbour.RoleFirst.antisymm) surrounds.operands_sorted surrounds'.operands_sorted
  have consumers : h.consumers = h'.consumers := by
    have left := (edges.filter fun e => e.source = id).map fun e => (⟨e.target, e.role⟩ : Neighbour)
    exact ((surrounds.consumers.trans left).trans surrounds'.consumers.symm).eq_of_pairwise
      (fun a b _ _ => Neighbour.NodeFirst.antisymm) surrounds.consumers_sorted surrounds'.consumers_sorted
  show (⟨h.node, h.operation, h.operands, h.consumers⟩ : Neighbourhood) = h'
  rw [node, operation, operands, consumers]

namespace Program
variable {p q : Program}

theorem neighbourhood_of_perm (inRange : p.InRange) (inRange' : q.InRange) (nodes : p.nodes = q.nodes)
    (edges : p.edges.Perm q.edges) (id : NodeId) : p.neighbourhood id = q.neighbourhood id := by
  have same := node?_of_nodes_eq nodes id
  cases hop : p.node? id with
  | none =>
    unfold Program.neighbourhood
    rw [← same, hop]
  | some op =>
    obtain ⟨h, found, -, surrounds⟩ := inRange.surrounds hop
    obtain ⟨h', found', -, surrounds'⟩ := inRange'.surrounds (same ▸ hop)
    rw [found, found', surrounds.unique surrounds' nodes edges]

/-- The same nodes with the same edges in another order, dangling edges aside, have the same warnings. If no edge dangles,
the neighbourhoods are the same too, and the drawings are but for the order of their edges. -/
theorem diagnosis_of_perm (p q : Program) (nodes : p.nodes = q.nodes) (edges : p.edgesInRange.Perm q.edgesInRange) :
    p.warnings = q.warnings ∧
    (p.InRange → q.InRange →
      (∀ id, p.neighbourhood id = q.neighbourhood id) ∧
      ∃ r r', p.render = .ok r ∧ q.render = .ok r' ∧
        r.nodes = r'.nodes ∧ r.warnings = r'.warnings ∧ r.edges.Perm r'.edges) := by
  have warnings := warnings_of_perm nodes edges
  refine ⟨warnings, fun inRange inRange' => ?_⟩
  rw [inRange.edgesInRange, inRange'.edgesInRange] at edges
  refine ⟨neighbourhood_of_perm inRange inRange' nodes edges, _, _, render_of_inRange inRange,
    render_of_inRange inRange', ?_, warnings, edges⟩
  rw [nodes]

/-- A sum that gets two left operands, its edges in two orders, with another edge among them that dangles. The warnings are
the same, and without the edges that dangle so is all else that the two show. -/
theorem shuffled_sum_diagnosed :
    let nodes : List Operation := [.input 0, .add, .relinearize]
    let p : Program := ⟨nodes, [⟨0, 1, .left⟩, ⟨9, 1, .right⟩, ⟨2, 1, .left⟩, ⟨1, 2, .unary⟩]⟩
    let q : Program := ⟨nodes, [⟨1, 2, .unary⟩, ⟨2, 1, .left⟩, ⟨0, 7, .unary⟩, ⟨0, 1, .left⟩]⟩
    let p' : Program := ⟨nodes, p.edgesInRange⟩
    let q' : Program := ⟨nodes, q.edgesInRange⟩
    p.edgesInRange.Perm q.edgesInRange ∧ p.edgesInRange ≠ q.edgesInRange ∧ p.warnings = q.warnings ∧
      p.warnings = [.duplicate 1 .left 2, .missing 1 .right] ∧
      p'.InRange ∧ q'.InRange ∧ (∀ id, p'.neighbourhood id = q'.neighbourhood id) ∧
      ∃ r r', p'.render = .ok r ∧ q'.render = .ok r' ∧ r.nodes = r'.nodes ∧ r.warnings = r'.warnings ∧
        r.edges.Perm r'.edges := by
  intro nodes p q p' q'
  have edges : p.edgesInRange.Perm q.edgesInRange := by decide
  have inRange : p'.InRange := by decide
  have inRange' : q'.InRange := by decide
  obtain ⟨warnings, -⟩ := diagnosis_of_perm p q rfl edges
  obtain ⟨-, shown⟩ := diagnosis_of_perm p' q' rfl (by decide)
  exact ⟨edges, by decide, warnings, by decide, inRange, inRange', shown inRange inRange'⟩

end Program

end CipherGraph
