import CipherGraph.Proofs.Program.Drawing
import CipherGraph.Proofs.Program.Neighbourhood

/-! # Programs that are refused

The check, the drawing, the graph and the neighbourhoods of a program all look at its edges in one way: they refuse it if
an edge dangles, and they give the first such edge as the reason. A node that does not exist has no neighbourhood in any
program, and is the reason before any edge is. -/

namespace CipherGraph

/-- The report is about the first edge of a program that dangles, and names the source of the edge if it is missing, and
otherwise the target. -/
structure DanglingEdge.IsFirstOf (d : DanglingEdge) (p : Program) : Prop where
  place : p.edges[d.position]? = some d.edge
  earlier : ∀ i < d.position, ∀ e : Edge, p.edges[i]? = some e →
    e.source.toNat < p.nodeCount ∧ e.target.toNat < p.nodeCount
  missing : (p.nodeCount ≤ d.edge.source.toNat ∧ d.missing = d.edge.source) ∨
    (d.edge.source.toNat < p.nodeCount ∧ p.nodeCount ≤ d.edge.target.toNat ∧ d.missing = d.edge.target)
  nodeCount : d.nodeCount = p.nodeCount

/-- The arc joins the places that the ends of an edge name, in the role of the edge. -/
structure Arc.Joins {n : Nat} (a : Arc n) (e : Edge) : Prop where
  source : a.source.val = e.source.toNat
  target : a.target.val = e.target.toNat
  role : a.role = e.role

/-- The graph has the operations of a program in order, and an arc for every edge, in order. -/
structure Digraph.Mirrors (g : Digraph) (p : Program) : Prop where
  nodes : g.nodes = p.nodes
  arcs : List.Forall₂ Arc.Joins g.arcs p.edges

theorem Edge.missing?_eq_some_iff {e : Edge} {n : Nat} {id : NodeId} :
    e.missing? n = some id ↔
      (n ≤ e.source.toNat ∧ id = e.source) ∨ (e.source.toNat < n ∧ n ≤ e.target.toNat ∧ id = e.target) := by
  unfold missing?
  by_cases source : n ≤ e.source.toNat
  · simp [source, Nat.not_lt.mpr source, eq_comm]
  · by_cases target : n ≤ e.target.toNat <;> simp [source, target, Nat.not_le.mp source, eq_comm]

/-- The arcs of edges that do not dangle, one for each. -/
theorem Edge.forall₂_arcs {n : Nat} {edges : List Edge}
    (inRange : ∀ e ∈ edges, e.source.toNat < n ∧ e.target.toNat < n) :
    List.Forall₂ Arc.Joins (edges.filterMap (·.toArc? n)) edges := by
  induction edges with
  | nil => exact .nil
  | cons e rest ih =>
    obtain ⟨first, later⟩ := List.forall_mem_cons.mp inRange
    obtain ⟨a, ha⟩ := exists_toArc? first
    obtain ⟨source, target, role⟩ := of_toArc? ha
    have arcs : (e :: rest).filterMap (·.toArc? n) = a :: rest.filterMap (·.toArc? n) := List.filterMap_cons_some ha
    rw [arcs]
    exact .cons ⟨source, target, role⟩ (ih later)

namespace Program
variable {p : Program} {d : DanglingEdge} {id : NodeId} {op : Operation} {failure : ProgramError}

/-! ### The edge that is reported -/

/-- The edge that is found dangles, and none of those before it does. -/
theorem of_firstDangling {n position : Nat} {edges : List Edge} (h : firstDangling n position edges = some d) :
    ∃ i, d.position = position + i ∧ edges[i]? = some d.edge ∧
      (∀ j < i, ∀ e : Edge, edges[j]? = some e → e.missing? n = none) ∧
      d.edge.missing? n = some d.missing ∧ d.nodeCount = n := by
  induction edges generalizing position with
  | nil => cases h
  | cons e rest ih =>
    rw [firstDangling] at h
    cases here : e.missing? n with
    | some missing =>
      rw [here] at h
      cases h
      exact ⟨0, rfl, rfl, fun j before => absurd before (Nat.not_lt_zero j), here, rfl⟩
    | none =>
      rw [here] at h
      obtain ⟨i, place, found, earlier, missing, count⟩ := ih h
      refine ⟨i + 1, by omega, found, fun j before e' he' => ?_, missing, count⟩
      cases j with
      | zero =>
        cases he'
        exact here
      | succ j => exact earlier j (Nat.lt_of_succ_lt_succ before) e' he'

/-- The reason for which a check fails is the first edge that dangles. -/
theorem isFirstOf_of_check (h : p.check = .error (.dangling d)) : d.IsFirstOf p := by
  unfold check dangling? at h
  cases hd : firstDangling p.nodeCount 0 p.edges with
  | none =>
    rw [hd] at h
    cases h
  | some d' =>
    rw [hd] at h
    cases h
    obtain ⟨i, position, place, earlier, missing, count⟩ := of_firstDangling hd
    rw [Nat.zero_add] at position
    subst position
    exact ⟨place, fun j before e he => Edge.missing?_eq_none_iff.mp (earlier j before e he),
      Edge.missing?_eq_some_iff.mp missing, count⟩

/-! ### Those that refuse -/

theorem toDigraph_of_check (h : p.check = .error failure) : p.toDigraph = .error failure := by
  unfold toDigraph
  rw [h]
  rfl

theorem neighbourhood_of_check (h : p.check = .error failure) (hop : p.node? id = some op) :
    p.neighbourhood id = .error failure := by
  unfold neighbourhood
  rw [hop, toDigraph_of_check h]
  rfl

theorem neighbourhood_of_absent (absent : p.nodeCount ≤ id.toNat) : p.neighbourhood id = .error (.nodeNotFound id) := by
  have none : p.node? id = none := List.getElem?_eq_none absent
  unfold neighbourhood
  rw [none]

/-- A program is accepted by all that look at its edges, or refused by all of them for its first edge that dangles. A node
that does not exist has no neighbourhood, whatever the edges are. -/
theorem refused_alike (p : Program) :
    (p.InRange → p.check = .ok () ∧ (∃ r, p.render = .ok r) ∧ (∃ g, p.toDigraph = .ok g ∧ g.Mirrors p) ∧
      ∀ id, id.toNat < p.nodeCount → ∃ h, p.neighbourhood id = .ok h) ∧
    ((∃ e ∈ p.edges, p.nodeCount ≤ e.source.toNat ∨ p.nodeCount ≤ e.target.toNat) →
      ∃ d : DanglingEdge, d.IsFirstOf p ∧
        d.message = "edge " ++ toString d.position ++ " (" ++ toString d.edge.source.toNat ++ " -> " ++
          toString d.edge.target.toNat ++ ") references node " ++ toString d.missing.toNat ++
          ", but the graph has " ++ toString p.nodeCount ++ " nodes" ∧
        p.check = .error (.dangling d) ∧ p.render = .error (.dangling d) ∧ p.toDigraph = .error (.dangling d) ∧
        ∀ id, id.toNat < p.nodeCount → p.neighbourhood id = .error (.dangling d)) ∧
    ∀ id, p.nodeCount ≤ id.toNat → p.neighbourhood id = .error (.nodeNotFound id) := by
  refine ⟨fun inRange => ?_, fun outside => ?_, fun id => neighbourhood_of_absent⟩
  · refine ⟨check_eq_ok_iff.mpr inRange, inRange.render, ⟨_, inRange.toDigraph, rfl, Edge.forall₂_arcs inRange⟩, ?_⟩
    intro id place
    obtain ⟨op, hop⟩ := exists_node? place
    obtain ⟨h, found, -⟩ := inRange.surrounds hop
    exact ⟨h, found⟩
  · obtain ⟨d, failed, undrawn⟩ := render_of_not_inRange (not_inRange_iff.mpr outside)
    have first := isFirstOf_of_check failed
    refine ⟨d, first, ?_, failed, undrawn, toDigraph_of_check failed, fun id place => ?_⟩
    · unfold DanglingEdge.message
      rw [first.nodeCount]
    · obtain ⟨op, hop⟩ := exists_node? place
      exact neighbourhood_of_check failed hop

/-- Two nodes, with one edge between them and three that dangle: the first of these at its target, the others at their
source. -/
def overshot : Program where
  nodes := [.input 0, .add]
  edges := [⟨0, 1, .left⟩, ⟨1, 7, .right⟩, ⟨9, 0, .unary⟩, ⟨5, 6, .left⟩]

/-- All refuse it for the edge at position 1, but a node that does not exist is reported as such. Without that edge the
reason is the source of the next one, and without any edge that dangles all accept it. -/
theorem overshot_refused_alike :
    let later : Program := ⟨overshot.nodes, [⟨0, 1, .left⟩, ⟨5, 6, .left⟩]⟩
    let sound : Program := ⟨overshot.nodes, [⟨0, 1, .left⟩]⟩
    (overshot.render = .error (.dangling ⟨1, ⟨1, 7, .right⟩, 7, 2⟩) ∧
      overshot.toDigraph = .error (.dangling ⟨1, ⟨1, 7, .right⟩, 7, 2⟩) ∧
      overshot.neighbourhood 0 = .error (.dangling ⟨1, ⟨1, 7, .right⟩, 7, 2⟩) ∧
      overshot.neighbourhood 7 = .error (.nodeNotFound 7)) ∧
    later.neighbourhood 1 = .error (.dangling ⟨1, ⟨5, 6, .left⟩, 5, 2⟩) ∧
    sound.InRange ∧ (∃ g, sound.toDigraph = .ok g ∧ g.Mirrors sound) ∧ ∃ h, sound.neighbourhood 1 = .ok h := by
  intro later sound
  have checked : overshot.check = .error (.dangling ⟨1, ⟨1, 7, .right⟩, 7, 2⟩) := rfl
  have checkedLater : later.check = .error (.dangling ⟨1, ⟨5, 6, .left⟩, 5, 2⟩) := rfl
  have inRange : sound.InRange := by decide
  obtain ⟨-, refused, absent⟩ := refused_alike overshot
  obtain ⟨d, -, -, failed, drawn, viewed, around⟩ := refused (by decide)
  cases checked.symm.trans failed
  obtain ⟨-, refusedLater, -⟩ := refused_alike later
  obtain ⟨d, -, -, failed, -, -, aroundLater⟩ := refusedLater (by decide)
  cases checkedLater.symm.trans failed
  obtain ⟨accepted, -⟩ := refused_alike sound
  obtain ⟨-, -, viewedSound, aroundSound⟩ := accepted inRange
  exact ⟨⟨drawn, viewed, around 0 (by decide), absent 7 (by decide)⟩, aroundLater 1 (by decide), inRange, viewedSound,
    aroundSound 1 (by decide)⟩

end Program

end CipherGraph
