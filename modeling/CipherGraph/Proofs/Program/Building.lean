import CipherGraph.Program.Builder
import CipherGraph.Proofs.Program.InRange

/-! # Programs that are built

An edge is appended exactly if it has no missing end, and a call that is refused changes nothing. So no call lets an
edge dangle where none did before, and none touches what is there: a program only grows at its ends (`Extends`). -/

namespace CipherGraph

namespace Program
variable {p q : Program} {e : Edge}

/-! ### One call -/

/-- An edge is appended unless an end of it is missing. -/
theorem addEdge_eq (p : Program) (e : Edge) :
    p.addEdge e = match e.missing? p.nodeCount with
      | some missing => .error (.nodeNotFound missing)
      | none => .ok ⟨p.nodes, p.edges ++ [e]⟩ := by
  unfold addEdge Edge.missing? contains
  by_cases source : e.source.toNat < p.nodeCount <;> by_cases target : e.target.toNat < p.nodeCount <;>
    simp [source, target, Nat.not_le.mpr, Nat.not_lt.mp]

theorem addEdge_eq_ok_iff :
    p.addEdge e = .ok q ↔
      (e.source.toNat < p.nodeCount ∧ e.target.toNat < p.nodeCount) ∧ q = ⟨p.nodes, p.edges ++ [e]⟩ := by
  rw [addEdge_eq, ← Edge.missing?_eq_none_iff]
  cases e.missing? p.nodeCount with
  | some missing => simp
  | none => simp [eq_comm]

/-- A call for an edge gives it a place at the end, or is refused for the end that is missing. -/
theorem build_edge (p : Program) (e : Edge) :
    p.build (.edge e) = match e.missing? p.nodeCount with
      | some missing => (.refused (.nodeNotFound missing), p)
      | none => (.joined, ⟨p.nodes, p.edges ++ [e]⟩) := by
  simp only [build, addEdge_eq]
  cases e.missing? p.nodeCount <;> rfl

/-- All that a call can do: append a node, append an edge between nodes, or nothing. -/
theorem build_cases (p : Program) (call : BuildCall) :
    (∃ op, call = .node op ∧ (p.build call).2 = ⟨p.nodes ++ [op], p.edges⟩) ∨
    (∃ e, call = .edge e ∧ (e.source.toNat < p.nodeCount ∧ e.target.toNat < p.nodeCount) ∧
      (p.build call).2 = ⟨p.nodes, p.edges ++ [e]⟩) ∨
    (p.build call).2 = p := by
  cases call with
  | node op => exact Or.inl ⟨op, rfl, rfl⟩
  | edge e =>
    rw [build_edge]
    cases h : e.missing? p.nodeCount with
    | some missing => exact Or.inr (Or.inr rfl)
    | none => exact Or.inr (Or.inl ⟨e, rfl, Edge.missing?_eq_none_iff.mp h, rfl⟩)

/-! ### What calls keep -/

/-- The program grew out of another: what was there has kept its place and its value. -/
structure Extends (q p : Program) : Prop where
  nodes : p.nodes <+: q.nodes
  edges : p.edges <+: q.edges

theorem Extends.refl (p : Program) : p.Extends p :=
  ⟨List.prefix_rfl, List.prefix_rfl⟩

theorem Extends.trans {r : Program} (h : r.Extends q) (h' : q.Extends p) : r.Extends p :=
  ⟨h'.nodes.trans h.nodes, h'.edges.trans h.edges⟩

@[simp] theorem nodeCount_addNode (p : Program) (op : Operation) : (p.addNode op).2.nodeCount = p.nodeCount + 1 :=
  List.length_append

theorem InRange.addNode (inRange : p.InRange) (op : Operation) : (p.addNode op).2.InRange := by
  intro e he
  obtain ⟨source, target⟩ := inRange e he
  rw [nodeCount_addNode]
  omega

theorem InRange.addEdge (inRange : p.InRange) (h : p.addEdge e = .ok q) : q.InRange := by
  obtain ⟨present, rfl⟩ := addEdge_eq_ok_iff.mp h
  exact List.forall_mem_append.mpr ⟨inRange, List.forall_mem_singleton.mpr present⟩

theorem extends_build (p : Program) (call : BuildCall) : (p.build call).2.Extends p := by
  rcases p.build_cases call with ⟨op, -, after⟩ | ⟨e, -, -, after⟩ | after
  all_goals rw [after]
  · exact ⟨List.prefix_append _ _, List.prefix_rfl⟩
  · exact ⟨List.prefix_rfl, List.prefix_append _ _⟩
  · exact .refl p

theorem InRange.build (inRange : p.InRange) (call : BuildCall) : (p.build call).2.InRange := by
  rcases p.build_cases call with ⟨op, -, after⟩ | ⟨e, -, present, after⟩ | after
  all_goals rw [after]
  · exact inRange.addNode op
  · exact inRange.addEdge (addEdge_eq_ok_iff.mpr ⟨present, rfl⟩)
  · exact inRange

theorem built_append (p : Program) (calls more : List BuildCall) :
    p.built (calls ++ more) = (p.built calls).built more :=
  List.foldl_append

theorem extends_built (p : Program) (calls : List BuildCall) : (p.built calls).Extends p := by
  induction calls generalizing p with
  | nil => exact .refl p
  | cons call rest ih => exact (ih (p.build call).2).trans (p.extends_build call)

theorem InRange.built (inRange : p.InRange) (calls : List BuildCall) : (p.built calls).InRange := by
  induction calls generalizing p with
  | nil => exact inRange
  | cons call rest ih => exact ih (inRange.build call)

/-! ### Runs of calls -/

/-- A place has a word of 32 bits that tells it exactly if it is one of the first 2 ^ 32. -/
theorem toNat_ofNat_eq_iff {n : Nat} : (UInt32.ofNat n).toNat = n ↔ n < UInt32.size := by
  rw [UInt32.toNat_ofNat']
  exact Nat.mod_eq_iff_lt (by decide)

/-- Whatever calls a builder gets, no edge dangles after any of them, and what was added stays where it is. At every
point an edge is appended exactly if both its ends are nodes; otherwise nothing changes and the first end that is missing
is reported. A new node is at the end, and its id tells that place as long as 32 bits can. -/
theorem built_inRange (p : Program) (inRange : p.InRange) (calls : List BuildCall) :
    let q := p.built calls
    (q.check = .ok () ∧ ∃ r, q.render = .ok r) ∧
    (∀ more, (p.built (calls ++ more)).Extends q) ∧
    (∀ e, ((q.build (.edge e)).1 = .joined ↔ e.source.toNat < q.nodeCount ∧ e.target.toNat < q.nodeCount) ∧
      ((q.build (.edge e)).1 = .joined → (q.build (.edge e)).2 = ⟨q.nodes, q.edges ++ [e]⟩) ∧
      (q.nodeCount ≤ e.source.toNat → q.build (.edge e) = (.refused (.nodeNotFound e.source), q)) ∧
      (e.source.toNat < q.nodeCount → q.nodeCount ≤ e.target.toNat →
        q.build (.edge e) = (.refused (.nodeNotFound e.target), q))) ∧
    ∀ op, ∃ id, q.build (.node op) = (.placed id, ⟨q.nodes ++ [op], q.edges⟩) ∧
      (id.toNat = q.nodeCount ↔ q.nodeCount < UInt32.size) := by
  intro q
  have kept : q.InRange := inRange.built calls
  refine ⟨⟨check_eq_ok_iff.mpr kept, kept.render⟩, fun more => ?_, fun e => ?_, fun op => ?_⟩
  · rw [built_append]
    exact extends_built _ more
  · rw [build_edge, ← Edge.missing?_eq_none_iff]
    refine ⟨?_, ?_, fun source => ?_, fun source target => ?_⟩
    · cases e.missing? q.nodeCount <;> simp
    · cases e.missing? q.nodeCount <;> simp
    · rw [Edge.missing?, if_pos source]
    · rw [Edge.missing?, if_neg (Nat.not_le.mpr source), if_pos target]
  · exact ⟨_, rfl, toNat_ofNat_eq_iff⟩

/-- On a lone input: a left operand for a node that is not there yet, the node, the same edge again, and an edge both of
whose ends are missing. -/
theorem retried_edge_built :
    let p : Program := ⟨[.input 3], []⟩
    let calls : List BuildCall := [.edge ⟨0, 1, .left⟩, .node .add, .edge ⟨0, 1, .left⟩, .edge ⟨7, 9, .unary⟩]
    p.InRange ∧ p.built calls = ⟨[.input 3, .add], [⟨0, 1, .left⟩]⟩ ∧ (p.built calls).check = .ok () ∧
      (p.built calls).Extends p ∧
      p.build (.edge ⟨0, 1, .left⟩) = (.refused (.nodeNotFound 1), p) ∧
      ((p.built calls).build (.edge ⟨1, 0, .unary⟩)).1 = .joined ∧
      (p.built calls).build (.edge ⟨7, 9, .unary⟩) = (.refused (.nodeNotFound 7), p.built calls) ∧
      ∃ id, (p.built calls).build (.node .output) = (.placed id, ⟨[.input 3, .add, .output], [⟨0, 1, .left⟩]⟩) ∧
        id.toNat = 2 := by
  intro p calls
  have inRange : p.InRange := by decide
  have after : p.built calls = ⟨[.input 3, .add], [⟨0, 1, .left⟩]⟩ := by decide
  obtain ⟨-, grows, early, -⟩ := built_inRange p inRange []
  obtain ⟨⟨checked, -⟩, -, edges, nodes⟩ := built_inRange p inRange calls
  obtain ⟨-, -, -, noTarget⟩ := early ⟨0, 1, .left⟩
  obtain ⟨joined, -⟩ := edges ⟨1, 0, .unary⟩
  obtain ⟨-, -, noSource, -⟩ := edges ⟨7, 9, .unary⟩
  obtain ⟨id, placed, place⟩ := nodes .output
  have few : (p.built calls).nodeCount < UInt32.size := by decide
  refine ⟨inRange, after, checked, grows calls, noTarget (by decide) (by decide), joined.mpr (by decide),
    noSource (by decide), id, ?_, place.mpr few⟩
  rw [placed, after]
  rfl

end Program

end CipherGraph
