import CipherGraph.Proofs.Program.Accounts
import CipherGraph.Proofs.Program.Drawing
import CipherGraph.Proofs.Program.Locality
import Mathlib.Logic.Relation

/-! # Programs built gate by gate

The node of a gate is flawed when it is added, for it lacks all its operands; every edge that follows takes one warning
away, and with the last of them the program is as sound as it was before the gate (`Assembled.addGate`). Operands come
from earlier nodes, so that edges lead forward and no node depends on itself. -/

namespace CipherGraph

/-- The operands of the gate come from some of the first `n` nodes. -/
def Gate.DrawsFrom (g : Gate) (n : Nat) : Prop :=
  ∀ r ∈ g.operation.roles, (g.source r).toNat < n

namespace Program
variable {p : Program} {g : Gate}

/-- The value of one node is an operand of the other. -/
def Supplies (p : Program) (source target : NodeId) : Prop :=
  ∃ r, ⟨source, target, r⟩ ∈ p.edges

/-- No node depends on its own value. -/
def Acyclic (p : Program) : Prop :=
  ∀ id, ¬ Relation.TransGen p.Supplies id id

/-- A program as it is between two gates. -/
structure Assembled (p : Program) : Prop where
  inRange : p.InRange
  unwarned : p.warnings = []
  forward : ∀ e ∈ p.edges, e.source.toNat < e.target.toNat

theorem acyclic_of_forward (forward : ∀ e ∈ p.edges, e.source.toNat < e.target.toNat) : p.Acyclic := by
  have later : ∀ a b, Relation.TransGen p.Supplies a b → a.toNat < b.toNat := by
    intro a b path
    induction path with
    | single edge =>
      obtain ⟨r, edge⟩ := edge
      exact forward _ edge
    | tail _ edge ih =>
      obtain ⟨r, edge⟩ := edge
      exact Nat.lt_trans ih (forward _ edge)
  exact fun id cycle => Nat.lt_irrefl _ (later id id cycle)

/-- The operands of a node that lacks them all, one after the other. -/
theorem InRange.addOperands (inRange : p.InRange) (few : p.nodeCount ≤ UInt32.size) {id : NodeId}
    (target : id.toNat < p.nodeCount) {roles : List Role} {source : Role → NodeId}
    (sources : ∀ r ∈ roles, (source r).toNat < p.nodeCount) (lacking : p.warnings = roles.map (.missing id)) :
    ∃ q, roles.foldlM (fun q r => q.addEdge ⟨source r, id, r⟩) p = .ok q ∧ q.nodes = p.nodes ∧
      q.edges = p.edges ++ roles.map (fun r => ⟨source r, id, r⟩) ∧ q.InRange ∧ q.warnings = [] := by
  -- The operands that are still to come are those that the warnings tell, and no other warning is left.
  induction roles generalizing p with
  | nil => exact ⟨p, rfl, rfl, (List.append_nil _).symm, inRange, lacking⟩
  | cons r rest ih =>
    obtain ⟨first, later⟩ := List.forall_mem_cons.mp sources
    let q : Program := ⟨p.nodes, p.edges ++ [⟨source r, id, r⟩]⟩
    have joined : p.addEdge ⟨source r, id, r⟩ = .ok q := addEdge_eq_ok_iff.mpr ⟨⟨first, target⟩, rfl⟩
    have fewer : q.warnings = rest.map (.missing id) := warnings_addEdge_of_missing few joined lacking
    obtain ⟨q', done, nodes, edges, inRange', unwarned⟩ := ih (inRange.addEdge joined) few target later fewer
    refine ⟨q', ?_, nodes, ?_, inRange', unwarned⟩
    · rw [List.foldlM_cons, joined]
      exact done
    · rw [edges, List.map_cons, List.append_assoc]
      rfl

/-- A gate with operands from earlier nodes can be added, and the program is sound again after it. -/
theorem Assembled.addGate (h : p.Assembled) (few : p.nodeCount < UInt32.size) (draws : g.DrawsFrom p.nodeCount) :
    ∃ q, p.addGate g = .ok q ∧ q.nodes = p.nodes ++ [g.operation] ∧ q.Assembled := by
  have place : (p.addNode g.operation).1.toNat = p.nodeCount := toNat_ofNat_eq_iff.mpr few
  have grown := p.nodeCount_addNode g.operation
  have lacking := h.inRange.warnings_addNode g.operation
  rw [h.unwarned, List.nil_append] at lacking
  have target : (p.addNode g.operation).1.toNat < (p.addNode g.operation).2.nodeCount := by omega
  have sources : ∀ r ∈ g.operation.roles, (g.source r).toNat < (p.addNode g.operation).2.nodeCount :=
    fun r hr => grown ▸ Nat.lt_succ_of_lt (draws r hr)
  obtain ⟨q, done, nodes, edges, inRange, unwarned⟩ :=
    (h.inRange.addNode g.operation).addOperands (grown ▸ few) target sources lacking
  refine ⟨q, done, nodes, inRange, unwarned, fun e he => ?_⟩
  rw [edges, List.mem_append] at he
  rcases he with old | new
  · exact h.forward e old
  · obtain ⟨r, hr, rfl⟩ := List.mem_map.mp new
    exact place.symm ▸ draws r hr

theorem Assembled.addGates {gates : List Gate} (h : p.Assembled) (few : p.nodeCount + gates.length ≤ UInt32.size)
    (draws : ∀ i (g : Gate), gates[i]? = some g → g.DrawsFrom (p.nodeCount + i)) :
    ∃ q, p.addGates gates = .ok q ∧ q.nodes = p.nodes ++ gates.map (·.operation) ∧ q.Assembled := by
  induction gates generalizing p with
  | nil => exact ⟨p, rfl, (List.append_nil _).symm, h⟩
  | cons g rest ih =>
    rw [List.length_cons] at few
    obtain ⟨q, added, nodes, assembled⟩ := h.addGate (by omega) (draws 0 g rfl)
    have grown : q.nodeCount = p.nodeCount + 1 := by
      unfold nodeCount
      rw [nodes]
      exact List.length_append
    have later : ∀ i (g' : Gate), rest[i]? = some g' → g'.DrawsFrom (q.nodeCount + i) := by
      intro i g' hg
      have shifted := draws (i + 1) g' hg
      rwa [Nat.add_comm i, ← Nat.add_assoc, ← grown] at shifted
    obtain ⟨q', done, nodes', assembled'⟩ := ih assembled (by omega) later
    refine ⟨q', ?_, ?_, assembled'⟩
    · unfold Program.addGates at done ⊢
      rw [List.foldlM_cons, added]
      exact done
    · rw [nodes', nodes, List.append_assoc]
      rfl

theorem problematic_of_render {r : Rendering} (h : p.render = .ok r) : r.problematic = [] := by
  unfold Rendering.problematic
  rw [List.map_eq_nil_iff, List.filter_eq_nil_iff]
  intro n hn problematic
  rcases kind_of_render h hn with kind | kind <;> simp [kind] at problematic

/-- Gates that draw their operands from earlier gates can be added one after the other, whatever they are. The program
that they make has nothing wrong with it, no edges but those that are due, and no cycle. -/
theorem gates_assembled (gates : List Gate) (few : gates.length ≤ UInt32.size)
    (draws : ∀ i (g : Gate), gates[i]? = some g → g.DrawsFrom i) :
    ∃ p r, addGates {} gates = .ok p ∧ p.nodes = gates.map (·.operation) ∧ p.check = .ok () ∧ p.warnings = [] ∧
      p.render = .ok r ∧ r.warnings = [] ∧ r.problematic = [] ∧
      p.edgeCount = (gates.map (·.operation.roles.length)).sum ∧
      (∀ e ∈ p.edges, e.source.toNat < e.target.toNat) ∧ p.Acyclic := by
  have start : Assembled {} := ⟨List.forall_mem_nil _, rfl, List.forall_mem_nil _⟩
  have few' : nodeCount {} + gates.length ≤ UInt32.size := (Nat.zero_add _).symm ▸ few
  obtain ⟨p, built, nodes, sound⟩ := start.addGates few' fun i g hg => (Nat.zero_add i).symm ▸ draws i g hg
  obtain ⟨r, drawn⟩ := sound.inRange.render
  have edgeCount := sound.inRange.edgeCount_eq sound.unwarned
  rw [nodes, List.nil_append, List.map_map] at edgeCount
  exact ⟨p, r, built, nodes, check_eq_ok_iff.mpr sound.inRange, sound.unwarned, drawn,
    (warnings_of_render drawn).trans sound.unwarned, problematic_of_render drawn, edgeCount, sound.forward,
    acyclic_of_forward sound.forward⟩

/-- A product of one value with itself, put out, and a sum that takes what was put out as an operand. -/
theorem reused_output_assembled :
    let gates : List Gate := [⟨.input 0, fun _ => 0⟩, ⟨.relinearize, fun _ => 0⟩, ⟨.multiply, fun _ => 1⟩,
      ⟨.output, fun _ => 2⟩, ⟨.add, fun r => if r = .left then 3 else 1⟩]
    let p : Program := ⟨[.input 0, .relinearize, .multiply, .output, .add], [⟨0, 1, .unary⟩, ⟨1, 2, .left⟩,
      ⟨1, 2, .right⟩, ⟨2, 3, .unary⟩, ⟨3, 4, .left⟩, ⟨1, 4, .right⟩]⟩
    gates.length ≤ UInt32.size ∧ (∀ i (g : Gate), gates[i]? = some g → g.DrawsFrom i) ∧ addGates {} gates = .ok p ∧
      p.warnings = [] ∧ (∃ r, p.render = .ok r ∧ r.problematic = []) ∧ p.edgeCount = 0 + 1 + 2 + 1 + 2 ∧ p.Acyclic := by
  intro gates p
  have few : gates.length ≤ UInt32.size := by decide
  have earlier : ∀ x ∈ gates.zipIdx, ∀ r ∈ x.1.operation.roles, (x.1.source r).toNat < x.2 := by decide
  have draws : ∀ i (g : Gate), gates[i]? = some g → g.DrawsFrom i :=
    fun i g hg => earlier (g, i) (List.mk_mem_zipIdx_iff_getElem?.mpr hg)
  have built : addGates {} gates = .ok p := by decide
  obtain ⟨p', r, built', -, -, unwarned, drawn, -, unmarked, edgeCount, -, acyclic⟩ := gates_assembled gates few draws
  cases built.symm.trans built'
  exact ⟨few, draws, built, unwarned, ⟨r, drawn, unmarked⟩, edgeCount, acyclic⟩

end Program

end CipherGraph
