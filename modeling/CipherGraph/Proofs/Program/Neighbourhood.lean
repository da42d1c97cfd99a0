import CipherGraph.Proofs.Program.Arity
import CipherGraph.Proofs.Program.InRange
import Mathlib.Data.List.Sort

/-! # Neighbourhoods

Where no edge dangles, every node has a neighbourhood. It lists the edges that end in the node and those that begin at
it, each of them as often as the program has it, and in order (`InRange.surrounds`). So the roles of the operands in it
are what the arity rule counts, and the warnings about a node can be read off them. -/

namespace CipherGraph

/-! ### Order of neighbours -/

namespace Neighbour
variable {a b : Neighbour}

theorem byRole_iff_rank :
    a.byRole b = true ↔ a.role.rank < b.role.rank ∨ a.role.rank = b.role.rank ∧ a.node.toNat ≤ b.node.toNat := by
  have roles : a.role.rank = b.role.rank ↔ a.role = b.role := ⟨Role.rank_injective, congrArg Role.rank⟩
  simp [byRole, roles, UInt32.le_iff_toNat_le]

theorem byNode_iff_rank :
    a.byNode b = true ↔ a.node.toNat < b.node.toNat ∨ a.node.toNat = b.node.toNat ∧ a.role.rank ≤ b.role.rank := by
  simp [byNode, UInt32.lt_iff_toNat_lt, UInt32.toNat_inj]

theorem byRole_trans (a b c : Neighbour) (hab : a.byRole b = true) (hbc : b.byRole c = true) : a.byRole c = true := by
  rw [byRole_iff_rank] at hab hbc ⊢
  omega

theorem byRole_total (a b : Neighbour) : (a.byRole b || b.byRole a) = true := by
  rw [Bool.or_eq_true, byRole_iff_rank, byRole_iff_rank]
  omega

theorem byNode_trans (a b c : Neighbour) (hab : a.byNode b = true) (hbc : b.byNode c = true) : a.byNode c = true := by
  rw [byNode_iff_rank] at hab hbc ⊢
  omega

theorem byNode_total (a b : Neighbour) : (a.byNode b || b.byNode a) = true := by
  rw [Bool.or_eq_true, byNode_iff_rank, byNode_iff_rank]
  omega

/-- The order of operands: by role, then by node. -/
def RoleFirst (a b : Neighbour) : Prop :=
  a.role.rank < b.role.rank ∨ a.role = b.role ∧ a.node ≤ b.node

/-- The order of consumers: by node, then by role. -/
def NodeFirst (a b : Neighbour) : Prop :=
  a.node < b.node ∨ a.node = b.node ∧ a.role.rank ≤ b.role.rank

theorem RoleFirst.of_byRole (h : a.byRole b = true) : a.RoleFirst b := by
  simpa [byRole, RoleFirst] using h

theorem NodeFirst.of_byNode (h : a.byNode b = true) : a.NodeFirst b := by
  simpa [byNode, NodeFirst] using h

theorem RoleFirst.antisymm (h : a.RoleFirst b) (h' : b.RoleFirst a) : a = b := by
  obtain ⟨node, role⟩ := a
  obtain ⟨node', role'⟩ := b
  rcases h with before | ⟨rfl, le⟩ <;> rcases h' with before' | ⟨same, le'⟩
  · exact absurd before (Nat.lt_asymm before')
  · exact absurd (congrArg Role.rank same) (Nat.ne_of_gt before)
  · exact absurd before' (Nat.lt_irrefl _)
  · exact congrArg (Neighbour.mk · role) (UInt32.le_antisymm le le')

theorem NodeFirst.antisymm (h : a.NodeFirst b) (h' : b.NodeFirst a) : a = b := by
  obtain ⟨node, role⟩ := a
  obtain ⟨node', role'⟩ := b
  rcases h with before | ⟨rfl, le⟩ <;> rcases h' with before' | ⟨same, le'⟩
  · exact absurd before (UInt32.lt_asymm before')
  · exact absurd same (UInt32.ne_of_lt before).symm
  · exact absurd before' (UInt32.lt_irrefl _)
  · exact congrArg (Neighbour.mk node) (Role.rank_injective (Nat.le_antisymm le le'))

theorem RoleFirst.rank_le (h : a.RoleFirst b) : a.role.rank ≤ b.role.rank := by
  rcases h with before | ⟨same, -⟩
  · exact Nat.le_of_lt before
  · exact Nat.le_of_eq (congrArg Role.rank same)

end Neighbour

/-! ### What surrounds a node -/

/-- A neighbourhood tells what surrounds a node: the sources of the edges that end in it, and the targets of those that
begin at it. -/
structure Neighbourhood.Surrounds (h : Neighbourhood) (p : Program) (id : NodeId) : Prop where
  node : h.node = id
  operation : p.node? id = some h.operation
  operands : h.operands.Perm ((p.edges.filter fun e => e.target = id).map fun e => ⟨e.source, e.role⟩)
  consumers : h.consumers.Perm ((p.edges.filter fun e => e.source = id).map fun e => ⟨e.target, e.role⟩)
  operands_sorted : h.operands.Pairwise Neighbour.RoleFirst
  consumers_sorted : h.consumers.Pairwise Neighbour.NodeFirst

section Arcs
variable {n : Nat} {e : Edge} {a : Arc n}

theorem Edge.exists_toArc? (h : e.source.toNat < n ∧ e.target.toNat < n) : ∃ a, e.toArc? n = some a := by
  unfold toArc?
  rw [dif_pos h.1, dif_pos h.2]
  exact ⟨_, rfl⟩

theorem Edge.of_toArc? (h : e.toArc? n = some a) :
    a.source.val = e.source.toNat ∧ a.target.val = e.target.toNat ∧ a.role = e.role := by
  unfold toArc? at h
  split at h
  · split at h
    · cases h
      exact ⟨rfl, rfl, rfl⟩
    · cases h
  · cases h

/-- What is picked from the arcs of some edges can be picked from the edges, if none of them dangles. -/
theorem map_filter_arcs {β : Type} {edges : List Edge}
    (inRange : ∀ e ∈ edges, e.source.toNat < n ∧ e.target.toNat < n) {keep : Arc n → Bool} {keep' : Edge → Bool}
    {f : Arc n → β} {f' : Edge → β}
    (same : ∀ (e : Edge) (a : Arc n), e.toArc? n = some a → keep a = keep' e ∧ f a = f' e) :
    ((edges.filterMap (·.toArc? n)).filter keep).map f = (edges.filter keep').map f' := by
  induction edges with
  | nil => rfl
  | cons e rest ih =>
    obtain ⟨first, later⟩ := List.forall_mem_cons.mp inRange
    obtain ⟨a, ha⟩ := Edge.exists_toArc? first
    obtain ⟨kept, mapped⟩ := same e a ha
    have arcs : (e :: rest).filterMap (·.toArc? n) = a :: rest.filterMap (·.toArc? n) := List.filterMap_cons_some ha
    rw [arcs, List.filter_cons, List.filter_cons, kept]
    cases keep' e with
    | false => exact ih later
    | true => rw [if_pos rfl, if_pos rfl, List.map_cons, List.map_cons, mapped, ih later]

end Arcs

namespace Program
variable {p : Program} {id : NodeId} {op : Operation} {h : Neighbourhood}

theorem InRange.toDigraph (inRange : p.InRange) :
    p.toDigraph = .ok ⟨p.nodes, p.edges.filterMap (·.toArc? p.nodes.length)⟩ := by
  unfold Program.toDigraph
  rw [check_eq_ok_iff.mpr inRange]
  rfl

/-- Where no edge dangles, every node has a neighbourhood, and it tells what surrounds the node. -/
theorem InRange.surrounds (inRange : p.InRange) (hop : p.node? id = some op) :
    ∃ h, p.neighbourhood id = .ok h ∧ h.operation = op ∧ h.Surrounds p id := by
  let g : Digraph := ⟨p.nodes, p.edges.filterMap (·.toArc? p.nodes.length)⟩
  have found : p.neighbourhood id = .ok ⟨id, op, g.operands id.toNat, g.consumers id.toNat⟩ := by
    unfold Program.neighbourhood
    rw [hop, inRange.toDigraph]
    rfl
  have incoming : ∀ (e : Edge) (a : Arc p.nodes.length), e.toArc? p.nodes.length = some a →
      decide (a.target.val = id.toNat) = decide (e.target = id) ∧
        (⟨a.toEdge.source, a.role⟩ : Neighbour) = ⟨e.source, e.role⟩ := by
    intro e a ha
    obtain ⟨-, target, role⟩ := Edge.of_toArc? ha
    rw [Edge.toEdge_toArc? ha, target, role, decide_eq_decide]
    exact ⟨UInt32.toNat_inj, rfl⟩
  have outgoing : ∀ (e : Edge) (a : Arc p.nodes.length), e.toArc? p.nodes.length = some a →
      decide (a.source.val = id.toNat) = decide (e.source = id) ∧
        (⟨a.toEdge.target, a.role⟩ : Neighbour) = ⟨e.target, e.role⟩ := by
    intro e a ha
    obtain ⟨source, -, role⟩ := Edge.of_toArc? ha
    rw [Edge.toEdge_toArc? ha, source, role, decide_eq_decide]
    exact ⟨UInt32.toNat_inj, rfl⟩
  refine ⟨_, found, rfl, rfl, hop, ?_, ?_, ?_, ?_⟩
  · exact (List.mergeSort_perm _ _).trans (List.Perm.of_eq (map_filter_arcs inRange incoming))
  · exact (List.mergeSort_perm _ _).trans (List.Perm.of_eq (map_filter_arcs inRange outgoing))
  · exact (List.pairwise_mergeSort Neighbour.byRole_trans Neighbour.byRole_total _).imp
      Neighbour.RoleFirst.of_byRole
  · exact (List.pairwise_mergeSort Neighbour.byNode_trans Neighbour.byNode_total _).imp
      Neighbour.NodeFirst.of_byNode

theorem InRange.surrounds_of_neighbourhood (inRange : p.InRange) (hn : p.neighbourhood id = .ok h) :
    h.Surrounds p id := by
  cases hop : p.node? id with
  | none =>
    unfold Program.neighbourhood at hn
    rw [hop] at hn
    cases hn
  | some op =>
    obtain ⟨h', hn', -, surrounds⟩ := inRange.surrounds hop
    cases hn.symm.trans hn'
    exact surrounds

end Program

/-! ### The arity rule on a neighbourhood -/

instance : Std.Asymm Warning.Precedes where
  asymm a b hab hba := by
    unfold Warning.Precedes at hab hba
    simp only [UInt32.lt_iff_toNat_lt] at hab hba
    rcases hab with hab | ⟨node, hab⟩ <;> rcases hba with hba | ⟨node', hba⟩
    · omega
    · rw [node'] at hab
      omega
    · rw [node] at hba
      omega
    · omega

/-- What the arity rule tells of a node, from the roles of the operands that it gets. -/
def Operation.verdicts (op : Operation) (node : NodeId) (roles : List Role) : List Warning :=
  Role.all.filterMap fun role => Warning.judge? node role (op.roles.contains role) (roles.count role)

namespace Arity

theorem pairwise_roles (arity : Arity) : arity.roles.Pairwise fun r s => r.rank ≤ s.rank := by
  cases arity <;> decide

theorem count_roles (arity : Arity) (r : Role) : arity.roles.count r = if r ∈ arity.roles then 1 else 0 := by
  cases arity <;> cases r <;> decide

/-- A list of roles in order is that of an arity if every role stands in it as often as in the arity. -/
theorem eq_roles_iff {arity : Arity} {roles : List Role} (sorted : roles.Pairwise fun r s => r.rank ≤ s.rank) :
    roles = arity.roles ↔ ∀ r, roles.count r = if r ∈ arity.roles then 1 else 0 := by
  constructor
  · rintro rfl r
    exact arity.count_roles r
  · intro counts
    have perm : roles.Perm arity.roles := List.perm_iff_count.mpr fun r => (counts r).trans (arity.count_roles r).symm
    exact perm.eq_of_pairwise (fun r s _ _ hrs hsr => Role.rank_injective (Nat.le_antisymm hrs hsr)) sorted
      arity.pairwise_roles

end Arity

namespace Neighbourhood.Surrounds
variable {p : Program} {id : NodeId} {h : Neighbourhood}

/-- The operands in a neighbourhood are those that arrive at the node. -/
theorem count_roles (surrounds : h.Surrounds p id) (inRange : p.InRange) (r : Role) :
    (h.operands.map (·.role)).count r = p.operandCount id.toNat r := by
  have roles : (h.operands.map (·.role)).Perm ((p.edges.filter fun e => e.target = id).map (·.role)) := by
    have mapped := surrounds.operands.map (·.role)
    rwa [List.map_map] at mapped
  rw [roles.count_eq, List.count_eq_countP, List.countP_map, List.countP_filter]
  refine List.countP_congr fun e he => ?_
  have source := (inRange e he).1
  simp [Edge.feeds, source, UInt32.toNat_inj, and_comm]

theorem roles_sorted (surrounds : h.Surrounds p id) :
    (h.operands.map (·.role)).Pairwise fun r s => r.rank ≤ s.rank :=
  List.pairwise_map.mpr (surrounds.operands_sorted.imp Neighbour.RoleFirst.rank_le)

end Neighbourhood.Surrounds

namespace Program
variable {p : Program} {i : Nat} {op : Operation}

/-- The warnings about a node are the verdicts on what arrives at it. -/
theorem filter_warnings (few : p.nodeCount ≤ UInt32.size) (hop : p.nodes[i]? = some op) :
    p.warnings.filter (fun w => w.node = UInt32.ofNat i) = p.verdicts i op := by
  have sorted : (p.warnings.filter fun w => w.node = UInt32.ofNat i).Pairwise Warning.Precedes :=
    (pairwise_warnings few).sublist List.filter_sublist
  refine sorted.eq_of_mem_iff (pairwise_verdicts i op) fun w => ?_
  rw [List.mem_filter, mem_verdicts_iff, decide_eq_true_iff]
  constructor
  · rintro ⟨given, node⟩
    exact ⟨node, (mem_warnings_iff_of_node few hop node).mp given⟩
  · rintro ⟨node, holds⟩
    exact ⟨(mem_warnings_iff_of_node few hop node).mpr holds, node⟩

/-- Where no edge dangles, the warnings about a node are what the arity rule tells from the roles of the operands in its
neighbourhood. There are no warnings exactly if these roles are everywhere those that the operation takes, in order. -/
theorem warnings_agree_neighbourhoods (p : Program) (few : p.nodeCount ≤ UInt32.size) (inRange : p.InRange) :
    (∀ id op, p.node? id = some op → ∃ h, p.neighbourhood id = .ok h ∧
      p.warnings.filter (fun w => w.node = id) = op.verdicts id (h.operands.map (·.role)) ∧
      ∀ w : Warning, w.node = id →
        (w ∈ p.warnings ↔ w.Holds (w.role ∈ op.arity.roles) ((h.operands.map (·.role)).count w.role))) ∧
    (p.warnings = [] ↔ ∀ id op h, p.node? id = some op → p.neighbourhood id = .ok h →
      h.operands.map (·.role) = op.arity.roles) := by
  constructor
  · intro id op hop
    obtain ⟨h, found, -, surrounds⟩ := inRange.surrounds hop
    have place : UInt32.ofNat id.toNat = id := UInt32.ofNat_toNat
    refine ⟨h, found, ?_, fun w node => ?_⟩
    · have verdicts := filter_warnings few hop
      rw [place] at verdicts
      rw [verdicts]
      unfold Program.verdicts Operation.verdicts
      simp only [place, surrounds.count_roles inRange]
    · rw [surrounds.count_roles inRange]
      exact mem_warnings_iff_of_node few hop (node.trans place.symm)
  · rw [warnings_eq_nil_iff]
    constructor
    · intro counts id op h hop found
      have surrounds := inRange.surrounds_of_neighbourhood found
      rw [Arity.eq_roles_iff surrounds.roles_sorted]
      intro r
      rw [surrounds.count_roles inRange]
      exact counts id.toNat op hop r
    · intro roles i op hop r
      have place : (UInt32.ofNat i).toNat = i := toNat_place few hop
      have hop' : p.node? (UInt32.ofNat i) = some op := by
        unfold node?
        rw [place]
        exact hop
      obtain ⟨h, found, -, surrounds⟩ := inRange.surrounds hop'
      have same := roles (UInt32.ofNat i) op h hop' found
      have counts := (Arity.eq_roles_iff surrounds.roles_sorted).mp same r
      rwa [surrounds.count_roles inRange, place] at counts

/-- A sum with its left operand given twice, by an input and by a node that feeds itself beside the sum; and the sum
feeds the input. -/
def tangled : Program where
  nodes := [.input 0, .add, .relinearize]
  edges := [⟨2, 1, .left⟩, ⟨1, 2, .unary⟩, ⟨0, 1, .left⟩, ⟨2, 2, .unary⟩, ⟨1, 0, .right⟩]

theorem tangled_warnings_agree :
    tangled.nodeCount ≤ UInt32.size ∧ tangled.InRange ∧
      (∃ h, tangled.neighbourhood 1 = .ok h ∧
        Operation.add.verdicts 1 (h.operands.map (·.role)) = [.duplicate 1 .left 2, .missing 1 .right]) ∧
      (∃ h, tangled.neighbourhood 2 = .ok h ∧
        Operation.relinearize.verdicts 2 (h.operands.map (·.role)) = [.duplicate 2 .unary 2]) ∧
      ∃ id op h, tangled.node? id = some op ∧ tangled.neighbourhood id = .ok h ∧
        h.operands.map (·.role) ≠ op.arity.roles := by
  have few : tangled.nodeCount ≤ UInt32.size := by decide
  have inRange : tangled.InRange := by decide
  have warned : tangled.warnings ≠ [] := by decide
  obtain ⟨agree, none⟩ := warnings_agree_neighbourhoods tangled few inRange
  obtain ⟨sum, foundSum, sumVerdicts, -⟩ := agree 1 .add rfl
  obtain ⟨loop, foundLoop, loopVerdicts, -⟩ := agree 2 .relinearize rfl
  refine ⟨few, inRange, ⟨sum, foundSum, sumVerdicts.symm.trans (by decide)⟩,
    ⟨loop, foundLoop, loopVerdicts.symm.trans (by decide)⟩, ?_⟩
  by_contra agreeing
  push Not at agreeing
  exact warned (none.mpr agreeing)

end Program

end CipherGraph
