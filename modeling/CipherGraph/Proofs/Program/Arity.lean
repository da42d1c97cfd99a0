import CipherGraph.Program.Warning
import Mathlib.Data.List.Basic

/-! # The arity rule

The warnings of a program tell exactly where the operands that arrive are not the operands that operations take. An
operand arrives over an edge with a source that exists. The pass over the edges counts what arrives at every node in
every role (`tallies_getElem?`), and the warnings are the verdicts on these numbers (`warnings_eq`): one verdict at most
for a node and a role, in order of nodes and then of roles. Of an operation they look at the arity only. -/

namespace CipherGraph

/-! ### What arrives at a node -/

/-- Whether an edge brings an operand in a role to the node at a place, from one of `nodeCount` nodes. -/
def Edge.feeds (e : Edge) (nodeCount place : Nat) (role : Role) : Bool :=
  e.source.toNat < nodeCount && e.target.toNat = place && e.role = role

/-- How many operands arrive in a role at the node at a place. -/
def Program.operandCount (p : Program) (place : Nat) (role : Role) : Nat :=
  p.edges.countP (·.feeds p.nodeCount place role)

namespace Program
variable {p : Program} {n i : Nat} {tallies : Array Tally} {t : Tally}

theorem size_tallyEdge (e : Edge) : (tallyEdge n tallies e).size = tallies.size := by
  unfold tallyEdge
  split
  · rw [Array.size_modify]
  · rfl

theorem tallyEdge_getElem? (e : Edge) (h : tallies[i]? = some t) :
    ∃ t', (tallyEdge n tallies e)[i]? = some t' ∧
      ∀ r, t'.count r = t.count r + if e.feeds n i r then 1 else 0 := by
  unfold tallyEdge
  by_cases source : e.source.toNat < n
  · rw [if_pos source, Array.getElem?_modify, h]
    by_cases target : e.target.toNat = i
    · refine ⟨t.add e.role, by rw [if_pos target, Option.map_some], fun r => ?_⟩
      rw [Tally.count_add]
      simp [Edge.feeds, source, target]
    · exact ⟨t, if_neg target, fun r => by simp [Edge.feeds, target]⟩
  · rw [if_neg source]
    exact ⟨t, h, fun r => by simp [Edge.feeds, source]⟩

theorem size_foldl_tallyEdge (edges : List Edge) : (edges.foldl (tallyEdge n) tallies).size = tallies.size := by
  induction edges generalizing tallies with
  | nil => rfl
  | cons e rest ih => rw [List.foldl_cons, ih, size_tallyEdge]

theorem foldl_tallyEdge_getElem? (edges : List Edge) (h : tallies[i]? = some t) :
    ∃ t', (edges.foldl (tallyEdge n) tallies)[i]? = some t' ∧
      ∀ r, t'.count r = t.count r + edges.countP (·.feeds n i r) := by
  -- What is counted for a node is a sum over the edges, so the table and its count start anywhere.
  induction edges generalizing tallies t with
  | nil => exact ⟨t, h, fun r => rfl⟩
  | cons e rest ih =>
    obtain ⟨t₁, h₁, count₁⟩ := tallyEdge_getElem? (n := n) e h
    obtain ⟨t₂, h₂, count₂⟩ := ih h₁
    refine ⟨t₂, h₂, fun r => ?_⟩
    rw [count₂, count₁, List.countP_cons]
    omega

theorem size_tallies : p.tallies.size = p.nodeCount := by
  unfold tallies
  rw [size_foldl_tallyEdge, Array.size_replicate]

theorem tallies_getElem? (hi : i < p.nodeCount) :
    ∃ t, p.tallies[i]? = some t ∧ ∀ r, t.count r = p.operandCount i r := by
  have start : (Array.replicate p.nodeCount ({} : Tally))[i]? = some {} := by
    rw [Array.getElem?_replicate, if_pos hi]
  obtain ⟨t, ht, count⟩ := foldl_tallyEdge_getElem? (n := p.nodeCount) p.edges start
  refine ⟨t, ht, fun r => ?_⟩
  rw [count]
  cases r <;> exact Nat.zero_add _

/-! ### Verdicts -/

/-- The verdicts on what arrives at the node at a place, in order of roles. -/
def verdicts (p : Program) (place : Nat) (op : Operation) : List Warning :=
  Role.all.filterMap fun role =>
    Warning.judge? (UInt32.ofNat place) role (op.roles.contains role) (p.operandCount place role)

theorem warnings_eq : p.warnings = p.nodes.zipIdx.flatMap fun (op, i) => p.verdicts i op := by
  have hlen : p.nodes.length ≤ p.tallies.toList.length := by
    rw [Array.length_toList, size_tallies]
    exact Nat.le_refl _
  -- The table has an entry for every node, so that nothing is lost where the two are put side by side.
  have nodes : p.nodes.zipIdx = (p.nodes.zip p.tallies.toList).zipIdx.map (Prod.map Prod.fst id) := by
    rw [← List.zipIdx_map, List.map_fst_zip hlen]
  rw [nodes, List.flatMap_map]
  refine List.flatMap_congr fun ⟨⟨op, t⟩, i⟩ he => ?_
  obtain ⟨hop, ht⟩ := List.getElem?_zip_eq_some.mp (List.mk_mem_zipIdx_iff_getElem?.mp he)
  obtain ⟨t', ht', count⟩ := tallies_getElem? (p := p) (List.getElem?_eq_some_iff.mp hop).1
  obtain rfl : t = t' := by
    rw [Array.getElem?_toList, ht'] at ht
    exact (Option.some.inj ht).symm
  simp only [Tally.warnings, count]
  rfl

end Program

/-! ### Order of places and roles -/

theorem Role.pairwise_all : Role.all.Pairwise fun r s => r.rank < s.rank := by
  decide

theorem pairwise_zipIdx {α : Type} (xs : List α) (start : Nat) : (xs.zipIdx start).Pairwise fun x y => x.2 < y.2 := by
  rw [← List.pairwise_map (f := Prod.snd), List.zipIdx_map_snd]
  exact List.pairwise_lt_range'

theorem Program.places_eq_range (p : Program) : p.nodes.zipIdx.map Prod.snd = List.range p.nodeCount := by
  rw [List.zipIdx_map_snd, List.range_eq_range']
  rfl

/-! ### What a warning tells -/

namespace Warning
variable {w a b : Warning}

/-- What a warning tells of the operands in its role: whether the operation takes one, and how many arrive. -/
def Holds (w : Warning) (taken : Prop) (count : Nat) : Prop :=
  match w with
  | .missing _ _ => taken ∧ count = 0
  | .duplicate _ _ k => taken ∧ k = count ∧ 2 ≤ count
  | .unexpected _ _ => ¬ taken ∧ 1 ≤ count

theorem judge?_eq_some_iff {node : NodeId} {role : Role} {wanted : Bool} {count : Nat} :
    judge? node role wanted count = some w ↔ w.node = node ∧ w.role = role ∧ w.Holds (wanted = true) count := by
  unfold judge?
  constructor
  · intro h
    split at h <;> cases h
    · exact ⟨rfl, rfl, rfl, rfl⟩
    · exact ⟨rfl, rfl, rfl, rfl, Nat.le_add_left _ _⟩
    · exact ⟨rfl, rfl, Bool.false_ne_true, Nat.le_add_left _ _⟩
  · rintro ⟨rfl, rfl, holds⟩
    cases w with
    | missing node role =>
      obtain ⟨rfl, rfl⟩ := holds
      rfl
    | duplicate node role k =>
      obtain ⟨rfl, rfl, many⟩ := holds
      obtain ⟨n, rfl⟩ := Nat.exists_eq_add_of_le' many
      rfl
    | unexpected node role =>
      obtain ⟨untaken, some⟩ := holds
      rw [Bool.not_eq_true] at untaken
      obtain ⟨n, rfl⟩ := Nat.exists_eq_add_of_le' some
      rw [untaken]
      rfl

theorem judge?_eq_none_iff {node : NodeId} {role : Role} {wanted : Bool} {count : Nat} :
    judge? node role wanted count = none ↔ count = if wanted then 1 else 0 := by
  cases wanted <;> rcases count with _ | _ | count <;> simp [judge?]

/-- The order of warnings: by node, then by role. -/
def Precedes (a b : Warning) : Prop :=
  a.node < b.node ∨ a.node = b.node ∧ a.role.rank < b.role.rank

theorem Precedes.ne (h : a.Precedes b) : (a.node, a.role) ≠ (b.node, b.role) := by
  intro same
  obtain ⟨node, role⟩ := Prod.mk.inj same
  rcases h with h | ⟨-, h⟩
  · rw [node] at h
    exact absurd h (UInt32.lt_irrefl _)
  · rw [role] at h
    exact absurd h (Nat.lt_irrefl _)

end Warning

namespace Program
variable {p : Program} {i : Nat} {op : Operation} {w : Warning}

theorem mem_verdicts_iff :
    w ∈ p.verdicts i op ↔ w.node = UInt32.ofNat i ∧ w.Holds (w.role ∈ op.roles) (p.operandCount i w.role) := by
  unfold verdicts
  rw [List.mem_filterMap]
  constructor
  · rintro ⟨role, -, h⟩
    obtain ⟨node, rfl, holds⟩ := Warning.judge?_eq_some_iff.mp h
    rw [List.contains_iff_mem] at holds
    exact ⟨node, holds⟩
  · rintro ⟨node, holds⟩
    refine ⟨w.role, Role.mem_all _, Warning.judge?_eq_some_iff.mpr ⟨node, rfl, ?_⟩⟩
    rw [List.contains_iff_mem]
    exact holds

theorem mem_warnings_iff :
    w ∈ p.warnings ↔ ∃ i op, p.nodes[i]? = some op ∧ w.node = UInt32.ofNat i ∧
      w.Holds (w.role ∈ op.roles) (p.operandCount i w.role) := by
  rw [warnings_eq, List.mem_flatMap]
  constructor
  · rintro ⟨⟨op, i⟩, he, hw⟩
    exact ⟨i, op, List.mk_mem_zipIdx_iff_getElem?.mp he, mem_verdicts_iff.mp hw⟩
  · rintro ⟨i, op, hop, hw⟩
    exact ⟨(op, i), List.mk_mem_zipIdx_iff_getElem?.mpr hop, mem_verdicts_iff.mpr hw⟩

/-- A warning about a node is given exactly if it holds of the operands that arrive there. -/
theorem mem_warnings_iff_of_node (few : p.nodeCount ≤ UInt32.size) (hop : p.nodes[i]? = some op)
    (node : w.node = UInt32.ofNat i) : w ∈ p.warnings ↔ w.Holds (w.role ∈ op.roles) (p.operandCount i w.role) := by
  rw [mem_warnings_iff]
  constructor
  · rintro ⟨j, op', hop', node', holds⟩
    -- Two places have the same id only if they are the same.
    have place : i = j := by
      rw [← toNat_place few hop, ← toNat_place few hop', ← node, ← node']
    subst place
    cases hop.symm.trans hop'
    exact holds
  · exact fun holds => ⟨i, op, hop, node, holds⟩

/-- A warning is about a node of the program. -/
theorem toNat_node_lt (few : p.nodeCount ≤ UInt32.size) (hw : w ∈ p.warnings) : w.node.toNat < p.nodeCount := by
  obtain ⟨i, op, hop, node, -⟩ := mem_warnings_iff.mp hw
  rw [node, toNat_place few hop]
  exact (List.getElem?_eq_some_iff.mp hop).1

/-! ### Order of warnings -/

theorem pairwise_verdicts (i : Nat) (op : Operation) : (p.verdicts i op).Pairwise Warning.Precedes := by
  refine Role.pairwise_all.filterMap _ fun r s hrs a ha b hb => ?_
  obtain ⟨nodeA, rfl, -⟩ := Warning.judge?_eq_some_iff.mp ha
  obtain ⟨nodeB, rfl, -⟩ := Warning.judge?_eq_some_iff.mp hb
  exact Or.inr ⟨nodeA.trans nodeB.symm, hrs⟩

theorem pairwise_warnings (few : p.nodeCount ≤ UInt32.size) : p.warnings.Pairwise Warning.Precedes := by
  rw [warnings_eq, List.pairwise_flatMap]
  refine ⟨fun ⟨op, i⟩ _ => pairwise_verdicts i op, ?_⟩
  refine (pairwise_zipIdx p.nodes 0).imp_of_mem fun {x y} hx hy hlt a ha b hb => Or.inl ?_
  rw [(mem_verdicts_iff.mp ha).1, (mem_verdicts_iff.mp hb).1, UInt32.lt_iff_toNat_lt,
    toNat_place few (List.mem_zipIdx_iff_getElem?.mp hx), toNat_place few (List.mem_zipIdx_iff_getElem?.mp hy)]
  exact hlt

/-! ### No warnings -/

theorem verdicts_eq_nil_iff :
    p.verdicts i op = [] ↔ ∀ r, p.operandCount i r = if r ∈ op.roles then 1 else 0 := by
  unfold verdicts
  rw [List.filterMap_eq_nil_iff]
  simp only [Role.mem_all, forall_const, Warning.judge?_eq_none_iff, List.contains_iff_mem]

theorem warnings_eq_nil_iff :
    p.warnings = [] ↔
      ∀ i op, p.nodes[i]? = some op → ∀ r, p.operandCount i r = if r ∈ op.roles then 1 else 0 := by
  rw [warnings_eq, List.flatMap_eq_nil_iff]
  constructor
  · intro h i op hop
    exact verdicts_eq_nil_iff.mp (h (op, i) (List.mk_mem_zipIdx_iff_getElem?.mpr hop))
  · intro h ⟨op, i⟩ he
    exact verdicts_eq_nil_iff.mpr (h i op (List.mk_mem_zipIdx_iff_getElem?.mp he))

end Program

/-- How many operands in each role an operation of some arity should get. -/
def Arity.Accepts (arity : Arity) (count : Role → Nat) : Prop :=
  match arity with
  | .nullary => count .left = 0 ∧ count .right = 0 ∧ count .unary = 0
  | .unary => count .left = 0 ∧ count .right = 0 ∧ count .unary = 1
  | .binary => count .left = 1 ∧ count .right = 1 ∧ count .unary = 0

theorem Arity.accepts_iff {arity : Arity} {count : Role → Nat} :
    arity.Accepts count ↔ ∀ r, count r = if r ∈ arity.roles then 1 else 0 := by
  constructor
  · intro h r
    cases arity <;> obtain ⟨left, right, unary⟩ := h <;> cases r <;> assumption
  · intro h
    cases arity <;> exact ⟨h .left, h .right, h .unary⟩

namespace Program

/-- The warnings of a program are exactly what the arity rule tells of its nodes and of the operands that arrive at
them, one at most for a node and a role, in order. There are none exactly if every node gets the operands that its
operation takes. -/
theorem warnings_exact (p : Program) (few : p.nodeCount ≤ UInt32.size) :
    (∀ i op, p.nodes[i]? = some op → ∀ r,
      (.missing (UInt32.ofNat i) r ∈ p.warnings ↔ r ∈ op.roles ∧ p.operandCount i r = 0) ∧
      (∀ k, .duplicate (UInt32.ofNat i) r k ∈ p.warnings ↔
        r ∈ op.roles ∧ k = p.operandCount i r ∧ 2 ≤ p.operandCount i r) ∧
      (.unexpected (UInt32.ofNat i) r ∈ p.warnings ↔ r ∉ op.roles ∧ 1 ≤ p.operandCount i r)) ∧
    (∀ w ∈ p.warnings, w.node.toNat < p.nodeCount) ∧
    p.warnings.Pairwise Warning.Precedes ∧
    (p.warnings.map fun w => (w.node, w.role)).Nodup ∧
    (p.warnings = [] ↔ ∀ i (op : Operation), p.nodes[i]? = some op → op.arity.Accepts (p.operandCount i)) := by
  refine ⟨fun i op hop r => ?_, fun w => toNat_node_lt few, pairwise_warnings few, ?_, ?_⟩
  · exact ⟨mem_warnings_iff_of_node few hop rfl, fun k => mem_warnings_iff_of_node few hop rfl,
      mem_warnings_iff_of_node few hop rfl⟩
  · rw [List.Nodup, List.pairwise_map]
    exact (pairwise_warnings few).imp Warning.Precedes.ne
  · rw [warnings_eq_nil_iff]
    simp only [Arity.accepts_iff]
    rfl

/-- A sum with its left operand given twice, one operand missing, and edges that dangle at either end; a node that
feeds itself; and an input that gets an operand. -/
def misfed : Program where
  nodes := [.input 0, .add, .relinearize]
  edges := [⟨0, 1, .left⟩, ⟨2, 1, .left⟩, ⟨9, 1, .right⟩, ⟨2, 7, .unary⟩, ⟨2, 2, .unary⟩, ⟨1, 0, .right⟩]

theorem misfed_warnings_exact :
    misfed.nodeCount ≤ UInt32.size ∧ .duplicate 1 .left 2 ∈ misfed.warnings ∧ .missing 1 .right ∈ misfed.warnings ∧
      .unexpected 0 .right ∈ misfed.warnings ∧ (∀ k, .duplicate 2 .unary k ∉ misfed.warnings) ∧
      misfed.warnings.Pairwise Warning.Precedes := by
  have few : misfed.nodeCount ≤ UInt32.size := by decide
  obtain ⟨given, -, ordered, -⟩ := warnings_exact misfed few
  obtain ⟨-, duplicate, -⟩ := given 1 .add rfl .left
  obtain ⟨missing, -⟩ := given 1 .add rfl .right
  obtain ⟨-, -, unexpected⟩ := given 0 (.input 0) rfl .right
  obtain ⟨-, single, -⟩ := given 2 .relinearize rfl .unary
  refine ⟨few, (duplicate 2).mpr (by decide), missing.mpr (by decide), unexpected.mpr (by decide), fun k hk => ?_,
    ordered⟩
  obtain ⟨-, -, many⟩ := (single k).mp hk
  exact absurd many (by decide)

/-! ### What the checks do not look at -/

variable {p q : Program}

/-- The warnings look at no more of an operation than its arity. -/
theorem warnings_of_arities (arities : p.nodes.map (·.arity) = q.nodes.map (·.arity)) (edges : p.edges = q.edges) :
    p.warnings = q.warnings := by
  have nodeCount : p.nodeCount = q.nodeCount := by
    have lengths := congrArg List.length arities
    rwa [List.length_map, List.length_map] at lengths
  have counts : p.operandCount = q.operandCount := by
    unfold operandCount
    rw [edges, nodeCount]
  have byArity (p : Program) : p.warnings = (p.nodes.map (·.arity)).zipIdx.flatMap fun (arity, i) =>
      Role.all.filterMap fun role =>
        Warning.judge? (UInt32.ofNat i) role (arity.roles.contains role) (p.operandCount i role) := by
    rw [warnings_eq, List.zipIdx_map, List.flatMap_map]
    rfl
  rw [byArity p, byArity q, arities, counts]

/-- The program with its outputs replaced by an operation whose value may be used. -/
def withoutOutputs (p : Program) : Program :=
  { p with nodes := p.nodes.map fun op => if op.isOutput then .relinearize else op }

/-- The checks do not tell an output from an operation whose value may be used. So they find nothing wrong with a program
in which the value of an output is used. -/
theorem checked_withoutOutputs (p : Program) :
    p.withoutOutputs.check = p.check ∧ p.withoutOutputs.warnings = p.warnings := by
  have nodeCount : p.withoutOutputs.nodeCount = p.nodeCount := List.length_map _
  refine ⟨?_, warnings_of_arities ?_ rfl⟩
  · unfold check dangling?
    rw [nodeCount]
    rfl
  · rw [withoutOutputs, List.map_map]
    refine List.map_congr_left fun op _ => ?_
    cases op <;> rfl

example :
    let p : Program := ⟨[.input 0, .output, .relinearize], [⟨0, 1, .unary⟩, ⟨1, 2, .unary⟩]⟩
    p.dangling? = none ∧ p.warnings = [] := by
  decide

end Program

end CipherGraph
