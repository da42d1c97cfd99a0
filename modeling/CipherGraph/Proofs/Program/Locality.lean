import CipherGraph.Proofs.Program.Arity
import CipherGraph.Proofs.Program.Building

/-! # Warnings of a growing program

The warnings are the verdicts on the inlets of a program: the roles of its nodes, in order. The verdict on an inlet
depends on the number of operands that arrive there and on nothing else. A new node adds its inlets behind the others, all
of them empty, and a new edge adds an operand at one inlet. So a node appends warnings and leaves the old ones as they are
(`InRange.warnings_addNode`), and an edge changes the entry for one inlet (`revised_addEdge`). -/

namespace CipherGraph

/-! ### Inlets -/

/-- A node in one of the roles in which operands may arrive. -/
structure Inlet where
  place : Nat
  operation : Operation
  role : Role

/-- The order of inlets: by node, then by role. -/
def Inlet.Precedes (a b : Inlet) : Prop :=
  a.place < b.place ∨ a.place = b.place ∧ a.role.rank < b.role.rank

theorem Inlet.Precedes.ne {a b : Inlet} (h : a.Precedes b) : ¬ (a.place = b.place ∧ a.role = b.role) := by
  rintro ⟨place, role⟩
  rcases h with before | ⟨-, before⟩
  · omega
  · rw [role] at before
    exact Nat.lt_irrefl _ before

/-- The inlets of a row of nodes, the first of them being at `start`. -/
def inlets (nodes : List Operation) (start : Nat) : List Inlet :=
  (nodes.zipIdx start).flatMap fun (op, i) => Role.all.map fun r => ⟨i, op, r⟩

theorem inlets_append (nodes nodes' : List Operation) (start : Nat) :
    inlets (nodes ++ nodes') start = inlets nodes start ++ inlets nodes' (start + nodes.length) := by
  unfold inlets
  rw [List.zipIdx_append, List.flatMap_append]

theorem mem_inlets_iff {nodes : List Operation} {x : Inlet} :
    x ∈ inlets nodes 0 ↔ nodes[x.place]? = some x.operation := by
  obtain ⟨place, operation, role⟩ := x
  simp [inlets, List.mem_zipIdx_iff_getElem?, Role.mem_all]

theorem pairwise_inlets (nodes : List Operation) (start : Nat) : (inlets nodes start).Pairwise Inlet.Precedes := by
  have within (x : Operation × Nat) :
      (Role.all.map fun r => (⟨x.2, x.1, r⟩ : Inlet)).Pairwise Inlet.Precedes :=
    List.pairwise_map.mpr (Role.pairwise_all.imp fun h => Or.inr ⟨rfl, h⟩)
  refine List.pairwise_flatMap.mpr ⟨fun x _ => within x, ?_⟩
  refine (pairwise_zipIdx nodes start).imp fun {x y} hlt a ha b hb => Or.inl ?_
  obtain ⟨r, -, rfl⟩ := List.mem_map.mp ha
  obtain ⟨s, -, rfl⟩ := List.mem_map.mp hb
  exact hlt

theorem filterMap_middle {α β : Type} (f : α → Option β) (front back : List α) (x : α) :
    (front ++ x :: back).filterMap f = front.filterMap f ++ (f x).toList ++ back.filterMap f := by
  cases h : f x <;> simp [h]

namespace Program
variable {p : Program} {i : Nat}

/-- The verdict on an inlet. -/
def verdict? (p : Program) (x : Inlet) : Option Warning :=
  Warning.judge? (UInt32.ofNat x.place) x.role (x.operation.roles.contains x.role) (p.operandCount x.place x.role)

theorem warnings_eq_inlets (p : Program) : p.warnings = (inlets p.nodes 0).filterMap p.verdict? := by
  rw [warnings_eq, inlets, List.filterMap_flatMap]
  refine List.flatMap_congr fun ⟨op, i⟩ _ => ?_
  rw [List.filterMap_map]
  rfl

/-! ### A new node -/

theorem InRange.operandCount_addNode (inRange : p.InRange) (op : Operation) (i : Nat) (r : Role) :
    (p.addNode op).2.operandCount i r = p.operandCount i r := by
  refine List.countP_congr fun e he => ?_
  have old : e.source.toNat < p.nodeCount := (inRange e he).1
  simp [Edge.feeds, old, Nat.lt_succ_of_lt old]

/-- Nothing arrives beyond the nodes. -/
theorem InRange.operandCount_eq_zero (inRange : p.InRange) (beyond : p.nodeCount ≤ i) (r : Role) :
    p.operandCount i r = 0 := by
  refine List.countP_eq_zero.mpr fun e he fed => ?_
  have target : e.target.toNat = i := by
    simp only [Edge.feeds, Bool.and_eq_true, decide_eq_true_eq] at fed
    exact fed.1.2
  have within := (inRange e he).2
  omega

/-- A node without operands lacks all that its operation takes, and has none to spare. -/
theorem filterMap_judge?_zero (node : NodeId) (op : Operation) :
    Role.all.filterMap (fun r => Warning.judge? node r (op.roles.contains r) 0) = op.roles.map (.missing node) := by
  cases op <;> rfl

theorem InRange.warnings_addNode (inRange : p.InRange) (op : Operation) :
    (p.addNode op).2.warnings = p.warnings ++ op.roles.map (.missing (p.addNode op).1) := by
  have verdicts : (p.addNode op).2.verdict? = p.verdict? := by
    funext x
    unfold verdict?
    rw [inRange.operandCount_addNode]
  have fresh : (inlets [op] p.nodeCount).filterMap p.verdict? = op.roles.map (.missing (UInt32.ofNat p.nodeCount)) := by
    rw [← filterMap_judge?_zero]
    have none_arrive := inRange.operandCount_eq_zero (Nat.le_refl _)
    simp only [inlets, List.zipIdx_singleton, List.flatMap_singleton, List.filterMap_map]
    refine List.filterMap_congr fun r _ => ?_
    simp only [Function.comp_apply, verdict?, none_arrive]
  calc (p.addNode op).2.warnings
      = (inlets (p.nodes ++ [op]) 0).filterMap p.verdict? := by
        rw [warnings_eq_inlets, verdicts]
        rfl
    _ = p.warnings ++ op.roles.map (.missing (p.addNode op).1) := by
        rw [inlets_append, List.filterMap_append, ← warnings_eq_inlets, Nat.zero_add]
        exact congrArg (p.warnings ++ ·) fresh

end Program

/-! ### A new edge -/

namespace Warning

/-- The warning is about an inlet in front of the one that the edge feeds. -/
def Before (w : Warning) (e : Edge) : Prop :=
  w.node < e.target ∨ w.node = e.target ∧ w.role.rank < e.role.rank

/-- The warning is about an inlet behind the one that the edge feeds. -/
def Behind (w : Warning) (e : Edge) : Prop :=
  e.target < w.node ∨ e.target = w.node ∧ e.role.rank < w.role.rank

/-- What one more operand makes of the entry for an inlet, as the operation takes operands in the role or not. -/
inductive Fed (node : NodeId) (role : Role) (taken : Prop) : Option Warning → Option Warning → Prop
  | supplied : taken → Fed node role taken (some (.missing node role)) none
  | doubled : taken → Fed node role taken none (some (.duplicate node role 2))
  | piled (count : Nat) : taken →
    Fed node role taken (some (.duplicate node role count)) (some (.duplicate node role (count + 1)))
  | strayed : ¬ taken → Fed node role taken none (some (.unexpected node role))
  | strayedAgain : ¬ taken → Fed node role taken (some (.unexpected node role)) (some (.unexpected node role))

/-- Warnings before and after an edge: the entry for its inlet is changed, and none of those for the inlets in front of it
and behind it. -/
def Revised (e : Edge) (taken : Prop) (told told' : List Warning) : Prop :=
  ∃ before after old new, told = before ++ old.toList ++ after ∧ told' = before ++ new.toList ++ after ∧
    (∀ w ∈ before, w.Before e) ∧ (∀ w ∈ after, w.Behind e) ∧ Fed e.target e.role taken old new

theorem fed_judge? (node : NodeId) (role : Role) (wanted : Bool) (count : Nat) :
    Fed node role (wanted = true) (judge? node role wanted count) (judge? node role wanted (count + 1)) := by
  cases wanted with
  | true =>
    rcases count with _ | _ | count
    · exact .supplied rfl
    · exact .doubled rfl
    · exact .piled _ rfl
  | false =>
    rcases count with _ | count
    · exact .strayed Bool.false_ne_true
    · exact .strayedAgain Bool.false_ne_true

end Warning

namespace Program
variable {p q : Program} {e : Edge}

/-- An edge brings one more operand to its inlet, and none elsewhere. -/
theorem operandCount_addEdge (h : p.addEdge e = .ok q) (i : Nat) (r : Role) :
    q.operandCount i r = p.operandCount i r + if e.target.toNat = i ∧ e.role = r then 1 else 0 := by
  obtain ⟨⟨source, -⟩, rfl⟩ := addEdge_eq_ok_iff.mp h
  have feeds : e.feeds p.nodeCount i r = true ↔ e.target.toNat = i ∧ e.role = r := by
    simp [Edge.feeds, source]
  unfold operandCount
  rw [List.countP_append, List.countP_singleton]
  exact congrArg (p.edges.countP (·.feeds p.nodeCount i r) + ·) (if_congr feeds rfl rfl)

theorem verdict?_addEdge_of_ne (h : p.addEdge e = .ok q) {x : Inlet}
    (other : ¬ (e.target.toNat = x.place ∧ e.role = x.role)) : q.verdict? x = p.verdict? x := by
  unfold verdict?
  rw [operandCount_addEdge h, if_neg other, Nat.add_zero]

theorem fed_verdict? (h : p.addEdge e = .ok q) (op : Operation) :
    Warning.Fed e.target e.role (e.role ∈ op.roles) (p.verdict? ⟨e.target.toNat, op, e.role⟩)
      (q.verdict? ⟨e.target.toNat, op, e.role⟩) := by
  have more : q.operandCount e.target.toNat e.role = p.operandCount e.target.toNat e.role + 1 := by
    rw [operandCount_addEdge h, if_pos ⟨rfl, rfl⟩]
  unfold verdict?
  rw [more, UInt32.ofNat_toNat, ← List.contains_iff_mem]
  exact Warning.fed_judge? _ _ _ _

/-- Warnings stand in the order of their inlets. -/
theorem before_of_precedes (few : p.nodeCount ≤ UInt32.size) {x y : Inlet} (hx : x ∈ inlets p.nodes 0) {w : Warning}
    (hw : p.verdict? x = some w) (place : y.place = e.target.toNat) (role : y.role = e.role) :
    (x.Precedes y → w.Before e) ∧ (y.Precedes x → w.Behind e) := by
  obtain ⟨node, roleW, -⟩ := Warning.judge?_eq_some_iff.mp hw
  have placeW : w.node.toNat = x.place := by
    rw [node]
    exact toNat_place few (mem_inlets_iff.mp hx)
  simp only [Inlet.Precedes, Warning.Before, Warning.Behind, UInt32.lt_iff_toNat_lt, ← UInt32.toNat_inj, place, role,
    placeW, roleW, imp_self, and_self]

/-- An edge changes the entry for one inlet. -/
theorem revised_addEdge (few : p.nodeCount ≤ UInt32.size) (h : p.addEdge e = .ok q) :
    ∃ op, p.node? e.target = some op ∧ Warning.Revised e (e.role ∈ op.roles) p.warnings q.warnings := by
  obtain ⟨⟨-, target⟩, same⟩ := addEdge_eq_ok_iff.mp h
  obtain ⟨op, hop⟩ := exists_node? target
  -- The inlets are split at the one that the edge feeds; the verdicts on all others are what they were.
  let x : Inlet := ⟨e.target.toNat, op, e.role⟩
  obtain ⟨front, back, split⟩ := List.append_of_mem (mem_inlets_iff.mpr hop : x ∈ inlets p.nodes 0)
  have ordered := pairwise_inlets p.nodes 0
  rw [split, List.pairwise_append, List.pairwise_cons] at ordered
  obtain ⟨-, ⟨behind, -⟩, ahead⟩ := ordered
  have ahead : ∀ y ∈ front, y.Precedes x := fun y hy => ahead y hy x List.mem_cons_self
  have told : p.warnings = front.filterMap p.verdict? ++ (p.verdict? x).toList ++ back.filterMap p.verdict? := by
    rw [warnings_eq_inlets, split, filterMap_middle]
  have told' : q.warnings = front.filterMap p.verdict? ++ (q.verdict? x).toList ++ back.filterMap p.verdict? := by
    have nodes : q.nodes = p.nodes := by rw [same]
    have front_kept : front.filterMap q.verdict? = front.filterMap p.verdict? := List.filterMap_congr fun y hy =>
      verdict?_addEdge_of_ne h fun at_x => (ahead y hy).ne ⟨at_x.1.symm, at_x.2.symm⟩
    have back_kept : back.filterMap q.verdict? = back.filterMap p.verdict? := List.filterMap_congr fun y hy =>
      verdict?_addEdge_of_ne h (behind y hy).ne
    rw [warnings_eq_inlets, nodes, split, filterMap_middle, front_kept, back_kept]
  refine ⟨op, hop, _, _, _, _, told, told', fun w hw => ?_, fun w hw => ?_, fed_verdict? h op⟩
  · obtain ⟨y, hy, verdict⟩ := List.mem_filterMap.mp hw
    have inlet : y ∈ inlets p.nodes 0 := split ▸ List.mem_append_left _ hy
    exact (before_of_precedes few inlet verdict rfl rfl).1 (ahead y hy)
  · obtain ⟨y, hy, verdict⟩ := List.mem_filterMap.mp hw
    have inlet : y ∈ inlets p.nodes 0 := split ▸ List.mem_append_right _ (List.mem_cons_of_mem x hy)
    exact (before_of_precedes few inlet verdict rfl rfl).2 (behind y hy)

/-- An operand that the first warning misses takes that warning away and changes no other. -/
theorem warnings_addEdge_of_missing (few : p.nodeCount ≤ UInt32.size) (h : p.addEdge e = .ok q) {rest : List Warning}
    (missing : p.warnings = .missing e.target e.role :: rest) : q.warnings = rest := by
  obtain ⟨op, -, before, after, old, new, told, told', ahead, behind, fed⟩ := revised_addEdge few h
  rw [missing] at told
  -- The warning is about the inlet of the edge itself, so nothing stands in front of it, and it is the old entry.
  have here : ∀ w : Warning, w = .missing e.target e.role → ¬ w.Before e ∧ ¬ w.Behind e := by
    rintro w rfl
    simp [Warning.Before, Warning.Behind, Warning.node, Warning.role]
  cases before with
  | cons w before =>
    obtain ⟨first, -⟩ := List.cons.inj told
    exact absurd (ahead w List.mem_cons_self) (here w first.symm).1
  | nil =>
    cases fed with
    | supplied =>
      obtain ⟨-, rfl⟩ := List.cons.inj told
      exact told'
    | doubled | strayed =>
      have second : .missing e.target e.role ∈ after := (show _ = after from told) ▸ List.mem_cons_self
      exact absurd (behind _ second) (here _ rfl).2
    | piled | strayedAgain =>
      obtain ⟨first, -⟩ := List.cons.inj told
      cases first

/-- A new node and a new edge change the warnings of a program in which no edge dangles at one place each. The node appends
a warning for every operand that it takes. The edge leaves all entries as they are but the one for its inlet: a missing
operand is there now, the second one is reported as a duplicate, any further one is counted, and an operand that is not
taken is reported if it was not before. -/
theorem warnings_local (p : Program) (inRange : p.InRange) (few : p.nodeCount < UInt32.size) :
    (∀ op, (p.addNode op).1.toNat = p.nodeCount ∧
      (p.addNode op).2.warnings = p.warnings ++ op.roles.map (.missing (p.addNode op).1)) ∧
    ∀ e q, p.addEdge e = .ok q → ∃ op, p.node? e.target = some op ∧
      Warning.Revised e (e.role ∈ op.roles) p.warnings q.warnings := by
  refine ⟨fun op => ?_, fun e q h => ?_⟩
  · exact ⟨toNat_ofNat_eq_iff.mpr few, inRange.warnings_addNode op⟩
  · exact revised_addEdge (Nat.le_of_lt few) h

/-- A sum that has its left operand and lacks the right one. A second left operand is reported in front of what is missing,
a further node behind it. -/
theorem second_left_operand_local :
    let p : Program := ⟨[.input 0, .add], [⟨0, 1, .left⟩]⟩
    let q : Program := ⟨[.input 0, .add], [⟨0, 1, .left⟩, ⟨0, 1, .left⟩]⟩
    p.InRange ∧ p.nodeCount < UInt32.size ∧ p.warnings = [.missing 1 .right] ∧
      (p.addNode .relinearize).2.warnings = [.missing 1 .right, .missing 2 .unary] ∧
      p.addEdge ⟨0, 1, .left⟩ = .ok q ∧ q.warnings = [.duplicate 1 .left 2, .missing 1 .right] ∧
      Warning.Revised ⟨0, 1, .left⟩ (Role.left ∈ Operation.add.roles) p.warnings q.warnings := by
  intro p q
  have inRange : p.InRange := by decide
  have few : p.nodeCount < UInt32.size := by decide
  have told : p.warnings = [.missing 1 .right] := by decide
  obtain ⟨nodes, edges⟩ := warnings_local p inRange few
  obtain ⟨-, appended⟩ := nodes .relinearize
  rw [told] at appended
  have joined : p.addEdge ⟨0, 1, .left⟩ = .ok q := by decide
  obtain ⟨op, hop, revised⟩ := edges _ q joined
  cases hop
  exact ⟨inRange, few, told, appended, joined, by decide, revised⟩

end Program

end CipherGraph
