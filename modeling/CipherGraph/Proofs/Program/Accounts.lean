import CipherGraph.Proofs.Program.Arity
import CipherGraph.Proofs.Program.Incidence

/-! # Operand accounts

What arrives at the nodes of a program, against what their operations take. The verdict on one role at one node balances
its books (`Warning.balanced_judge?`): an operand that is missing is owed, the operands of a duplicate but one are in excess,
and operands in a role that is not taken are strays. Books add up (`Balanced.flatMap`), over the roles of a node and then
over the nodes, and there every edge of a program without dangling edges is entered once. So the edges balance with the
warnings (`InRange.balanced`). -/

namespace CipherGraph

/-! ### Books -/

namespace Warning

def isMissing : Warning → Bool
  | .missing _ _ => true
  | _ => false

/-- The operands that arrive in excess of the one that is taken. -/
def surplus : Warning → Nat
  | .duplicate _ _ count => count - 1
  | _ => 0

/-- What arrives is what is due, but for what the warnings tell and for what arrives astray. -/
def Balanced (told : List Warning) (arrived due astray : Nat) : Prop :=
  arrived + told.countP isMissing = due + (told.map surplus).sum + astray

theorem Balanced.append {told told' : List Warning} {arrived arrived' due due' astray astray' : Nat}
    (h : Balanced told arrived due astray) (h' : Balanced told' arrived' due' astray') :
    Balanced (told ++ told') (arrived + arrived') (due + due') (astray + astray') := by
  unfold Balanced at h h' ⊢
  rw [List.countP_append, List.map_append, List.sum_append]
  omega

/-- Books that are balanced one by one are balanced as a whole. -/
theorem Balanced.flatMap {α : Type} (xs : List α) {told : α → List Warning} {arrived due astray : α → Nat}
    (each : ∀ x ∈ xs, Balanced (told x) (arrived x) (due x) (astray x)) :
    Balanced (xs.flatMap told) (xs.map arrived).sum (xs.map due).sum (xs.map astray).sum := by
  induction xs with
  | nil => rfl
  | cons x xs ih =>
    obtain ⟨first, rest⟩ := List.forall_mem_cons.mp each
    exact first.append (ih rest)

/-- The books of one role at one node. -/
theorem balanced_judge? (node : NodeId) (role : Role) (wanted : Bool) (count : Nat) :
    Balanced (judge? node role wanted count).toList count (if wanted then 1 else 0) (if !wanted then count else 0) := by
  rcases wanted with _ | _ <;> rcases count with _ | _ | count
  all_goals simp [Balanced, judge?, isMissing, surplus]
  omega

end Warning

theorem Operation.sum_roles (op : Operation) :
    (Role.all.map fun r => if op.roles.contains r then 1 else 0).sum = op.roles.length := by
  cases op <;> rfl

/-! ### Entries -/

/-- Over all roles, an edge is entered once at its target, if its source exists and its role is kept. -/
theorem Edge.sum_feeds (e : Edge) (n i : Nat) (keep : Role → Bool) :
    (Role.all.map fun r => if e.feeds n i r && keep r then 1 else 0).sum =
      if e.target.toNat = i && (e.source.toNat < n && keep e.role) then 1 else 0 := by
  obtain ⟨source, target, role⟩ := e
  cases role <;> simp [Role.all, feeds, and_assoc, and_left_comm]

namespace Program
variable {p : Program}

theorem sum_operandCount_roles (p : Program) (i : Nat) (keep : Role → Bool) :
    (Role.all.map fun r => if keep r then p.operandCount i r else 0).sum =
      p.edges.countP fun e => e.target.toNat = i && (e.source.toNat < p.nodeCount && keep e.role) := by
  unfold operandCount
  induction p.edges with
  | nil => simp
  | cons e rest ih =>
    rw [List.countP_cons, ← ih, ← e.sum_feeds, ← List.sum_map_add]
    refine congrArg List.sum (List.map_congr_left fun r _ => ?_)
    cases keep r <;> simp [List.countP_cons]

/-- What arrives at all nodes in the roles that are kept are the edges in such roles. -/
theorem InRange.sum_operandCount (inRange : p.InRange) (keep : Operation → Role → Bool) :
    (p.nodes.zipIdx.map fun x => (Role.all.map fun r => if keep x.1 r then p.operandCount x.2 r else 0).sum).sum =
      p.edges.countP fun e => (p.node? e.target).any (keep · e.role) := by
  simp only [sum_operandCount_roles]
  rw [sum_countP_place p.nodes p.edges (·.target.toNat) fun op e => e.source.toNat < p.nodeCount && keep op e.role]
  refine List.countP_congr fun e he => ?_
  simp only [(inRange e he).1, decide_true, Bool.true_and]
  rfl

/-- The role of the edge is none in which the operation of its target takes an operand. -/
def strays (p : Program) (e : Edge) : Bool :=
  (p.node? e.target).any fun op => !op.roles.contains e.role

/-- The books of a program without dangling edges. -/
theorem InRange.balanced (inRange : p.InRange) :
    Warning.Balanced p.warnings p.edgeCount (p.nodes.map (·.roles.length)).sum (p.edges.countP p.strays) := by
  -- The verdicts balance role by role; what is left is to read the sums as those of the program.
  have books := Warning.Balanced.flatMap p.nodes.zipIdx fun x _ => Warning.Balanced.flatMap Role.all fun r _ =>
    Warning.balanced_judge? (UInt32.ofNat x.2) r (x.1.roles.contains r) (p.operandCount x.2 r)
  have told : p.warnings = p.nodes.zipIdx.flatMap fun x => Role.all.flatMap fun r =>
      (Warning.judge? (UInt32.ofNat x.2) r (x.1.roles.contains r) (p.operandCount x.2 r)).toList := by
    simp only [warnings_eq, verdicts, List.filterMap_eq_flatMap_toList]
  have arrived : p.edgeCount = (p.nodes.zipIdx.map fun x => (Role.all.map (p.operandCount x.2)).sum).sum := by
    refine .trans ?_ (inRange.sum_operandCount fun _ _ => true).symm
    refine (List.countP_eq_length.mpr fun e he => ?_).symm
    obtain ⟨op, hop⟩ := exists_node? (inRange e he).2
    rw [hop]
    rfl
  have due : (p.nodes.map (·.roles.length)).sum =
      (p.nodes.zipIdx.map fun x => (Role.all.map fun r => if x.1.roles.contains r then 1 else 0).sum).sum := by
    simp only [Operation.sum_roles]
    conv_lhs => rw [← List.zipIdx_map_fst 0 p.nodes, List.map_map]
    rfl
  have astray := inRange.sum_operandCount fun op r => !op.roles.contains r
  rw [told, arrived, due]
  exact astray ▸ books

/-- An edge astray is told by a warning. -/
theorem InRange.unexpected_mem_warnings (inRange : p.InRange) {e : Edge} (he : e ∈ p.edges) (h : p.strays e = true) :
    .unexpected e.target e.role ∈ p.warnings := by
  obtain ⟨op, hop, untaken⟩ := (Option.any_eq_true _ _).mp h
  have other : e.role ∉ op.roles := by simpa using untaken
  have fed : 1 ≤ p.operandCount e.target.toNat e.role := by
    refine List.countP_pos_iff.mpr ⟨e, he, ?_⟩
    simp [Edge.feeds, (inRange e he).1]
  exact mem_warnings_iff.mpr ⟨e.target.toNat, op, hop, UInt32.ofNat_toNat.symm, other, fed⟩

/-- Without warnings every edge is one that is due. -/
theorem InRange.edgeCount_eq (inRange : p.InRange) (unwarned : p.warnings = []) :
    p.edgeCount = (p.nodes.map (·.roles.length)).sum := by
  have balanced := inRange.balanced
  have none : p.edges.countP p.strays = 0 := by
    refine List.countP_eq_zero.mpr fun e he h => ?_
    have told := inRange.unexpected_mem_warnings he h
    rw [unwarned] at told
    cases told
  rw [unwarned, none] at balanced
  exact balanced

/-- Two operands are due at every product and sum, and one wherever a value is relinearized or put out. -/
theorem sum_roles_length (p : Program) :
    (p.nodes.map (·.roles.length)).sum =
      2 * p.nodes.countP (fun op => op = .multiply || op = .add) +
        p.nodes.countP fun op => op = .relinearize || op = .output := by
  induction p.nodes with
  | nil => rfl
  | cons op rest ih =>
    rw [List.map_cons, List.sum_cons, ih, List.countP_cons, List.countP_cons]
    cases op <;> simp [Operation.roles, Operation.arity, Arity.roles] <;> omega

end Program

end CipherGraph
