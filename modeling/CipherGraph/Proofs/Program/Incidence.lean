import CipherGraph.Proofs.Outcome
import CipherGraph.Proofs.Program.Neighbourhood
import Mathlib.Algebra.BigOperators.Group.List.Basic
import Mathlib.Algebra.GroupWithZero.Nat

/-! # Edges between neighbourhoods

Every edge of a program stands in two neighbourhoods: among the operands of its target and among the consumers of its
source, there as often as the program has it. So the two halves of the neighbourhoods are dual, and each half, over all
nodes, has as many entries as there are edges. The sums over nodes come from one fact about counting (`sum_countP_place`):
what is counted place by place is counted once. -/

namespace CipherGraph

/-! ### Counting by places -/

section Places
variable {α β : Type}

/-- Of the places of a list, one at most is a given one. -/
theorem sum_ite_place (xs : List α) (start place : Nat) (keep : α → Bool) :
    ((xs.zipIdx start).map fun x => if start + place = x.2 ∧ keep x.1 = true then 1 else 0).sum =
      if (xs[place]?.any keep) = true then 1 else 0 := by
  induction xs generalizing start place with
  | nil => rfl
  | cons a xs ih =>
    rw [List.zipIdx_cons, List.map_cons, List.sum_cons]
    cases place with
    | zero =>
      -- The places that follow are all behind the one that is asked for.
      have later : ((xs.zipIdx (start + 1)).map fun x => if start + 0 = x.2 ∧ keep x.1 = true then 1 else 0).sum = 0 := by
        refine List.sum_eq_zero fun n hn => ?_
        obtain ⟨x, hx, rfl⟩ := List.mem_map.mp hn
        have behind := List.le_snd_of_mem_zipIdx hx
        rw [if_neg (by omega)]
      rw [later]
      simp
    | succ place =>
      have next : start + (place + 1) = start + 1 + place := by omega
      rw [next, ih (start + 1) place, if_neg (by omega)]
      simp

/-- Items that each name a place of a list: those that are counted place by place are those that name a place where they
are to be counted. -/
theorem sum_countP_place (xs : List α) (items : List β) (place : β → Nat) (keep : α → β → Bool) :
    (xs.zipIdx.map fun x => items.countP fun b => place b = x.2 && keep x.1 b).sum =
      items.countP fun b => xs[place b]?.any (keep · b) := by
  -- An item adds one to the sum at the place that it names, if any, and nothing elsewhere.
  induction items with
  | nil => simp
  | cons b items ih =>
    simp only [List.countP_cons, List.sum_map_add, ih, Bool.and_eq_true, decide_eq_true_eq]
    have single := sum_ite_place xs 0 (place b) (keep · b)
    rw [Nat.zero_add] at single
    rw [single]

end Places

/-! ### The two halves of neighbourhoods -/

namespace Neighbourhood.Surrounds
variable {p : Program} {id : NodeId} {h : Neighbourhood}

theorem count_operands (surrounds : h.Surrounds p id) (s : NodeId) (r : Role) :
    h.operands.count ⟨s, r⟩ = p.edges.count ⟨s, id, r⟩ := by
  rw [surrounds.operands.count_eq, List.count_eq_countP, List.countP_map, List.countP_filter, List.count_eq_countP]
  refine List.countP_congr fun ⟨source, target, role⟩ _ => ?_
  simp only [Function.comp_apply, Bool.and_eq_true, beq_iff_eq, decide_eq_true_eq, Neighbour.mk.injEq, Edge.mk.injEq]
  tauto

theorem count_consumers (surrounds : h.Surrounds p id) (t : NodeId) (r : Role) :
    h.consumers.count ⟨t, r⟩ = p.edges.count ⟨id, t, r⟩ := by
  rw [surrounds.consumers.count_eq, List.count_eq_countP, List.countP_map, List.countP_filter, List.count_eq_countP]
  refine List.countP_congr fun ⟨source, target, role⟩ _ => ?_
  simp only [Function.comp_apply, Bool.and_eq_true, beq_iff_eq, decide_eq_true_eq, Neighbour.mk.injEq, Edge.mk.injEq]
  tauto

theorem length_operands (surrounds : h.Surrounds p id) :
    h.operands.length = p.edges.countP fun e => e.target.toNat = id.toNat := by
  rw [surrounds.operands.length_eq, List.length_map, ← List.countP_eq_length_filter]
  simp only [UInt32.toNat_inj]

theorem length_consumers (surrounds : h.Surrounds p id) :
    h.consumers.length = p.edges.countP fun e => e.source.toNat = id.toNat := by
  rw [surrounds.consumers.length_eq, List.length_map, ← List.countP_eq_length_filter]
  simp only [UInt32.toNat_inj]

end Neighbourhood.Surrounds

namespace Program
variable {p : Program} {hs : List Neighbourhood}

/-- The neighbourhoods of all nodes, in order. -/
def neighbourhoods (p : Program) : Except ProgramError (List Neighbourhood) :=
  (List.range p.nodeCount).mapM fun i => p.neighbourhood (UInt32.ofNat i)

theorem InRange.exists_neighbourhoods (inRange : p.InRange) (few : p.nodeCount ≤ UInt32.size) :
    ∃ hs, p.neighbourhoods = .ok hs := by
  refine exists_mapM fun i hi => ?_
  have place : (UInt32.ofNat i).toNat < p.nodeCount := by
    rw [toNat_place few (List.getElem?_eq_getElem (List.mem_range.mp hi))]
    exact List.mem_range.mp hi
  obtain ⟨op, hop⟩ := exists_node? place
  obtain ⟨h, found, -⟩ := inRange.surrounds hop
  exact ⟨h, found⟩

/-- Edges that are counted place by place, each at the place of a node, are all counted. -/
theorem sum_countP_edges {place : Edge → Nat} (within : ∀ e ∈ p.edges, place e < p.nodeCount) :
    ((List.range p.nodeCount).map fun i => p.edges.countP fun e => place e = i).sum = p.edgeCount := by
  have counted := sum_countP_place p.nodes p.edges place fun _ _ => true
  simp only [Bool.and_true] at counted
  rw [← places_eq_range, List.map_map]
  refine counted.trans (List.countP_eq_length.mpr fun e he => ?_)
  rw [List.getElem?_eq_getElem (within e he)]
  rfl

/-- A number that tells in every neighbourhood how many edges have an end there comes, over all of them, to the number of
edges. -/
theorem sum_neighbourhoods (few : p.nodeCount ≤ UInt32.size) (inRange : p.InRange) (found : p.neighbourhoods = .ok hs)
    {size : Neighbourhood → Nat} {place : Edge → Nat} (within : ∀ e ∈ p.edges, place e < p.nodeCount)
    (tells : ∀ id h, h.Surrounds p id → size h = p.edges.countP fun e => place e = id.toNat) :
    (hs.map size).sum = p.edgeCount := by
  have each : List.Forall₂ (fun i h => (p.edges.countP fun e => place e = (UInt32.ofNat i).toNat) = size h)
      (List.range p.nodeCount) hs :=
    (mapM_eq_ok_iff.mp found).imp fun i h hi => (tells _ h (inRange.surrounds_of_neighbourhood hi)).symm
  have sizes : ((List.range p.nodeCount).map fun i => p.edges.countP fun e => place e = (UInt32.ofNat i).toNat) =
      hs.map size := by
    rw [← List.forall₂_eq_eq_eq, List.forall₂_map_left_iff, List.forall₂_map_right_iff]
    exact each
  rw [← sizes, ← sum_countP_edges within]
  refine congrArg List.sum (List.map_congr_left fun i hi => ?_)
  rw [toNat_place few (List.getElem?_eq_getElem (List.mem_range.mp hi))]

/-- Where no edge dangles, a neighbourhood lists the edges around its node, each as often as the program has it and in
order. So a node is an operand of another as often as the other is a consumer of it, once for every edge between them in
that role; and the operands of all nodes, like their consumers, are as many as the edges. -/
theorem neighbourhoods_dual (p : Program) (few : p.nodeCount ≤ UInt32.size) (inRange : p.InRange) :
    (∀ id op, p.node? id = some op → ∃ h, p.neighbourhood id = .ok h ∧ h.operation = op ∧ h.Surrounds p id) ∧
    (∀ s t atS atT, p.neighbourhood s = .ok atS → p.neighbourhood t = .ok atT → ∀ r,
      atT.operands.count ⟨s, r⟩ = atS.consumers.count ⟨t, r⟩ ∧
        atS.consumers.count ⟨t, r⟩ = p.edges.count ⟨s, t, r⟩) ∧
    ∃ hs, p.neighbourhoods = .ok hs ∧ hs.length = p.nodeCount ∧
      (hs.map (·.operands.length)).sum = p.edgeCount ∧ (hs.map (·.consumers.length)).sum = p.edgeCount := by
  refine ⟨fun id op => inRange.surrounds, fun s t atS atT foundS foundT r => ?_, ?_⟩
  · have source := (inRange.surrounds_of_neighbourhood foundS).count_consumers t r
    have target := (inRange.surrounds_of_neighbourhood foundT).count_operands s r
    exact ⟨target.trans source.symm, source⟩
  · obtain ⟨hs, found⟩ := inRange.exists_neighbourhoods few
    have length := (mapM_eq_ok_iff.mp found).length_eq
    rw [List.length_range] at length
    refine ⟨hs, found, length.symm, ?_, ?_⟩
    · exact sum_neighbourhoods few inRange found (fun e he => (inRange e he).2) fun id h => (·.length_operands)
    · exact sum_neighbourhoods few inRange found (fun e he => (inRange e he).1) fun id h => (·.length_consumers)

/-- A node that feeds itself twice over, and a sum that gets its left operand twice from it and none from elsewhere, which
feeds the node in turn. -/
def looped : Program where
  nodes := [.relinearize, .add]
  edges := [⟨0, 0, .unary⟩, ⟨0, 1, .left⟩, ⟨0, 0, .unary⟩, ⟨1, 0, .unary⟩, ⟨0, 1, .left⟩]

theorem looped_neighbourhoods_dual :
    looped.nodeCount ≤ UInt32.size ∧ looped.InRange ∧
      (∃ h, looped.neighbourhood 0 = .ok h ∧ h.operands.count ⟨0, .unary⟩ = 2 ∧ h.consumers.count ⟨0, .unary⟩ = 2 ∧
        h.consumers.count ⟨1, .left⟩ = 2) ∧
      ∃ hs, looped.neighbourhoods = .ok hs ∧ (hs.map (·.operands.length)).sum = 5 ∧
        (hs.map (·.consumers.length)).sum = 5 := by
  have few : looped.nodeCount ≤ UInt32.size := by decide
  have inRange : looped.InRange := by decide
  obtain ⟨exist, dual, hs, found, -, operands, consumers⟩ := neighbourhoods_dual looped few inRange
  obtain ⟨node, foundNode, -⟩ := exist 0 .relinearize rfl
  obtain ⟨sum, foundSum, -⟩ := exist 1 .add rfl
  obtain ⟨same, self⟩ := dual 0 0 node node foundNode foundNode .unary
  obtain ⟨-, left⟩ := dual 0 1 node sum foundNode foundSum .left
  exact ⟨few, inRange, ⟨node, foundNode, same.trans self, self, left⟩, hs, found, operands, consumers⟩

end Program

end CipherGraph
