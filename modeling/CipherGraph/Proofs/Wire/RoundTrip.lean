import CipherGraph.Proofs.Json.Printing
import CipherGraph.Proofs.Wire.Agreement

/-! # Programs that are written and read back

What is written for a program is decoded as that program, from either layout of its text and from its generic value:
all slots, all ends of edges, and nodes and edges in their order and as often as they stand there. -/

namespace CipherGraph
open Json

/-! ### Written values -/

theorem exact_ofNat {n : Nat} (depth : Nat) (h : n < UInt64.size) : Exact depth (.ofNat n) := by
  refine .integer depth ⟨?_, by omega⟩
  have : Int64.minValue.toInt ≤ 0 := by decide
  omega

theorem Operation.exact_toJson (op : Operation) (depth : Nat) : Exact (depth + 1) op.toJson := by
  cases op with
  | input slot =>
    refine .object fun m hm => ?_
    cases List.mem_singleton.mp hm
    exact exact_ofNat depth slot.toNat_lt
  | _ => exact .string _ _

theorem Edge.exact_toJson (e : Edge) (depth : Nat) : Exact (depth + 1) e.toJson := by
  have small (id : NodeId) : id.toNat < UInt64.size := Nat.lt_trans id.toNat_lt (by decide)
  refine .array fun v hv => ?_
  simp only [List.mem_cons, List.not_mem_nil, or_false] at hv
  rcases hv with rfl | rfl | rfl
  · exact exact_ofNat depth (small _)
  · exact exact_ofNat depth (small _)
  · exact .string _ _

theorem Program.exact_toJson (p : Program) (depth : Nat) : Exact (depth + 4) p.toJson := by
  refine .object fun m hm => ?_
  simp only [List.mem_cons, List.not_mem_nil, or_false] at hm
  rcases hm with rfl | rfl
  · refine .array fun v hv => ?_
    obtain ⟨op, -, rfl⟩ := List.mem_map.mp hv
    refine .object fun m hm => ?_
    cases List.mem_singleton.mp hm
    exact op.exact_toJson depth
  · refine .array fun v hv => ?_
    obtain ⟨e, -, rfl⟩ := List.mem_map.mp hv
    exact e.exact_toJson (depth + 1)

/-! ### Decoding what is written -/

namespace Decoder
open Json.Decoder

/-- A number in range is taken as it is. -/
theorem integer_ofNat (range : IntegerRange) {n : Nat} (low : range.low ≤ 0) (high : n ≤ range.high) :
    integer range (.ofNat n) = .ok n := by
  have contained : range.contains n = true := by
    simp only [IntegerRange.contains, Bool.and_eq_true, decide_eq_true_eq]
    omega
  exact if_pos contained

theorem word32_ofNat (w : UInt32) : word32 (.ofNat w.toNat) = .ok w := by
  have read := integer_ofNat .word32 (by decide) (Int.le_sub_one_of_lt (Int.ofNat_lt.mpr w.toNat_lt))
  rw [word32, read]
  exact congrArg Except.ok (UInt32.ofNat_toNat)

theorem word64_ofNat (w : UInt64) : word64 (.ofNat w.toNat) = .ok w := by
  have read := integer_ofNat .word64 (by decide) (Int.le_sub_one_of_lt (Int.ofNat_lt.mpr w.toNat_lt))
  rw [word64, read]
  exact congrArg Except.ok (UInt64.ofNat_toNat)

theorem integer_ofInt64 (i : Int64) : integer .signed64 (.ofInt i.toInt) = .ok i.toInt := by
  have contained : IntegerRange.signed64.contains i.toInt = true := by
    simp only [IntegerRange.contains, Bool.and_eq_true, decide_eq_true_eq]
    exact ⟨i.minValue_le_toInt, i.toInt_le⟩
  exact if_pos contained

theorem operation_toJson (op : Operation) : operation op.toJson = .ok op := by
  cases op with
  | input slot =>
    refine variant_eq_ok_iff.mpr (.inr ⟨"InputCiphertext", .ofNat slot.toNat, .counted _ .input, rfl, rfl, ?_⟩)
    exact map_eq_ok_iff.mpr ⟨slot, word64_ofNat slot, rfl⟩
  | _ => rfl

theorem role_toJson (r : Role) : role r.toJson = .ok r := by
  cases r <;> rfl

theorem node_nodeToJson (op : Operation) : node op.nodeToJson = .ok op :=
  node_eq_ok_iff.mpr ⟨op.toJson, hasParts_object_iff.mpr (.cons rfl .nil), operation_toJson op⟩

theorem edge_toJson (e : Edge) : edge e.toJson = .ok e :=
  map_eq_ok_iff.mpr ⟨(e.source, e.target, e.role), triple_eq_ok_iff.mpr
    ⟨_, _, _, rfl, word32_ofNat e.source, word32_ofNat e.target, role_toJson e.role⟩, rfl⟩

/-- A list of what is written for some values is decoded as these values. -/
theorem list_map {α : Type} {d : Json.Decoder α} {write : α → Json} (as : List α) (h : ∀ a ∈ as, d (write a) = .ok a) :
    list d (.array (as.map write)) = .ok as :=
  list_eq_ok_iff.mpr ⟨_, rfl, List.forall₂_map_left_iff.mpr (List.forall₂_same.mpr h)⟩

theorem program_toJson (p : Program) : program p.toJson = .ok p :=
  program_eq_ok_iff.mpr ⟨_, _, hasParts_object_iff.mpr (.cons rfl (.cons rfl .nil)),
    list_map p.nodes fun op _ => node_nodeToJson op, list_map p.edges fun e _ => edge_toJson e⟩

end Decoder

theorem Program.ofText_print {layout : Layout} (blanks : layout.OnlyBlanks) (p : Program) :
    ofText (String.ofList (p.toJson.print layout 0)) = .ok p :=
  ofText_eq_ok_iff.mpr ((Reader.agrees_program.document_eq_ok_iff (document_print blanks (p.exact_toJson 0))).mpr
    (Decoder.program_toJson p))

theorem Program.ofJson_canonical_toJson (p : Program) : ofJson p.toJson.canonical = .ok p :=
  ofJson_eq_ok_iff.mpr (Decoder.stable_program.canonical (Decoder.program_toJson p))

/-- A program that is written can be read back, from both layouts of its text and from its generic value. -/
theorem Program.reads_back (p : Program) :
    ofText p.toJson.compact = .ok p ∧ ofText p.toJson.pretty = .ok p ∧ ofJson p.toJson.canonical = .ok p :=
  ⟨ofText_print Layout.onlyBlanks_compact p, ofText_print Layout.onlyBlanks_pretty p,
    ofJson_eq_ok_iff.mpr (Decoder.stable_program.canonical (Decoder.program_toJson p))⟩

end CipherGraph
