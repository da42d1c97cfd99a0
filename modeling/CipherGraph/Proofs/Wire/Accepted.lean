import CipherGraph.Proofs.Json.Agreement
import CipherGraph.Proofs.Json.Canonical
import CipherGraph.Wire.Program

/-! # Programs that are accepted

A node is accepted where its operation is its only part, a program where its nodes and its edges are its parts. Both
decoders of programs follow: the reader of texts finds what the decoder of values finds in the same value, and the
decoder of values is stable. -/

namespace CipherGraph
open Json

namespace Decoder
open Json.Decoder

/-! ### Records -/

abbrev nodeParts : Record NodeParts (Step NodeParts) Operation :=
  nodeRecord fun s v => do return { s with operation := some (← operation v) }

abbrev programParts : Record ProgramParts (Step ProgramParts) Program :=
  programRecord (fun s v => do return { s with nodes := some (← list node v) })
    (fun s v => do return { s with edges := some (← list edge v) })

theorem nodeParts_member (s : NodeParts) (m : String × Json) :
    (recordMember nodeParts s m).toOption =
      if m.1 = "operation" then (takeIn? operation s.operation [m.2]).map fun op => ⟨op⟩ else some s := by
  unfold recordMember
  by_cases h : m.1 = "operation"
  · cases hs : s.operation with
    | some op => simp [Record.field?, nodeRecord, h, hs, takeIn?]; rfl
    | none =>
      simp [Record.field?, nodeRecord, h, hs, takeIn?]
      cases operation m.2 <;> rfl
  · simp [Record.field?, nodeRecord, h, Ne.symm h]
    rfl

theorem programParts_member (s : ProgramParts) (m : String × Json) :
    (recordMember programParts s m).toOption =
      if m.1 = "nodes" then (takeIn? (list node) s.nodes [m.2]).map fun ns => { s with nodes := ns }
      else if m.1 = "edges" then (takeIn? (list edge) s.edges [m.2]).map fun es => { s with edges := es }
      else some s := by
  unfold recordMember
  by_cases h : m.1 = "nodes"
  · cases hs : s.nodes with
    | some ns => simp [Record.field?, programRecord, h, hs, takeIn?]; rfl
    | none =>
      simp [Record.field?, programRecord, h, hs, takeIn?]
      cases list node m.2 <;> rfl
  by_cases h' : m.1 = "edges"
  · cases hs : s.edges with
    | some ns => simp [Record.field?, programRecord, h', hs, takeIn?]; rfl
    | none =>
      simp [Record.field?, programRecord, h', hs, takeIn?]
      cases list edge m.2 <;> rfl
  · simp [Record.field?, programRecord, h, h', Ne.symm h, Ne.symm h']
    rfl

theorem nodeParts_members (s : NodeParts) (ms : List (String × Json)) :
    (ms.foldlM (recordMember nodeParts) s).toOption =
      (takeIn? operation s.operation (valuesOf "operation" ms)).map fun op => ⟨op⟩ := by
  induction ms generalizing s with
  | nil => rfl
  | cons m ms ih =>
    rw [List.foldlM_cons, toOption_bind, nodeParts_member, valuesOf_cons]
    split
    · rw [takeIn?_cons _ (valuesOf _ ms)]
      simp only [ih, Option.bind_map, Option.map_bind, Function.comp_def]
    · exact ih s

theorem programParts_members (s : ProgramParts) (ms : List (String × Json)) :
    (ms.foldlM (recordMember programParts) s).toOption =
      (takeIn? (list node) s.nodes (valuesOf "nodes" ms)).bind fun ns =>
        (takeIn? (list edge) s.edges (valuesOf "edges" ms)).map fun es => ⟨ns, es⟩ := by
  induction ms generalizing s with
  | nil => rfl
  | cons m ms ih =>
    rw [List.foldlM_cons, toOption_bind, programParts_member, valuesOf_cons, valuesOf_cons]
    by_cases h : m.1 = "nodes"
    · rw [if_pos h, if_pos h, if_neg (by simp [h]), takeIn?_cons _ (valuesOf _ ms)]
      simp only [ih, Option.bind_map, Option.bind_assoc, Function.comp_def]
    rw [if_neg h, if_neg h]
    by_cases h' : m.1 = "edges"
    · rw [if_pos h', if_pos h', takeIn?_cons _ (valuesOf "edges" ms)]
      simp only [ih, Option.bind_map, Option.map_bind, Function.comp_def]
      cases takeIn? (list edge) s.edges [m.2] <;> simp
    · rw [if_neg h', if_neg h', Option.bind_some, ih]

/-! ### What is accepted -/

theorem node_eq_ok_iff {v : Json} {op : Operation} :
    node v = .ok op ↔ ∃ w, v.HasParts ["operation"] [w] ∧ operation w = .ok op := by
  cases v with
  | array items =>
    refine record_array_eq_ok_iff.trans ⟨?_, ?_⟩
    · rintro ⟨s, h, rfl⟩
      obtain ⟨w, _, _, rfl, hw, hrest⟩ := (recordItems_cons_eq_ok_iff rfl).mp h
      cases hrest
      obtain ⟨op, hop, kept⟩ := bind_eq_ok_iff.mp hw
      cases kept
      exact ⟨w, hasParts_array_iff.mpr rfl, hop⟩
    · rintro ⟨w, parts, hop⟩
      cases hasParts_array_iff.mp parts
      refine ⟨⟨some op⟩, (recordItems_cons_eq_ok_iff rfl).mpr ⟨w, [], _, rfl, ?_, rfl⟩, rfl⟩
      exact bind_eq_ok_iff.mpr ⟨op, hop, rfl⟩
  | object ms =>
    refine record_object_eq_ok_iff.trans ?_
    simp only [← toOption_eq_some_iff, nodeParts_members, Option.map_eq_some_iff, hasParts_object_iff]
    constructor
    · rintro ⟨_, ⟨known, taken, rfl⟩, given, rfl⟩
      cases known with
      | none => cases given
      | some op =>
        obtain ⟨w, hw, hop⟩ := takeIn?_eq_some_iff.mp taken
        exact ⟨w, .cons hw .nil, toOption_eq_some_iff.mpr hop⟩
    · rintro ⟨w, parts, hop⟩
      cases parts with
      | cons hw _ =>
        exact ⟨_, ⟨_, takeIn?_eq_some_iff.mpr ⟨w, hw, toOption_eq_some_iff.mp hop⟩, rfl⟩, rfl, rfl⟩
  | _ => simp [node, record, mismatch, HasParts]

theorem program_array_eq_ok_iff {items : List Json} {p : Program} :
    program (.array items) = .ok p ↔ ∃ ns es, (Json.array items).HasParts ["nodes", "edges"] [ns, es] ∧
      list node ns = .ok p.nodes ∧ list edge es = .ok p.edges := by
  refine record_array_eq_ok_iff.trans ⟨?_, ?_⟩
  · rintro ⟨s, h, rfl⟩
    obtain ⟨ns, _, _, rfl, hns, hrest⟩ := (recordItems_cons_eq_ok_iff rfl).mp h
    obtain ⟨es, _, _, rfl, hes, hrest⟩ := (recordItems_cons_eq_ok_iff rfl).mp hrest
    cases hrest
    obtain ⟨nodes, hnodes, kept⟩ := bind_eq_ok_iff.mp hns
    cases kept
    obtain ⟨edges, hedges, kept⟩ := bind_eq_ok_iff.mp hes
    cases kept
    exact ⟨ns, es, hasParts_array_iff.mpr rfl, hnodes, hedges⟩
  · rintro ⟨ns, es, parts, hns, hes⟩
    cases hasParts_array_iff.mp parts
    refine ⟨⟨some p.nodes, some p.edges⟩, ?_, rfl⟩
    refine (recordItems_cons_eq_ok_iff rfl).mpr ⟨ns, [es], ⟨some p.nodes, none⟩, rfl, ?_, ?_⟩
    · exact bind_eq_ok_iff.mpr ⟨p.nodes, hns, rfl⟩
    · refine (recordItems_cons_eq_ok_iff rfl).mpr ⟨es, [], ⟨some p.nodes, some p.edges⟩, rfl, ?_, rfl⟩
      exact bind_eq_ok_iff.mpr ⟨p.edges, hes, rfl⟩

theorem program_object_eq_ok_iff {ms : List (String × Json)} {p : Program} :
    program (.object ms) = .ok p ↔ ∃ ns es, (Json.object ms).HasParts ["nodes", "edges"] [ns, es] ∧
      list node ns = .ok p.nodes ∧ list edge es = .ok p.edges := by
  refine record_object_eq_ok_iff.trans ?_
  simp only [← toOption_eq_some_iff, programParts_members, Option.map_eq_some_iff, Option.bind_eq_some_iff,
    hasParts_object_iff]
  constructor
  · rintro ⟨_, ⟨nodes, takenNodes, edges, takenEdges, rfl⟩, given, rfl⟩
    cases nodes with
    | none => cases given
    | some nodes =>
      cases edges with
      | none => cases given
      | some edges =>
        obtain ⟨ns, hns, hnodes⟩ := takeIn?_eq_some_iff.mp takenNodes
        obtain ⟨es, hes, hedges⟩ := takeIn?_eq_some_iff.mp takenEdges
        exact ⟨ns, es, .cons hns (.cons hes .nil), toOption_eq_some_iff.mpr hnodes, toOption_eq_some_iff.mpr hedges⟩
  · rintro ⟨ns, es, parts, hnodes, hedges⟩
    cases parts with
    | cons hns parts =>
      cases parts with
      | cons hes _ =>
        exact ⟨_, ⟨_, takeIn?_eq_some_iff.mpr ⟨ns, hns, toOption_eq_some_iff.mp hnodes⟩,
          _, takeIn?_eq_some_iff.mpr ⟨es, hes, toOption_eq_some_iff.mp hedges⟩, rfl⟩, rfl, rfl⟩

theorem program_eq_ok_iff {v : Json} {p : Program} :
    program v = .ok p ↔ ∃ ns es, v.HasParts ["nodes", "edges"] [ns, es] ∧
      list node ns = .ok p.nodes ∧ list edge es = .ok p.edges := by
  cases v with
  | array items => exact program_array_eq_ok_iff
  | object ms => exact program_object_eq_ok_iff
  | _ => simp [program, record, mismatch, HasParts]

/-! ### Canonical forms -/

/-- The node names its operation once, and the object of its operation repeats no key. -/
def NodeGivenOnce (v : Json) : Prop :=
  v.NamedOnce ["operation"] ∧ ∀ w, v.HasParts ["operation"] [w] → DistinctMembers w

/-- The program names its nodes and its edges once, each node names its operation once, and the objects of operations
and of edge types repeat no key. -/
def ProgramGivenOnce (v : Json) : Prop :=
  v.NamedOnce ["nodes", "edges"] ∧ ∀ ns es, v.HasParts ["nodes", "edges"] [ns, es] →
    EachItem NodeGivenOnce ns ∧ EachItem (ThirdItem DistinctMembers) es

theorem stable_operation : Stable operation DistinctMembers :=
  stable_variant _

theorem stable_edge : Stable edge (ThirdItem DistinctMembers) :=
  (stable_triple stable_word32 stable_word32 (stable_variant _)).map _

theorem stable_node : Stable node NodeGivenOnce where
  canonical h := by
    obtain ⟨w, parts, hw⟩ := node_eq_ok_iff.mp h
    exact node_eq_ok_iff.mpr ⟨_, parts.canonical, stable_operation.canonical hw⟩
  of_canonical once h := by
    obtain ⟨_, parts, hw⟩ := node_eq_ok_iff.mp h
    obtain ⟨us, parts, hus⟩ := parts.of_canonical once.1
    obtain ⟨w, _, rfl, rfl, hrest⟩ := List.map_eq_cons_iff.mp hus.symm
    cases List.map_eq_nil_iff.mp hrest
    exact node_eq_ok_iff.mpr ⟨w, parts, stable_operation.of_canonical (once.2 w parts) hw⟩
  once h := by
    obtain ⟨w, parts, hw⟩ := node_eq_ok_iff.mp h
    refine ⟨parts.namedOnce, fun w' parts' => ?_⟩
    cases parts.unique parts'
    exact stable_operation.once hw
  distinct hv := ⟨hv.namedOnce, fun w parts => stable_operation.distinct (parts.distinct hv List.mem_cons_self)⟩

theorem stable_program : Stable program ProgramGivenOnce where
  canonical h := by
    obtain ⟨ns, es, parts, hns, hes⟩ := program_eq_ok_iff.mp h
    exact program_eq_ok_iff.mpr ⟨_, _, parts.canonical, (stable_list stable_node).canonical hns,
      (stable_list stable_edge).canonical hes⟩
  of_canonical once h := by
    obtain ⟨_, _, parts, hns, hes⟩ := program_eq_ok_iff.mp h
    obtain ⟨us, parts, hus⟩ := parts.of_canonical once.1
    obtain ⟨ns, _, rfl, rfl, hrest⟩ := List.map_eq_cons_iff.mp hus.symm
    obtain ⟨es, _, rfl, rfl, hrest'⟩ := List.map_eq_cons_iff.mp hrest
    cases List.map_eq_nil_iff.mp hrest'
    obtain ⟨nodes, edges⟩ := once.2 ns es parts
    exact program_eq_ok_iff.mpr ⟨ns, es, parts, (stable_list stable_node).of_canonical nodes hns,
      (stable_list stable_edge).of_canonical edges hes⟩
  once h := by
    obtain ⟨ns, es, parts, hns, hes⟩ := program_eq_ok_iff.mp h
    refine ⟨parts.namedOnce, fun ns' es' parts' => ?_⟩
    cases parts.unique parts'
    exact ⟨(stable_list stable_node).once hns, (stable_list stable_edge).once hes⟩
  distinct hv := by
    refine ⟨hv.namedOnce, fun ns es parts => ?_⟩
    exact ⟨(stable_list stable_node).distinct (parts.distinct hv (by simp)),
      (stable_list stable_edge).distinct (parts.distinct hv (by simp))⟩

end Decoder

/-! ### Texts -/

namespace Reader
open Json.Reader

theorem agrees_operation : Agrees operation Decoder.operation :=
  agrees_variant _

theorem agrees_edge : Agrees edge Decoder.edge :=
  (agrees_triple agrees_word32 agrees_word32 (agrees_variant _)).map _

theorem agrees_node : Agrees node Decoder.node :=
  agrees_record
    (r := nodeRecord (fun s => do return { s with operation := some (← operation) },
      fun s v => do return { s with operation := some (← Decoder.operation v) }))
    (by simpa [nodeRecord] using agrees_operation.step fun (s : NodeParts) op => { s with operation := some op })
    (by simp [nodeRecord])

theorem agrees_program : Agrees program Decoder.program := by
  have nodes := (agrees_list agrees_node).step fun (s : ProgramParts) ns => { s with nodes := some ns }
  have edges := (agrees_list agrees_edge).step fun (s : ProgramParts) es => { s with edges := some es }
  exact agrees_record
    (r := programRecord
      (fun s => do return { s with nodes := some (← list node) },
        fun s v => do return { s with nodes := some (← Json.Decoder.list Decoder.node v) })
      (fun s => do return { s with edges := some (← list edge) },
        fun s v => do return { s with edges := some (← Json.Decoder.list Decoder.edge v) }))
    (List.forall_mem_cons.mpr ⟨nodes, List.forall_mem_cons.mpr ⟨edges, by simp⟩⟩) (by simp [programRecord])

end Reader

end CipherGraph
