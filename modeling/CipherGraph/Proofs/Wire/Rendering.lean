import CipherGraph.Proofs.Program.Arity
import CipherGraph.Proofs.Program.Drawing
import CipherGraph.Proofs.Wire.RoundTrip
import CipherGraph.Wire.Views

/-! # What the text of a drawing tells

The text of a drawing determines the program that is drawn. A value is read back from its text whatever comes after it, so
the text tells the nodes and the edges apart. An edge is told in full. A node is told by its title only, for its type does
not show the slot, and marks overwrite it; but no two operations have the same title. -/

namespace CipherGraph
open Json

/-! ### Titles -/

namespace Operation

/-- The titles of inputs, and no others, are made of digits. -/
theorem isDigit_label (op : Operation) : op.label.toList.all Char.isDigit = op.isInput := by
  cases op with
  | input slot =>
    rw [label, Nat.toString_eq_repr, Nat.toList_repr]
    exact List.all_eq_true.mpr fun _ => Nat.isDigit_of_mem_toDigits (by decide) (by decide)
  | _ => decide

theorem label_injective {a b : Operation} (h : a.label = b.label) : a = b := by
  have kinds : a.isInput = b.isInput := by rw [← isDigit_label, ← isDigit_label, h]
  cases a with
  | input slot =>
    cases b with
    | input slot' =>
      rw [UInt64.toNat_inj.mp (Decimal.toString_injective h)]
    | _ => cases kinds
  | _ =>
    cases b with
    | input slot => cases kinds
    | _ => first | rfl | exact absurd h (by decide)

/-- The description of an input is its slot in brackets, and no other operation has brackets in its description. -/
theorem description_injective {a b : Operation} (h : a.description = b.description) : a = b := by
  have bracket (op : Operation) : (op.description.toList.getLast? = some ')') ↔ op.isInput = true := by
    cases op with
    | input slot =>
      refine iff_of_true ?_ rfl
      unfold description
      rw [String.toList_append]
      exact List.getLast?_concat
    | _ => decide
  have kinds : a.isInput = true ↔ b.isInput = true := by rw [← bracket, ← bracket, h]
  cases a with
  | input slot =>
    cases b with
    | input slot' =>
      have digits := (String.append_right_inj _).mp ((String.append_left_inj _).mp h)
      rw [UInt64.toNat_inj.mp (Decimal.toString_injective digits)]
    | _ => cases kinds.mp rfl
  | _ =>
    cases b with
    | input slot => cases kinds.mpr rfl
    | _ => exact label_injective h

end Operation

/-! ### Texts of values -/

/-- A value and what comes after it are told by the text of both. -/
theorem Json.print_append_inj {layout : Layout} (blanks : layout.OnlyBlanks) {depth level : Nat} {v w : Json}
    (exactV : Exact depth v) (exactW : Exact depth w) {rest rest' : List Char} (ends : Reader.EndsNumber rest)
    (ends' : Reader.EndsNumber rest') (h : v.print layout level ++ rest = w.print layout level ++ rest') :
    v = w ∧ rest = rest' := by
  obtain ⟨s, text, value⟩ := printsAs_of_exact blanks exactV level
  obtain ⟨s', text', value'⟩ := printsAs_of_exact blanks exactW level
  have read := Reader.result?_tree_spelling s depth .none {} ends
  have read' := Reader.result?_tree_spelling s' depth .none {} ends'
  rw [text, h, ← text'] at read
  have same := read.symm.trans read'
  rw [value, value', Option.map_some, Option.map_some, Option.some.injEq, Prod.mk.injEq] at same
  exact ⟨same.1, congrArg Cursor.rest same.2⟩

/-! ### Written views -/

theorem NodeId.exact_toJson (id : NodeId) (depth : Nat) : Exact depth id.toJson :=
  exact_ofNat depth (Nat.lt_trans id.toNat_lt (by decide))

theorem NodeId.toJson_injective {a b : NodeId} (h : a.toJson = b.toJson) : a = b := by
  simp only [toJson, Json.ofNat, Json.number.injEq, Number.integer.injEq] at h
  exact UInt32.toNat_inj.mp (Int.ofNat.inj h)

theorem Role.toJson_injective {r s : Role} (h : r.toJson = s.toJson) : r = s := by
  have read := Decoder.role_toJson r
  rw [h] at read
  exact Except.ok.inj (read.symm.trans (Decoder.role_toJson s))

theorem NodeKind.name_injective {a b : NodeKind} (h : a.name = b.name) : a = b := by
  cases a <;> cases b <;> first | rfl | exact absurd h (by decide)

namespace DrawnNode
variable {a b : DrawnNode}

theorem exact_toJson (n : DrawnNode) (depth : Nat) : Exact (depth + 1) n.toJson := by
  refine .object fun m hm => ?_
  simp only [List.mem_cons, List.not_mem_nil, or_false] at hm
  rcases hm with rfl | rfl | rfl
  · exact NodeId.exact_toJson n.id depth
  · exact .string _ _
  · exact .string _ _

theorem toJson_injective (h : a.toJson = b.toJson) : a = b := by
  obtain ⟨id, title, kind⟩ := a
  simp only [toJson, Json.object.injEq, List.cons.injEq, Prod.mk.injEq, Json.string.injEq, true_and, and_true] at h
  obtain ⟨sameId, sameTitle, sameKind⟩ := h
  rw [NodeId.toJson_injective sameId, sameTitle, NodeKind.name_injective sameKind]

end DrawnNode

namespace Edge
variable {a b : Edge}

theorem exact_toRenderJson (e : Edge) (depth : Nat) : Exact (depth + 1) e.toRenderJson := by
  refine .object fun m hm => ?_
  simp only [List.mem_cons, List.not_mem_nil, or_false] at hm
  rcases hm with rfl | rfl | rfl
  · exact NodeId.exact_toJson e.source depth
  · exact NodeId.exact_toJson e.target depth
  · exact .string _ _

theorem toRenderJson_injective (h : a.toRenderJson = b.toRenderJson) : a = b := by
  obtain ⟨source, target, role⟩ := a
  simp only [toRenderJson, Json.object.injEq, List.cons.injEq, Prod.mk.injEq, true_and, and_true] at h
  obtain ⟨sameSource, sameTarget, sameRole⟩ := h
  rw [NodeId.toJson_injective sameSource, NodeId.toJson_injective sameTarget, Role.toJson_injective sameRole]

end Edge

/-- What is counted in a warning can be written down as a word. -/
def Warning.Counted : Warning → Prop
  | .duplicate _ _ count => count < UInt64.size
  | _ => True

theorem Warning.Counted.exact {w : Warning} (h : w.Counted) (depth : Nat) : Exact (depth + 1) w.toJson := by
  have plain (kind : String) (node : NodeId) (role : Role) : Exact (depth + 1)
      (.object [("kind", .string kind), ("node", node.toJson), ("role", role.toJson)]) := by
    refine .object fun m hm => ?_
    simp only [List.mem_cons, List.not_mem_nil, or_false] at hm
    rcases hm with rfl | rfl | rfl
    · exact .string _ _
    · exact NodeId.exact_toJson node depth
    · exact .string _ _
  cases w with
  | missing node role => exact plain _ node role
  | unexpected node role => exact plain _ node role
  | duplicate node role count =>
    refine .object fun m hm => ?_
    simp only [List.mem_cons, List.not_mem_nil, or_false] at hm
    rcases hm with rfl | rfl | rfl | rfl
    · exact .string _ _
    · exact NodeId.exact_toJson node depth
    · exact .string _ _
    · exact exact_ofNat depth h

/-- The counts in the warnings of a program are bounded by the number of its edges. -/
theorem Program.counted_warnings {p : Program} (few : p.edgeCount < UInt64.size) : ∀ w ∈ p.warnings, w.Counted := by
  intro w hw
  obtain ⟨i, op, -, -, holds⟩ := mem_warnings_iff.mp hw
  cases w with
  | missing node role => exact trivial
  | unexpected node role => exact trivial
  | duplicate node role count =>
    obtain ⟨-, counted, -⟩ := holds
    exact counted ▸ Nat.lt_of_le_of_lt List.countP_le_length few

namespace Rendering
variable {r s : Rendering}

def nodesJson (r : Rendering) : Json :=
  .array (r.nodes.map (·.toJson))

def edgesJson (r : Rendering) : Json :=
  .array (r.edges.map (·.toRenderJson))

theorem exact_nodesJson (r : Rendering) (depth : Nat) : Exact (depth + 2) r.nodesJson := by
  refine .array fun v hv => ?_
  obtain ⟨n, -, rfl⟩ := List.mem_map.mp hv
  exact n.exact_toJson depth

theorem exact_edgesJson (r : Rendering) (depth : Nat) : Exact (depth + 2) r.edgesJson := by
  refine .array fun v hv => ?_
  obtain ⟨e, -, rfl⟩ := List.mem_map.mp hv
  exact e.exact_toRenderJson depth

def Counted (r : Rendering) : Prop :=
  ∀ w ∈ r.warnings, w.Counted

theorem Counted.exact (h : r.Counted) (depth : Nat) : Exact (depth + 3) r.toJson := by
  refine .object fun m hm => ?_
  rcases List.mem_append.mp hm with parts | warned
  · simp only [List.mem_cons, List.not_mem_nil, or_false] at parts
    rcases parts with rfl | rfl
    · exact r.exact_nodesJson depth
    · exact r.exact_edgesJson depth
  · split at warned
    · cases warned
    · cases List.mem_singleton.mp warned
      refine .array fun v hv => ?_
      obtain ⟨w, hw, rfl⟩ := List.mem_map.mp hv
      exact (h w hw).exact depth

/-- A mark changes no warning. -/
theorem Counted.markWarnings (h : r.Counted) : r.markWarnings.Counted :=
  h

/-! ### Texts of drawings -/

theorem nodes_eq_of_nodesJson (h : r.nodesJson = s.nodesJson) : r.nodes = s.nodes :=
  List.map_injective_iff.mpr (fun _ _ => DrawnNode.toJson_injective) (Json.array.inj h)

theorem edges_eq_of_edgesJson (h : r.edgesJson = s.edgesJson) : r.edges = s.edges :=
  List.map_injective_iff.mpr (fun _ _ => Edge.toRenderJson_injective) (Json.array.inj h)

/-- The text of a drawing begins with its nodes and its edges. The warnings come after them, if there are any. -/
theorem toList_compact (r : Rendering) : ∃ ch rest, (ch = ',' ∨ ch = '\x7d') ∧
    r.toJson.compact.toList = '\x7b' :: (printString "nodes" ++ ':' :: (r.nodesJson.print .compact 1 ++
      ',' :: (printString "edges" ++ ':' :: (r.edgesJson.print .compact 1 ++ ch :: rest)))) := by
  obtain ⟨nodes, edges, warnings⟩ := r
  cases warnings with
  | nil =>
    refine ⟨'\x7d', [], Or.inr rfl, ?_⟩
    simp [toJson, Json.compact, Json.print, Json.printMembers, Layout.compact, nodesJson, edgesJson]
  | cons w ws =>
    refine ⟨',', printString "warnings" ++ ':' :: ((Json.array ((w :: ws).map (·.toJson))).print .compact 1 ++ ['\x7d']),
      Or.inl rfl, ?_⟩
    simp [toJson, Json.compact, Json.print, Json.printMembers, Layout.compact, nodesJson, edgesJson]

/-- The text of a drawing tells its nodes and its edges. -/
theorem parts_of_compact (h : r.toJson.compact = s.toJson.compact) : r.nodes = s.nodes ∧ r.edges = s.edges := by
  obtain ⟨ch, rest, last, text⟩ := r.toList_compact
  obtain ⟨ch', rest', last', text'⟩ := s.toList_compact
  have same := text.symm.trans ((congrArg String.toList h).trans text')
  -- The first member is over where a comma follows, so that the second one begins at the same place.
  have fromNodes := List.cons.inj (List.append_cancel_left (List.cons.inj same).2)
  obtain ⟨nodes, afterNodes⟩ := print_append_inj Layout.onlyBlanks_compact (r.exact_nodesJson 0) (s.exact_nodesJson 0)
    (Reader.endsNumber_cons (Or.inl rfl)) (Reader.endsNumber_cons (Or.inl rfl)) fromNodes.2
  have fromEdges := List.cons.inj (List.append_cancel_left (List.cons.inj afterNodes).2)
  obtain ⟨edges, -⟩ := print_append_inj Layout.onlyBlanks_compact (r.exact_edgesJson 0) (s.exact_edgesJson 0)
    (Reader.endsNumber_cons (last.imp_right Or.inr)) (Reader.endsNumber_cons (last'.imp_right Or.inr)) fromEdges.2
  exact ⟨nodes_eq_of_nodesJson nodes, edges_eq_of_edgesJson edges⟩

end Rendering

theorem exact_ofInt64 (i : Int64) (depth : Nat) : Exact depth (.ofInt i.toInt) := by
  have high := i.toInt_lt
  exact .integer depth ⟨i.minValue_le_toInt, Int.lt_trans high (by decide)⟩

def Snapshot.Counted (s : Snapshot) : Prop :=
  ∀ r ∈ s.rendered, r.Counted

theorem Snapshot.Counted.exact {s : Snapshot} (h : s.Counted) (depth : Nat) : Exact (depth + 4) s.toJson := by
  refine .object fun m hm => ?_
  simp only [List.mem_append, List.mem_cons, List.not_mem_nil, or_false] at hm
  rcases hm with ((rfl | rfl | rfl) | told) | rfl
  · exact exact_ofInt64 s.line _
  · refine .array fun v hv => ?_
    obtain ⟨id, -, rfl⟩ := List.mem_map.mp hv
    exact NodeId.exact_toJson id _
  · cases shown : s.rendered with
    | none => exact .null _
    | some r => exact (h r shown).exact depth
  · split at told
    · cases List.mem_singleton.mp told
      exact .string _ _
    · cases told
  · exact exact_ofNat _ s.generation.toNat_lt

/-! ### Drawings of programs -/

namespace Program
variable {p q : Program} {r s : Rendering}

theorem counted_drawing (hr : p.render = .ok r) (few : p.edgeCount < UInt64.size) : r.Counted := by
  intro w hw
  rw [warnings_of_render hr] at hw
  exact counted_warnings few w hw

/-- Drawings with the same titles and the same edges, marked or not, are of one program. -/
theorem eq_of_titles (hr : p.render = .ok r) (hs : q.render = .ok s)
    (titles : ∀ i : Nat, (r.nodes[i]?).map (·.title) = (s.nodes[i]?).map (·.title)) (edges : r.edges = s.edges) : p = q := by
  have nodes : p.nodes = q.nodes := by
    refine List.ext_getElem? fun i => ?_
    have same := titles i
    rw [render_nodes_getElem? hr, render_nodes_getElem? hs, Option.map_map, Option.map_map] at same
    exact Option.map_injective (fun _ _ => Operation.label_injective) same
  rw [edges_of_render hr, edges_of_render hs] at edges
  cases p
  cases q
  cases nodes
  cases edges
  rfl

/-- The text of a drawing determines the program, and so does the text of the drawing with the nodes of its warnings
marked, in which a program is shown: all operations with their slots, and all edges, in order. -/
theorem drawing_determines (hp : p.InRange) (hq : q.InRange) : ∃ r s,
    p.render = .ok r ∧ q.render = .ok s ∧ (r.toJson.compact = s.toJson.compact → p = q) ∧
      p.view = .ok r.markWarnings ∧ q.view = .ok s.markWarnings ∧
      (r.markWarnings.toJson.compact = s.markWarnings.toJson.compact → p = q) := by
  obtain ⟨r, hr, viewP⟩ := hp.view
  obtain ⟨s, hs, viewQ⟩ := hq.view
  refine ⟨r, s, hr, hs, fun same => ?_, viewP, viewQ, fun same => ?_⟩
  · obtain ⟨nodes, edges⟩ := Rendering.parts_of_compact same
    exact eq_of_titles hr hs (fun i => by rw [nodes]) edges
  · obtain ⟨nodes, edges⟩ := Rendering.parts_of_compact same
    refine eq_of_titles hr hs (fun i => ?_) edges
    -- A mark changes the type of a node and leaves its title.
    rw [← (flagsAt_markWarnings hr).title? i, ← (flagsAt_markWarnings hs).title? i, nodes]

/-- An input or a sum that gets an operand in a role that it does not take, so that it is marked. -/
def overfed (op : Operation) : Program :=
  ⟨[op, .input 7], [⟨1, 0, .unary⟩]⟩

theorem drawing_determines_slot : ∃ r s,
    (overfed (.input 1)).view = .ok r ∧ (overfed (.input 2)).view = .ok s ∧
      r.problematic = [0] ∧ s.problematic = [0] ∧ r.toJson.compact ≠ s.toJson.compact := by
  have first : (overfed (.input 1)).InRange := by decide
  have second : (overfed (.input 2)).InRange := by decide
  obtain ⟨r, s, -, -, -, viewP, viewQ, determined⟩ := drawing_determines first second
  have problematic : (overfed (.input 1)).view.toOption.map (·.problematic) = some [0] ∧
      (overfed (.input 2)).view.toOption.map (·.problematic) = some [0] := by
    decide
  rw [viewP, viewQ] at problematic
  obtain ⟨markedP, markedQ⟩ := problematic
  exact ⟨_, _, viewP, viewQ, Option.some.inj markedP, Option.some.inj markedQ,
    fun same => absurd (determined same) (by decide)⟩

end Program

end CipherGraph
