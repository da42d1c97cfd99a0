import CipherGraph.Proofs.Program.Drawing
import CipherGraph.Proofs.Program.Neighbourhood
import CipherGraph.Proofs.Service.Told

/-! # Inspected nodes

The service shows a node in two ways: as a part of the drawing in the selection of a session, and with its neighbours
when the node is inspected. The drawing is stored and the neighbours are found in the program each time, and yet both
tell the same in every state that requests lead to. -/

namespace CipherGraph

/-! ### What an inspection tells -/

/-- A neighbour as it is told in an inspection. -/
structure Link where
  node : NodeId
  title : String
  role : Role
  deriving DecidableEq, Repr

def Link.toJson (l : Link) : Json :=
  .object [("node", l.node.toJson), ("label", .string l.title), ("role", l.role.toJson)]

/-- A node as it is told in an inspection. -/
structure Inspection where
  node : NodeId
  title : String
  operation : Operation
  operands : List Link
  consumers : List Link
  selected : Bool
  deriving DecidableEq, Repr

def Inspection.toJson (i : Inspection) : Json :=
  .object [("id", i.node.toJson), ("label", .string i.title), ("operation", i.operation.toJson),
    ("operands", .array (i.operands.map (·.toJson))), ("consumers", .array (i.consumers.map (·.toJson))),
    ("selected", .bool i.selected)]

/-! ### What a client reads of it -/

namespace Client
open Json Json.Decoder

def link : Json.Decoder Link := fun v => do
  return ⟨← member "node" word32 v, ← member "label" string v, ← member "role" CipherGraph.Decoder.role v⟩

def inspection : Json.Decoder Inspection := fun v => do
  return ⟨← member "id" word32 v, ← member "label" string v, ← member "operation" CipherGraph.Decoder.operation v,
    ← member "operands" (list link) v, ← member "consumers" (list link) v, ← member "selected" bool v⟩

theorem keeps_link : Keeps link :=
  (stable_word32.keeps.member _).bind fun _ => (keeps_string.member _).bind fun _ =>
    (keeps_role.member _).bind fun _ => keeps_of_ok _

theorem keeps_inspection : Keeps inspection :=
  (stable_word32.keeps.member _).bind fun _ => (keeps_string.member _).bind fun _ =>
    (CipherGraph.Decoder.stable_operation.keeps.member _).bind fun _ => (keeps_link.list.member _).bind fun _ =>
      (keeps_link.list.member _).bind fun _ => (keeps_bool.member _).bind fun _ => keeps_of_ok _

theorem link_toJson (l : Link) : link l.toJson = .ok l := by
  refine bind_member rfl (CipherGraph.Decoder.word32_ofNat l.node) ?_
  refine bind_member rfl rfl ?_
  exact bind_member rfl (CipherGraph.Decoder.role_toJson l.role) rfl

theorem inspection_toJson (i : Inspection) : inspection i.toJson = .ok i := by
  have operandsRead := CipherGraph.Decoder.list_map i.operands fun l _ => link_toJson l
  have consumersRead := CipherGraph.Decoder.list_map i.consumers fun l _ => link_toJson l
  refine bind_member rfl (CipherGraph.Decoder.word32_ofNat i.node) ?_
  refine bind_member rfl rfl ?_
  refine bind_member rfl (CipherGraph.Decoder.operation_toJson i.operation) ?_
  refine bind_member rfl operandsRead ?_
  refine bind_member rfl consumersRead ?_
  exact bind_member rfl rfl rfl

end Client

theorem Link.exact_toJson (l : Link) (depth : Nat) : Json.Exact (depth + 1) l.toJson := by
  refine .object fun m hm => ?_
  simp only [List.mem_cons, List.not_mem_nil, or_false] at hm
  rcases hm with rfl | rfl | rfl
  · exact NodeId.exact_toJson l.node depth
  · exact .string _ _
  · exact .string _ _

theorem Inspection.exact_toJson (i : Inspection) (depth : Nat) : Json.Exact (depth + 3) i.toJson := by
  have links (ls : List Link) : Json.Exact (depth + 2) (.array (ls.map (·.toJson))) := by
    refine .array fun v hv => ?_
    obtain ⟨l, -, rfl⟩ := List.mem_map.mp hv
    exact l.exact_toJson depth
  refine .object fun m hm => ?_
  simp only [List.mem_cons, List.not_mem_nil, or_false] at hm
  rcases hm with rfl | rfl | rfl | rfl | rfl | rfl
  · exact NodeId.exact_toJson i.node _
  · exact .string _ _
  · exact i.operation.exact_toJson _
  · exact links i.operands
  · exact links i.consumers
  · exact .bool _ _

theorem Inspection.tells (i : Inspection) : (Response.json 200 i.toJson).Tells 200 Client.inspection i :=
  Response.tells_json Client.keeps_inspection (i.exact_toJson 124) (Client.inspection_toJson i) 200

/-! ### What it agrees with -/

/-- The title of a node in a drawing. -/
def Rendering.title? (drawing : Rendering) (id : NodeId) : Option String :=
  (drawing.node? id).map (·.title)

/-- An inspection tells of a node what a drawing and a set of selected nodes show of it. The operands are the edges that
end in the node and the consumers those that begin at it, each of them as often as it is drawn. -/
structure Inspection.Agrees (i : Inspection) (drawing : Rendering) (selected : NodeSet) (id : NodeId) : Prop where
  node : i.node = id
  title : drawing.title? id = some i.title
  operation : i.operation.label = i.title
  operands : (i.operands.map fun l => (l.node, some l.title, l.role)).Perm
    ((drawing.edges.filter fun e => e.target = id).map fun e => (e.source, drawing.title? e.source, e.role))
  operands_sorted : i.operands.Pairwise fun a b => a.role.rank < b.role.rank ∨ a.role = b.role ∧ a.node ≤ b.node
  consumers : (i.consumers.map fun l => (l.node, some l.title, l.role)).Perm
    ((drawing.edges.filter fun e => e.source = id).map fun e => (e.target, drawing.title? e.target, e.role))
  consumers_sorted :
    i.consumers.Pairwise fun a b => a.node < b.node ∨ a.node = b.node ∧ a.role.rank ≤ b.role.rank
  selected : i.selected = true ↔ id ∈ selected
  titled : ∀ l ∈ i.operands ++ i.consumers, l.title ≠ ""

namespace Program
variable {p : Program} {id : NodeId} {h : Neighbourhood} {drawing : Rendering}

theorem title?_of_render (hr : p.render = .ok drawing) (id : NodeId) :
    drawing.markWarnings.title? id = (p.node? id).map (·.label) := by
  have titles := (flagsAt_markWarnings hr).title? id.toNat
  rw [render_nodes_getElem? hr, Option.map_map] at titles
  exact titles

/-- A neighbour with the label of its node. -/
def link (p : Program) (n : Neighbour) : Link :=
  ⟨n.node, ((p.node? n.node).map (·.label)).getD "", n.role⟩

theorem title_link {n : Neighbour} (hn : n.node.toNat < p.nodeCount) :
    (p.node? n.node).map (·.label) = some (p.link n).title ∧ (p.link n).title ≠ "" := by
  obtain ⟨op, hop⟩ := exists_node? hn
  unfold link
  rw [hop]
  exact ⟨rfl, op.label_ne_empty⟩

/-- Neighbours that stand at the ends of some edges are told with the titles that these ends have in the drawing. -/
theorem links_agree (hr : p.render = .ok drawing) {neighbours : List Neighbour} {edges : List Edge}
    {other : Edge → Neighbour} (perm : neighbours.Perm (edges.map other))
    (inRange : ∀ e ∈ edges, (other e).node.toNat < p.nodeCount) :
    ((neighbours.map p.link).map fun l => (l.node, some l.title, l.role)).Perm
        (edges.map fun e => ((other e).node, drawing.markWarnings.title? (other e).node, (other e).role)) ∧
      ∀ l ∈ neighbours.map p.link, l.title ≠ "" := by
  have known : ∀ n ∈ neighbours, n.node.toNat < p.nodeCount := by
    intro n hn
    obtain ⟨e, he, rfl⟩ := List.mem_map.mp (perm.mem_iff.mp hn)
    exact inRange e he
  constructor
  · have mapped := perm.map fun n => (n.node, drawing.markWarnings.title? n.node, n.role)
    rw [List.map_map] at mapped
    have same : (neighbours.map p.link).map (fun l => (l.node, some l.title, l.role)) =
        neighbours.map fun n => (n.node, drawing.markWarnings.title? n.node, n.role) := by
      rw [List.map_map]
      refine List.map_congr_left fun n hn => ?_
      rw [title?_of_render hr, (title_link (known n hn)).1]
      rfl
    rw [same]
    exact mapped
  · intro l hl
    obtain ⟨n, hn, rfl⟩ := List.mem_map.mp hl
    exact (title_link (known n hn)).2

end Program

namespace Neighbourhood
variable {p : Program} {id : NodeId} {h : Neighbourhood} {drawing : Rendering}

/-- What an inspection tells of a node with some neighbours. -/
def inspection (h : Neighbourhood) (p : Program) (selected : Bool) : Inspection :=
  ⟨h.node, h.operation.label, h.operation, h.operands.map p.link, h.consumers.map p.link, selected⟩

theorem toJson_inspection (h : Neighbourhood) (p : Program) (selected : Bool) :
    (h.inspection p selected).toJson = h.toJson p selected := by
  unfold Inspection.toJson inspection Neighbourhood.toJson
  rw [List.map_map, List.map_map]
  rfl

/-- What surrounds a node is told as it is drawn. -/
theorem Surrounds.agrees (surrounds : h.Surrounds p id) (inRange : p.InRange) (hr : p.render = .ok drawing)
    (selected : NodeSet) : (h.inspection p (selected.contains id)).Agrees drawing.markWarnings selected id := by
  have plain : drawing.edges = p.edges := Program.edges_of_render hr
  have edges : drawing.markWarnings.edges = p.edges := plain
  have sources : ∀ e ∈ p.edges.filter (fun e => e.target = id), e.source.toNat < p.nodeCount :=
    fun e he => (inRange e (List.mem_filter.mp he).1).1
  have targets : ∀ e ∈ p.edges.filter (fun e => e.source = id), e.target.toNat < p.nodeCount :=
    fun e he => (inRange e (List.mem_filter.mp he).1).2
  obtain ⟨operands, operandTitles⟩ := Program.links_agree hr surrounds.operands sources
  obtain ⟨consumers, consumerTitles⟩ := Program.links_agree hr surrounds.consumers targets
  refine ⟨surrounds.node, ?_, rfl, ?_, ?_, ?_, ?_, List.contains_iff_mem, fun l hl => ?_⟩
  · rw [Program.title?_of_render hr, surrounds.operation]
    rfl
  · rw [edges]
    exact operands
  · exact List.pairwise_map.mpr surrounds.operands_sorted
  · rw [edges]
    exact consumers
  · exact List.pairwise_map.mpr surrounds.consumers_sorted
  · rcases List.mem_append.mp hl with hl | hl
    · exact operandTitles l hl
    · exact consumerTitles l hl

end Neighbourhood

/-! ### Both routes -/

namespace Session
variable {s : Session} {id : NodeId}

/-- A node of the program that is shown can be inspected. -/
theorem Sound.inspect_of_known (h : s.Sound) (known : id.toNat < s.selection.program.nodeCount) :
    ∃ n : Neighbourhood, n.Surrounds s.selection.program id ∧
      s.inspect id = .json 200 (n.inspection s.selection.program (s.selection.selected.contains id)).toJson := by
  obtain ⟨op, hop⟩ := Program.exists_node? known
  obtain ⟨n, found, -, surrounds⟩ := h.selection.program.surrounds hop
  refine ⟨n, surrounds, ?_⟩
  unfold inspect
  simp only [found, Neighbourhood.toJson_inspection]

theorem status_inspect_of_unknown (unknown : s.selection.program.nodeCount ≤ id.toNat) :
    (s.inspect id).status = 404 := by
  have missing : s.selection.program.node? id = none := List.getElem?_eq_none unknown
  have failed : s.selection.program.neighbourhood id = .error (.nodeNotFound id) := by
    unfold Program.neighbourhood
    rw [missing]
  unfold inspect
  simp only [failed]
  rfl

end Session

namespace Request
variable {q : Request} {r : Registry} {raw id name : String} {n : NodeId} {s : Session}

theorem Asks.handle_selection (hq : q.Asks .get (.selection raw)) (hname : decodeName raw = .ok name)
    (found : r.find? name = some s) : (r.handle q).1 = s.shown := by
  have action : q.action = .query name .selection := (hq.action_of_get rfl).trans (Action.onName_of_ok hname _)
  rw [hq.handle_fst (by decide), action, Action.run_query_of_known _ found]
  rfl

theorem Asks.handle_node (hq : q.Asks .get (.node raw id)) (hname : decodeNode raw id = .ok (name, n))
    (found : r.find? name = some s) : (r.handle q).1 = s.inspect n := by
  have asked : (Route.node raw id).get? = some (.query name (.node n)) := by
    simp only [Route.get?, hname]
  rw [hq.handle_fst (by decide), hq.action_of_get asked, Action.run_query_of_known _ found]
  rfl

end Request

namespace Registry

/-- In every registry that requests lead to, a node of a session is found exactly if it is drawn in the selection of the
session, and what is told of it is what is drawn there: its title, the edges that end in it and that begin at it, with
the titles of their other ends, and whether it is selected. That is what a client reads in the two answers. -/
theorem inspection_agrees_selection (demo : Bool) (requests : List Request) {shown asked : Request}
    {raw raw' id name : String} {n : NodeId} {s : Session}
    (found : ((start demo).handleAll requests).2.find? name = some s)
    (hshown : shown.Asks .get (.selection raw)) (hraw : decodeName raw = .ok name)
    (hasked : asked.Asks .get (.node raw' id)) (hid : decodeNode raw' id = .ok (name, n)) :
    let r := ((start demo).handleAll requests).2
    ∃ (snapshot : Snapshot) (drawing : Rendering),
      (r.handle shown).1 = .json 200 snapshot.toJson ∧ (r.handle shown).1.Tells 200 Client.snapshot snapshot ∧
      snapshot.rendered = some drawing ∧
      ((r.handle asked).1.status = 200 ↔ n.toNat < drawing.nodes.length) ∧
      ((r.handle asked).1.status = 404 ↔ ¬ n.toNat < drawing.nodes.length) ∧
      (n.toNat < drawing.nodes.length → ∃ i : Inspection, (r.handle asked).1 = .json 200 i.toJson ∧
        (r.handle asked).1.Tells 200 Client.inspection i ∧ i.Agrees drawing snapshot.selected n) := by
  intro r
  have sound : s.Sound := (sound_handleAll demo requests name s found).2
  have few : s.Few := each_handleAll Session.lasting_few demo requests name s found
  obtain ⟨plain, hr, rendered, -⟩ := sound.selection.drawn
  have size : plain.markWarnings.nodes.length = s.selection.program.nodeCount :=
    (Rendering.length_mark plain _).trans (Program.length_of_render hr)
  have answered : (r.handle asked).1 = s.inspect n := hasked.handle_node hid found
  have listed : (r.handle shown).1 = s.shown := hshown.handle_selection hraw found
  refine ⟨s.selection.snapshot, plain.markWarnings, listed, listed ▸ sound.tells_shown few.shown, rendered, ?_⟩
  rw [answered, size]
  by_cases known : n.toNat < s.selection.program.nodeCount
  · obtain ⟨h, surrounds, told⟩ := sound.inspect_of_known known
    have status : (s.inspect n).status = 200 := by
      rw [told]
      rfl
    have agrees := surrounds.agrees sound.selection.program hr s.selection.selected
    rw [status]
    exact ⟨iff_of_true rfl known, iff_of_false (by decide) (not_not_intro known),
      fun _ => ⟨_, told, told ▸ Inspection.tells _, agrees⟩⟩
  · have status := Session.status_inspect_of_unknown (s := s) (Nat.le_of_not_lt known)
    rw [status]
    exact ⟨iff_of_false (by decide) known, iff_of_true rfl known, fun known' => absurd known' known⟩

/-- Some nodes of the demonstration are selected: one of them twice, and one that it does not have. -/
def repeatedSelection : Request where
  method := .post
  target := "/sessions/demo/selection/nodes"
  contentType := some "application/json"
  body := "\x7b\"node_ids\":[7,7,99]\x7d"

theorem repeated_selection_agrees :
    let r := ((start true).handleAll [repeatedSelection]).2
    let shown : Request := { method := .get, target := "/sessions/demo/selection" }
    let asked : Request := { method := .get, target := "/sessions/demo/nodes/7" }
    shown.Asks .get (.selection "demo") ∧ asked.Asks .get (.node "demo" "7") ∧
      ∃ (s : Session) (snapshot : Snapshot) (drawing : Rendering) (i : Inspection), r.find? "demo" = some s ∧
        (r.handle shown).1 = .json 200 snapshot.toJson ∧ (r.handle shown).1.Tells 200 Client.snapshot snapshot ∧
        snapshot.rendered = some drawing ∧ (r.handle asked).1 = .json 200 i.toJson ∧
        (r.handle asked).1.Tells 200 Client.inspection i ∧ i.Agrees drawing snapshot.selected 7 := by
  intro r shown asked
  have hshown : shown.Asks .get (.selection "demo") := ⟨rfl, by decide +kernel⟩
  have hasked : asked.Asks .get (.node "demo" "7") := ⟨rfl, by decide +kernel⟩
  have status : (r.handle asked).1.status = 200 := by decide +kernel
  have known : (r.find? "demo").isSome = true := by decide +kernel
  obtain ⟨s, found⟩ := Option.isSome_iff_exists.mp known
  obtain ⟨snapshot, drawing, told, read, rendered, inRange, -, agrees⟩ :=
    inspection_agrees_selection true [repeatedSelection] found hshown rfl hasked rfl
  obtain ⟨i, inspected, hi⟩ := agrees (inRange.mp status)
  exact ⟨hshown, hasked, s, snapshot, drawing, i, found, told, read, rendered, inspected, hi⟩

end Registry

end CipherGraph
