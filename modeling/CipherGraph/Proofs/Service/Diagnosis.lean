import CipherGraph.Proofs.Service.Overrides

/-! # What is told of the flaws of a program

The warnings of a program are told when its session is created, with its drawing, and with the selection that shows it.
They are found anew each time, and yet the three are one list as long as the selected line has no program of its own. The
two drawings differ only in the types of the nodes that are named by a warning. -/

namespace CipherGraph

/-! ### Warnings on the wire -/

/-- The warnings that are listed in what a client is told, none if the member is left out. -/
def Json.listedWarnings : Json → List Json
  | .object members =>
    match members.lookup "warnings" with
    | some (.array warnings) => warnings
    | _ => []
  | _ => []

theorem CreationReport.listedWarnings_toJson (report : CreationReport) :
    report.toJson.listedWarnings = report.warnings.map (·.toJson) :=
  rfl

theorem Rendering.listedWarnings_toJson (r : Rendering) :
    r.toJson.listedWarnings = r.warnings.map (·.toJson) := by
  obtain ⟨nodes, edges, warnings⟩ := r
  cases warnings with
  | nil => rfl
  | cons w rest => rfl

/-! ### Two drawings of a program -/

/-- Two drawings of a program, one plain and one with the nodes at some places marked. Both have the nodes of the program
and no others. They agree in all but the types of these nodes, which the plain one draws as inputs or empty, by their
operations. -/
structure Program.DrawnTwice (p : Program) (plain marked : Rendering) (named : Nat → Prop) : Prop where
  plain_length : plain.nodes.length = p.nodes.length
  marked_length : marked.nodes.length = p.nodes.length
  ids : marked.nodes.map (·.id) = plain.nodes.map (·.id)
  titles : marked.nodes.map (·.title) = plain.nodes.map (·.title)
  edges : marked.edges = plain.edges
  types : ∀ i op, p.nodes[i]? = some op → ∃ n m, plain.nodes[i]? = some n ∧ marked.nodes[i]? = some m ∧
    n.kind = (if op.isInput then .input else .empty) ∧ (m.kind ≠ n.kind ↔ named i) ∧
      (named i → m.kind = .problematic)

/-- What the marks leave of a node is the same in both drawings, in the same order. -/
theorem Rendering.FlagsAt.map_eq {α : Type} {drawn plain : Rendering} {named : Nat → Prop}
    (h : drawn.FlagsAt plain named) {f : DrawnNode → α} (kept : ∀ d n named, DrawnNode.Flags d n named → f d = f n) :
    drawn.nodes.map f = plain.nodes.map f := by
  refine List.ext_getElem (by rw [List.length_map, List.length_map, h.length]) fun i hd hn => ?_
  rw [List.length_map] at hd hn
  rw [List.getElem_map, List.getElem_map]
  exact kept _ _ _ (h.nodes i _ _ (List.getElem?_eq_getElem hd) (List.getElem?_eq_getElem hn))

/-- The drawing of a program and the view of it are such drawings. -/
theorem Program.drawnTwice {p : Program} {plain : Rendering} (hr : p.render = .ok plain) :
    p.DrawnTwice plain plain.markWarnings fun i => ∃ w ∈ p.warnings, w.node.toNat = i := by
  have flags := flagsAt_markWarnings hr
  have length : plain.nodes.length = p.nodes.length := length_of_render hr
  refine ⟨length, flags.length.trans length, flags.map_eq fun _ _ _ flags => flags.id,
    flags.map_eq fun _ _ _ flags => flags.title, flags.edges, ?_⟩
  intro i op hop
  have hn : plain.nodes[i]? = some (op.render i) := by
    rw [render_nodes_getElem? hr, hop]
    rfl
  have place : i < plain.markWarnings.nodes.length := by
    rw [flags.length]
    exact (List.getElem?_eq_some_iff.mp hn).1
  have hm := List.getElem?_eq_getElem place
  have flagged := flags.nodes i _ _ hm hn
  have drawn := kind_of_render hr (List.mem_of_getElem? hn)
  refine ⟨_, _, hn, hm, rfl, ⟨fun differs => ?_, fun named same => ?_⟩, flagged.flagged.mpr⟩
  · by_contra unnamed
    exact differs (flagged.unflagged unnamed).1
  · -- No node is drawn as problematic before it is marked.
    rw [flagged.flagged.mpr named] at same
    rcases drawn with kind | kind <;> cases same.trans kind

/-! ### Three views -/

namespace Registry
variable {r : Registry} {creation : Request} {d : SessionDraft} {requests : List Request}

/-- Until a session is deleted, its drawing lists the warnings that were told when it was created, and so does the
drawing in its selection as long as the selected line has no program of its own. These two drawings differ exactly in the
types of the nodes that a warning names, which are problematic in the selection. A client reads the three lists and the
two drawings in the answers. -/
theorem warnings_told_alike (asks : creation.Asks .post .sessions) (draft : creation.draft = .ok d)
    (created : (r.handle creation).1.status = 200) (kept : ∀ q ∈ requests, ¬ q.AsksIn .delete .session d.name) :
    let after := ((r.handle creation).2.handleAll requests).2
    ∃ (report : CreationReport) (p : Program) (plain : Rendering) (s : Session),
      (r.handle creation).1 = .json 200 report.toJson ∧ (r.handle creation).1.Tells 200 Client.report report ∧
      Program.ofJson d.program = .ok p ∧ after.find? d.name = some s ∧
      (∀ q : Request, q.AsksIn .get .rendering d.name →
        (after.handle q).1 = .json 200 plain.toJson ∧ (after.handle q).1.Tells 200 Client.rendering plain) ∧
      (∀ q : Request, q.AsksIn .get .selection d.name →
        (after.handle q).1 = .json 200 s.selection.snapshot.toJson ∧
          (after.handle q).1.Tells 200 Client.snapshot s.selection.snapshot) ∧
      (d.lines.lookup s.selection.line = none → ∃ marked, s.selection.snapshot.rendered = some marked ∧
        plain.warnings = report.warnings ∧ marked.warnings = report.warnings ∧
        plain.toJson.listedWarnings = report.toJson.listedWarnings ∧
        marked.toJson.listedWarnings = report.toJson.listedWarnings ∧
        p.DrawnTwice plain marked fun i => ∃ w ∈ report.warnings, w.node.toNat = i) := by
  intro after
  obtain ⟨s, gestures, hs, answer, left⟩ := exists_leaves_of_created asks draft created kept
  obtain ⟨-, decoded, inRange⟩ := SessionDraft.parts_toSession hs
  obtain ⟨table, fresh, resolved⟩ := SessionDraft.selection_toSession (Request.sorted_lines draft) hs
  obtain ⟨plain, hr⟩ := inRange.render
  have few : s.program.Few := Request.few_of_program draft decoded
  have drawn (q : Request) (hq : q.AsksIn .get .rendering d.name) : (after.handle q).1 = .json 200 plain.toJson := by
    have program : (s.afterAll gestures).program.render = .ok plain := hr
    rw [hq.handle_get (fun _ => rfl) left.session]
    simp only [Query.run, program]
  have shown (q : Request) (hq : q.AsksIn .get .selection d.name) : (after.handle q).1 = (s.afterAll gestures).shown := by
    rw [hq.handle_get (fun _ => rfl) left.session]
    rfl
  refine ⟨s.program.report s.name, s.program, plain, s.afterAll gestures, answer, answer ▸ few.tells_report s.name,
    decoded, left.session, fun q hq => ⟨drawn q hq, ?_⟩, fun q hq => ⟨shown q hq, ?_⟩, fun own => ?_⟩
  · exact drawn q hq ▸ (Program.counted_drawing hr few.edges).tells
  · exact shown q hq ▸ Request.tells_afterAll draft hs gestures
  · have selection : (s.afterAll gestures).selection = (Selection.ofLineMap table).moved (Gesture.lastLine gestures)
        (NodeSet.ofList (Gesture.lastChoice gestures)) (Gesture.lines gestures).length := by
      rw [← Selection.afterAll_gestures_ofLineMap, ← fresh]
      rfl
    -- A line without a program of its own shows that of the session.
    have program : table.resolve (Gesture.lastLine gestures) = s.program := by
      rw [selection, Selection.line_moved] at own
      have shown := resolved (Gesture.lastLine gestures)
      rw [own] at shown
      exact Except.ok.inj (shown.symm.trans decoded)
    have warned : plain.warnings = s.program.warnings := Program.warnings_of_render hr
    have marked : plain.markWarnings.warnings = s.program.warnings := warned
    refine ⟨plain.markWarnings, ?_, warned, marked, ?_, ?_, Program.drawnTwice hr⟩
    · rw [selection, Selection.snapshot_moved table (program ▸ hr)]
    · rw [Rendering.listedWarnings_toJson, CreationReport.listedWarnings_toJson, warned]
      rfl
    · rw [Rendering.listedWarnings_toJson, CreationReport.listedWarnings_toJson, marked]
      rfl

/-- A draft with a sum that lacks an operand, and another program for one line. -/
def unfinishedCreation : Request where
  method := .post
  target := "/sessions"
  contentType := some "application/json"
  body := "\x7b\"name\":\"x\",\"graph\":[[[\"Add\"],[\x7b\"InputCiphertext\":7\x7d]],[[1,0,\"Left\"]]]," ++
    "\"lines\":\x7b\"3\":[[],[]]\x7d\x7d"

/-- The line with a program of its own is clicked, then one without, and a node is selected. -/
def unfinishedPast : List Request :=
  [selectionPost "/sessions/x/selection/line" "\x7b\"line\":3\x7d",
    selectionPost "/sessions/x/selection/nodes" "\x7b\"node_ids\":[1]\x7d",
    selectionPost "/sessions/x/selection/line" "\x7b\"line\":4\x7d",
    { method := .delete, target := "/sessions/demo" }]

theorem missing_operand_told_alike :
    let after := (((start true).handle unfinishedCreation).2.handleAll unfinishedPast).2
    let rendering : Request := { method := .get, target := "/sessions/x/render" }
    let selection : Request := { method := .get, target := "/sessions/x/selection" }
    let p : Program := ⟨[.add, .input 7], [⟨1, 0, .left⟩]⟩
    ∃ (report : CreationReport) (plain marked : Rendering) (s : Session),
      ((start true).handle unfinishedCreation).1 = .json 200 report.toJson ∧
      ((start true).handle unfinishedCreation).1.Tells 200 Client.report report ∧
      (after.handle rendering).1 = .json 200 plain.toJson ∧ (after.handle rendering).1.Tells 200 Client.rendering plain ∧
      (after.handle selection).1 = .json 200 s.selection.snapshot.toJson ∧
      (after.handle selection).1.Tells 200 Client.snapshot s.selection.snapshot ∧ s.selection.line = 4 ∧
      s.selection.snapshot.rendered = some marked ∧
      plain.warnings = report.warnings ∧ marked.warnings = report.warnings ∧
      plain.toJson.listedWarnings = report.toJson.listedWarnings ∧
      marked.toJson.listedWarnings = report.toJson.listedWarnings ∧
      p.DrawnTwice plain marked fun i => ∃ w ∈ report.warnings, w.node.toNat = i := by
  intro after rendering selection p
  have asks : unfinishedCreation.Asks .post .sessions := ⟨rfl, rfl⟩
  have read : (unfinishedCreation.draft.toOption.map fun d =>
      (d.name, (Program.ofJson d.program).toOption, (d.lines.lookup 4).isNone)) = some ("x", some p, true) := by
    decide +kernel
  have run : ((start true).handle unfinishedCreation).1.status = 200 ∧
      (after.find? "x").map (·.selection.line) = some 4 := by
    decide +kernel
  obtain ⟨created, line⟩ := run
  have kept : ∀ q ∈ unfinishedPast, ¬ q.AsksIn .delete .session "x" := by decide +kernel
  obtain ⟨d, draft, parts⟩ := Option.map_eq_some_iff.mp read
  simp only [Prod.mk.injEq] at parts
  obtain ⟨name, decoded, own⟩ := parts
  rw [← name] at kept
  obtain ⟨report, p', plain, s, answer, told, decoded', session, drawn, selected, alike⟩ :=
    warnings_told_alike asks (toOption_eq_some_iff.mp draft) created kept
  have same : p' = p := Option.some.inj ((toOption_eq_some_iff.mpr decoded').symm.trans decoded)
  subst same
  rw [name] at session drawn selected
  have line : s.selection.line = 4 := by
    rw [session] at line
    exact Option.some.inj line
  have getsRendering : rendering.AsksIn .get .rendering "x" := ⟨"x", ⟨rfl, by decide +kernel⟩, rfl⟩
  have getsSelection : selection.AsksIn .get .selection "x" := ⟨"x", ⟨rfl, by decide +kernel⟩, rfl⟩
  obtain ⟨drawing, drawingRead⟩ := drawn _ getsRendering
  obtain ⟨snapshot, snapshotRead⟩ := selected _ getsSelection
  obtain ⟨marked, shown, twice⟩ := alike (line ▸ Option.isNone_iff_eq_none.mp own)
  exact ⟨report, plain, marked, s, answer, told, drawing, drawingRead, snapshot, snapshotRead, line, shown, twice⟩

end Registry

end CipherGraph
