import CipherGraph.Proofs.Program.Drawing
import CipherGraph.Proofs.Service.Told

/-! # Overrides in a session

A session is created with a program, and perhaps with other programs for some lines. A click on one of these lines
shows the program that was given for it, and a click on any other line the program of the session, whatever was done
before. -/

namespace CipherGraph

/-! ### Clicks after a past -/

namespace Registry
variable {r : Registry} {q : Request} {requests : List Request} {n : String} {s : Session} {gestures : List Gesture}

theorem Leaves.length_lines (h : r.Leaves requests n s gestures) :
    ((r.granted requests).filter (·.AsksIn .post .selectedLine n)).length = (Gesture.lines gestures).length := by
  have lengths := congrArg List.length h.lines
  rw [List.length_map, List.length_map] at lengths
  exact lengths

/-- The nodes that were chosen last are those of the last post to the nodes of the session that was granted. -/
theorem Leaves.mem_lastChoice (h : r.Leaves requests n s gestures) {id : NodeId} :
    id ∈ Gesture.lastChoice gestures ↔
      ∃ q selection, ((r.granted requests).filter (·.AsksIn .post .selectedNodes n)).getLast? = some q ∧
        q.read (Json.Reader.record nodeSelectionRecord) = .ok selection ∧ id ∈ selection.nodes := by
  have last := congrArg List.getLast? h.choices
  rw [List.getLast?_map, List.getLast?_map] at last
  unfold Gesture.lastChoice
  rw [List.getLastD_eq_getLast?]
  cases chosen : (Gesture.choices gestures).getLast? with
  | none =>
    rw [chosen] at last
    have nothing := Option.map_eq_none_iff.mp last
    constructor
    · intro hid
      cases hid
    · rintro ⟨q, -, hq, -⟩
      cases nothing.symm.trans hq
  | some ids =>
    rw [chosen] at last
    obtain ⟨q, hq, read⟩ := Option.map_eq_some_iff.mp last
    constructor
    · intro hid
      exact ⟨q, ⟨ids⟩, hq, read, hid⟩
    · rintro ⟨q', selection, hq', read', hid⟩
      cases hq.symm.trans hq'
      cases read.symm.trans read'
      exact hid

/-- A session that is created stands under the name of its draft. -/
theorem find?_of_created {d : SessionDraft} (asks : q.Asks .post .sessions) (draft : q.draft = .ok d)
    (created : (r.handle q).1.status = 200) :
    ∃ s, d.toSession = .ok s ∧ (r.handle q).2.find? d.name = some s := by
  obtain ⟨s, hs, -, -, found⟩ := of_created asks draft created
  exact ⟨s, hs, found⟩

/-- A click on a line is answered with what the session shows after it. -/
theorem handle_click {line : Int64} (found : r.find? n = some s) (asks : q.AsksIn .post .selectedLine n)
    (body : q.read (Json.Reader.record lineClickRecord) = .ok ⟨line⟩) :
    (r.handle q).1 = (s.afterAll [.click line]).shown := by
  have action := asks.action_of_click body
  obtain ⟨raw, hq, -⟩ := asks
  rw [hq.handle_fst (by decide), action, Action.run_query_of_known _ found]
  rfl

/-- Whatever is done before, a click on a line of a new session shows the program that its draft has for the line, or
the program of the draft if it has none for the line, with the nodes that were selected last. All the clicks that were
granted are counted. A client reads all of it in the answer. -/
theorem clicked_line_shows_override {r : Registry} {creation click : Request} {d : SessionDraft}
    {requests : List Request} {line : Int64} (asks : creation.Asks .post .sessions) (draft : creation.draft = .ok d)
    (created : (r.handle creation).1.status = 200) (kept : ∀ q ∈ requests, ¬ q.AsksIn .delete .session d.name)
    (clicks : click.AsksIn .post .selectedLine d.name)
    (body : click.read (Json.Reader.record lineClickRecord) = .ok ⟨line⟩) :
    let start := (r.handle creation).2
    let lines := (start.granted requests).filter (·.AsksIn .post .selectedLine d.name)
    let choices := (start.granted requests).filter (·.AsksIn .post .selectedNodes d.name)
    let answer := ((start.handleAll requests).2.handle click).1
    d.lines.Sorted ∧ ∃ (snapshot : Snapshot) (p : Program) (drawing drawn : Rendering),
      answer = .json 200 snapshot.toJson ∧ answer.Tells 200 Client.snapshot snapshot ∧ snapshot.line = line ∧
      Program.ofJson ((d.lines.lookup line).getD d.program) = .ok p ∧ p.render = .ok drawing ∧
      snapshot.rendered = some drawn ∧ (drawn.FlagsAt drawing fun i => ∃ w ∈ p.warnings, w.node.toNat = i) ∧
      snapshot.error = none ∧ snapshot.selected.Pairwise (· < ·) ∧
      (∀ id, id ∈ snapshot.selected ↔ ∃ q selection, choices.getLast? = some q ∧
        q.read (Json.Reader.record nodeSelectionRecord) = .ok selection ∧ id ∈ selection.nodes) ∧
      snapshot.generation = UInt64.ofNat (lines.length + 1) ∧
      (lines.length + 1 < UInt64.size → snapshot.generation.toNat = lines.length + 1) := by
  intro start lines choices answer
  obtain ⟨s, hs, found⟩ := find?_of_created asks draft created
  obtain ⟨gestures, left⟩ := exists_leaves found kept
  obtain ⟨table, fresh, resolved⟩ := SessionDraft.selection_toSession (Request.sorted_lines draft) hs
  have sound : s.selection.Sound := (SessionDraft.sound_toSession hs).selection
  rw [fresh] at sound
  rw [Selection.ofLineMap_eq] at sound
  obtain ⟨drawing, hr⟩ := (sound.table.resolve line).render
  have selection : ((s.afterAll gestures).afterAll [.click line]).selection =
      (Selection.ofLineMap table).moved line (NodeSet.ofList (Gesture.lastChoice gestures))
        ((Gesture.lines gestures).length + 1) := by
    rw [← Session.afterAll_append, ← Selection.afterAll_click, ← fresh]
    rfl
  have snapshot : ((s.afterAll gestures).afterAll [.click line]).selection.snapshot =
      ⟨line, NodeSet.ofList (Gesture.lastChoice gestures), some drawing.markWarnings, none,
        UInt64.ofNat (lines.length + 1)⟩ := by
    rw [selection, Selection.snapshot_moved table hr, left.length_lines]
  have answered : answer = _ := handle_click left.session clicks body
  have told := Request.tells_afterAll draft hs (gestures ++ [.click line])
  rw [Session.afterAll_append, ← answered, snapshot] at told
  rw [Session.shown, snapshot] at answered
  refine ⟨Request.sorted_lines draft, _, table.resolve line, drawing, drawing.markWarnings, answered, told, ?_⟩
  exact ⟨rfl, resolved line, hr, rfl, Program.flagsAt_markWarnings hr, rfl, NodeSet.pairwise_ofList _,
    fun id => NodeSet.mem_ofList.trans left.mem_lastChoice, rfl, fun few => UInt64.toNat_ofNat_of_lt' few⟩

/-- A draft with a program for a negative line, which is given twice. -/
def overridingCreation : Request where
  method := .post
  target := "/sessions"
  contentType := some "application/json"
  body := "\x7b\"name\":\"x\",\"graph\":[[],[]],\"lines\":\x7b\"-5\":[[],[]],\"-5\":[[[\"Add\"]],[]]\x7d\x7d"

/-- A body that is posted to the selection of a session. -/
def selectionPost (target body : String) : Request where
  method := .post
  target
  contentType := some "application/json"
  body

/-- Two choices of nodes and a click are granted; a click without a line and a deletion of another session are not. -/
def overriddenPast : List Request :=
  [selectionPost "/sessions/x/selection/nodes" "\x7b\"node_ids\":[1]\x7d",
    selectionPost "/sessions/x/selection/line" "\x7b\"line\":7\x7d",
    selectionPost "/sessions/x/selection/nodes" "\x7b\"node_ids\":[9,2,9]\x7d",
    selectionPost "/sessions/x/selection/line" "\x7b\x7d",
    { method := .delete, target := "/sessions/y" }]

theorem overridden_line_shown :
    let click := selectionPost "/sessions/x/selection/line" "\x7b\"line\":-5\x7d"
    let start := ((Registry.start true).handle overridingCreation).2
    let answer := ((start.handleAll overriddenPast).2.handle click).1
    ∃ (snapshot : Snapshot) (p : Program) (drawing drawn : Rendering),
      answer = .json 200 snapshot.toJson ∧ answer.Tells 200 Client.snapshot snapshot ∧ snapshot.line = -5 ∧
      p = ⟨[.add], []⟩ ∧ p.render = .ok drawing ∧ snapshot.rendered = some drawn ∧
      (drawn.FlagsAt drawing fun i => ∃ w ∈ p.warnings, w.node.toNat = i) ∧ snapshot.generation = 2 := by
  intro click start answer
  have asks : overridingCreation.Asks .post .sessions := ⟨rfl, rfl⟩
  have read : (overridingCreation.draft.toOption.map fun d =>
      (d.name, (Program.ofJson ((d.lines.lookup (-5)).getD d.program)).toOption)) = some ("x", some ⟨[.add], []⟩) := by
    decide +kernel
  have run : ((Registry.start true).handle overridingCreation).1.status = 200 ∧
      ((start.granted overriddenPast).filter (·.AsksIn .post .selectedLine "x")).length = 1 := by
    decide +kernel
  have kept : ∀ q ∈ overriddenPast, ¬ q.AsksIn .delete .session "x" := by decide +kernel
  have clicks : click.AsksIn .post .selectedLine "x" := by decide +kernel
  have body : (click.read (Json.Reader.record lineClickRecord)).toOption = some ⟨-5⟩ := by decide +kernel
  obtain ⟨d, draft, parts⟩ := Option.map_eq_some_iff.mp read
  obtain ⟨name, override⟩ := Prod.mk.inj parts
  obtain ⟨created, count⟩ := run
  rw [← name] at kept clicks count
  obtain ⟨-, snapshot, p, drawing, drawn, answered, told, line, decoded, hr, shown, flags, -, -, -, generation, -⟩ :=
    clicked_line_shows_override asks (toOption_eq_some_iff.mp draft) created kept clicks
      (toOption_eq_some_iff.mp body)
  have same : p = ⟨[.add], []⟩ := Option.some.inj ((toOption_eq_some_iff.mpr decoded).symm.trans override)
  rw [count] at generation
  exact ⟨snapshot, p, drawing, drawn, answered, told, line, same, hr, shown, flags, generation⟩

end Registry

end CipherGraph
