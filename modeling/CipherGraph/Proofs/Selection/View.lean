import CipherGraph.Proofs.Program.Drawing
import CipherGraph.Proofs.Selection.Move

/-! # What a selection shows

A selection stores its program, the drawing that is shown of it and the reason why there is none apart from each other.
Nothing but `display` changes any of them, and it sets all three; the other moves leave them. So after every run what is
shown is a function of the program: the drawing with the nodes of its warnings marked, or the reason why there is none,
and never both. Nothing of a program that was shown before is left. -/

namespace CipherGraph

/-- A program is drawn if nothing is in the way. -/
theorem Program.isSome_view_iff (p : Program) : p.view.toOption.isSome ↔ p.obstacle? = none := by
  unfold obstacle?
  cases p.view with
  | ok r => exact iff_of_true rfl rfl
  | error e => exact iff_of_false nofun nofun

namespace Selection
variable {μ : Type} {s : Selection μ}

/-- The drawing and the reason why there is none are those of the program. -/
structure Coherent (s : Selection μ) : Prop where
  rendered : s.rendered = s.program.view.toOption
  error : s.error = s.program.obstacle?

theorem coherent_display (s : Selection μ) (p : Program) : (s.display p).Coherent := by
  rw [display_eq]
  exact ⟨rfl, rfl⟩

/-- To begin a click leaves what is shown. -/
theorem Coherent.begin (h : s.Coherent) (line : Int64) : (s.begin line).2.1.Coherent :=
  ⟨h.rendered, h.error⟩

section Runs
variable [LineMap μ]

theorem coherent_ofLineMap (lineMap : μ) : (ofLineMap lineMap).Coherent :=
  coherent_display _ _

/-- A move shows another program, or it leaves the program and what is shown of it. -/
theorem Coherent.after (h : s.Coherent) (m : Move) : (s.after m).Coherent := by
  cases m with
  | click line =>
    rw [Selection.after, click_fst]
    exact coherent_display _ _
  | begin line => exact h.begin line
  | complete ticket p =>
    rcases after_complete (s := s) ticket p with same | shown
    · rw [same]
      exact h
    · rw [shown]
      exact coherent_display s p
  | select ids => exact ⟨h.rendered, h.error⟩
  | observe o => exact ⟨h.rendered, h.error⟩

theorem Coherent.afterAll (h : s.Coherent) (moves : List Move) : (s.afterAll moves).Coherent := by
  induction moves generalizing s with
  | nil => exact h
  | cons m rest ih => exact ih (h.after m)

end Runs

/-! ### Drawing or error -/

theorem Coherent.shown_eq {ν : Type} {t : Selection ν} (hs : s.Coherent) (ht : t.Coherent)
    (same : t.program = s.program) : t.rendered = s.rendered ∧ t.error = s.error := by
  rw [ht.rendered, ht.error, hs.rendered, hs.error, same]
  exact ⟨rfl, rfl⟩

/-- Of a program that is drawn, the drawing is shown and no error. -/
theorem Coherent.of_view_ok (h : s.Coherent) {r : Rendering} (view : s.program.view = .ok r) :
    s.rendered = some r ∧ s.error = none := by
  rw [h.rendered, h.error]
  unfold Program.obstacle?
  rw [view]
  exact ⟨rfl, rfl⟩

/-- Of a program that is not drawn, the reason is shown and no drawing. -/
theorem Coherent.of_view_error (h : s.Coherent) {e : ProgramError} (view : s.program.view = .error e) :
    s.rendered = none ∧ s.error = some e.message := by
  rw [h.rendered, h.error]
  unfold Program.obstacle?
  rw [view]
  exact ⟨rfl, rfl⟩

theorem Coherent.of_dangling (h : s.Coherent) (dangling : ¬ s.program.InRange) :
    s.rendered = none ∧ ∃ e, s.program.render = .error e ∧ s.error = some e.message := by
  obtain ⟨d, -, failed⟩ := Program.render_of_not_inRange dangling
  have view : s.program.view = .error (.dangling d) := congrArg (Except.map Rendering.markWarnings) failed
  obtain ⟨undrawn, told⟩ := h.of_view_error view
  exact ⟨undrawn, _, failed, told⟩

theorem Coherent.of_inRange (h : s.Coherent) (few : s.program.nodeCount ≤ UInt32.size) (inRange : s.program.InRange) :
    s.error = none ∧ ∃ plain drawn, s.program.render = .ok plain ∧ s.rendered = some drawn ∧
      drawn.Flags plain (s.program.warnings.map (·.node)) := by
  obtain ⟨plain, hplain⟩ := inRange.render
  obtain ⟨drawn, untold⟩ := h.of_view_ok (Program.view_of_render few hplain)
  exact ⟨untold, plain, _, hplain, drawn,
    Rendering.flags_highlight (fun n hn => Program.kind_of_render hplain hn) _⟩

/-- There is a drawing or an error, and never both. -/
theorem Coherent.isSome_rendered_iff (h : s.Coherent) : s.rendered.isSome ↔ s.error = none := by
  rw [h.rendered, h.error]
  exact s.program.isSome_view_iff

/-- After every run, what is shown is a function of the program: the reason why it is not drawn if an edge dangles, and
otherwise its drawing, with exactly the nodes of its warnings problematic. -/
theorem view_coherent [LineMap μ] (lineMap : μ) (moves : List Move)
    (few : ((ofLineMap lineMap).afterAll moves).program.nodeCount ≤ UInt32.size) :
    let s := (ofLineMap lineMap).afterAll moves
    (¬ s.program.InRange →
      s.rendered = none ∧ ∃ e, s.program.render = .error e ∧ s.snapshot.error = some e.message) ∧
    (s.program.InRange →
      s.snapshot.error = none ∧ ∃ plain drawn, s.program.render = .ok plain ∧ s.rendered = some drawn ∧
        drawn.Flags plain (s.program.warnings.map (·.node))) ∧
    (s.rendered.isSome ↔ s.snapshot.error = none) ∧
    ∀ (ν : Type) [LineMap ν] (other : ν) (moves' : List Move),
      let t := (ofLineMap other).afterAll moves'
      t.program = s.program → t.rendered = s.rendered ∧ t.snapshot.error = s.snapshot.error := by
  intro s
  have coherent : s.Coherent := (coherent_ofLineMap lineMap).afterAll moves
  refine ⟨coherent.of_dangling, coherent.of_inRange few, coherent.isSome_rendered_iff, fun ν _ other moves' same => ?_⟩
  exact coherent.shown_eq ((coherent_ofLineMap other).afterAll moves') same

/-- After a program that cannot be drawn, a click completed late shows a sum with its left operand given twice. -/
theorem late_completion_coherent :
    let broken : Program := ⟨[.output], [⟨5, 0, .unary⟩]⟩
    let doubled : Program := ⟨[.input 0, .add], [⟨0, 1, .left⟩, ⟨0, 1, .left⟩]⟩
    let lineMap : Int64 → Program := fun line => if line < 0 then broken else doubled
    let moves := [.click (-1), .begin 3, .select [7], .complete ⟨3, 2⟩ doubled, .complete ⟨-1, 1⟩ broken]
    let s := (ofLineMap lineMap).afterAll moves
    s.program = doubled ∧ s.program.nodeCount ≤ UInt32.size ∧ s.program.InRange ∧ s.snapshot.error = none ∧
      ∃ plain drawn, doubled.render = .ok plain ∧ s.rendered = some drawn ∧ drawn.Flags plain [1, 1] := by
  intro broken doubled lineMap moves s
  have program : s.program = doubled := by decide
  have few : s.program.nodeCount ≤ UInt32.size := by decide
  have inRange : s.program.InRange := by decide
  have flagged : doubled.warnings.map (·.node) = [1, 1] := by decide
  obtain ⟨-, shown, -, -⟩ := view_coherent lineMap moves few
  obtain ⟨error, plain, drawn, hplain, hdrawn, flags⟩ := shown inRange
  rw [program] at hplain flags
  rw [flagged] at flags
  exact ⟨program, few, inRange, error, plain, drawn, hplain, hdrawn, flags⟩

end CipherGraph.Selection
