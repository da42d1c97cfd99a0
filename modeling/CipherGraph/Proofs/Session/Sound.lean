import CipherGraph.Proofs.Selection.View
import CipherGraph.Service.Action
import CipherGraph.Text.Blank

/-! # Sound sessions

No program of a session has a dangling edge, whatever line it is shown for. That holds of every session that
is created, it is kept by everything that is asked of a session, and because of it a session can always be
drawn. -/

namespace CipherGraph

/-! ### Tables -/

/-- No program of the table has a dangling edge. -/
structure ProgramTable.Sound (t : ProgramTable) : Prop where
  fallback : t.fallback.InRange
  entries : ∀ entry ∈ t.entries, entry.2.InRange

namespace ProgramTable
variable {t : ProgramTable}

theorem Sound.resolve (h : t.Sound) (line : Int64) : (t.resolve line).InRange := by
  unfold ProgramTable.resolve entry?
  cases hl : t.entries.lookup line with
  | none => exact h.fallback
  | some p =>
    obtain ⟨before, after, hentries, -⟩ := List.lookup_eq_some_iff.mp hl
    exact h.entries (line, p) (by simp [hentries])

/-- An entry of a changed table is the new one or was there before. -/
theorem mem_put {line : Int64} {p : Program} {entries : List (Int64 × Program)} {entry : Int64 × Program}
    (h : entry ∈ put line p entries) : entry = (line, p) ∨ entry ∈ entries := by
  induction entries with
  | nil => exact Or.inl (List.mem_singleton.mp h)
  | cons head rest ih =>
    rw [put] at h
    split at h
    · rcases List.mem_cons.mp h with h | h
      · exact Or.inl h
      · exact Or.inr (List.mem_cons_of_mem _ h)
    · rcases List.mem_cons.mp h with h | h
      · exact Or.inr (h ▸ List.mem_cons_self)
      · exact (ih h).imp_right (List.mem_cons_of_mem _)

theorem Sound.withLine (h : t.Sound) {line : Int64} {p : Program} (hp : p.InRange) : (t.withLine line p).Sound where
  fallback := h.fallback
  entries entry he := by
    rcases mem_put he with rfl | he
    · exact hp
    · exact h.entries entry he

theorem fallback_withLines (t : ProgramTable) (lines : Overrides Program) :
    (lines.foldl (fun t entry => t.withLine entry.1 entry.2) t).fallback = t.fallback := by
  induction lines generalizing t with
  | nil => rfl
  | cons entry rest ih => exact ih _

theorem Sound.withLines {lines : Overrides Program} (h : t.Sound) (hlines : ∀ entry ∈ lines, entry.2.InRange) :
    (lines.foldl (fun t entry => t.withLine entry.1 entry.2) t).Sound := by
  induction lines generalizing t with
  | nil => exact h
  | cons entry rest ih =>
    exact ih (h.withLine (hlines entry List.mem_cons_self)) fun e he => hlines e (List.mem_cons_of_mem _ he)

end ProgramTable

/-! ### Selections -/

/-- A selection over a sound table shows the drawing of a program without dangling edges. -/
structure Selection.Sound (s : Selection ProgramTable) : Prop where
  table : s.lineMap.Sound
  program : s.program.InRange
  coherent : s.Coherent

namespace Selection
variable {s : Selection ProgramTable}

theorem sound_display (table : s.lineMap.Sound) {p : Program} (hp : p.InRange) : (s.display p).Sound := by
  refine ⟨?_, ?_, coherent_display s p⟩ <;> rw [display_eq]
  · exact table
  · exact hp

theorem sound_ofLineMap {t : ProgramTable} (h : t.Sound) : (ofLineMap t).Sound :=
  sound_display h (h.resolve defaultLine)

theorem Sound.click (h : s.Sound) (line : Int64) : (s.click line).1.Sound := by
  rw [click_fst]
  have begun : (s.begin line).2.1.lineMap.Sound := h.table
  exact sound_display begun (h.table.resolve line)

theorem Sound.select (h : s.Sound) (ids : List NodeId) : (s.select ids).1.Sound :=
  ⟨h.table, h.program, h.coherent.after (.select ids)⟩

/-- A sound selection shows the drawing of its program, and no error. -/
theorem Sound.drawn (h : s.Sound) :
    ∃ r, s.program.render = .ok r ∧ s.rendered = some r.markWarnings ∧ s.error = none := by
  obtain ⟨r, hrender, hview⟩ := h.program.view
  exact ⟨r, hrender, h.coherent.of_view_ok hview⟩

end Selection

/-! ### Sessions -/

/-- A session with a name, whose table falls back on its program and has no dangling edge anywhere. -/
structure Session.Sound (s : Session) : Prop where
  name : Text.trim s.name ≠ ""
  fallback : s.selection.lineMap.fallback = s.program
  selection : s.selection.Sound

namespace Session
variable {s : Session}

theorem Sound.program (h : s.Sound) : s.program.InRange :=
  h.fallback ▸ h.selection.table.fallback

/-- Programs of lines that pass the check have no dangling edges. -/
theorem inRange_of_checkLines {lines : Overrides Program} (h : checkLines lines = .ok ()) :
    ∀ entry ∈ lines, entry.2.InRange := by
  induction lines with
  | nil => simp
  | cons entry rest ih =>
    obtain ⟨line, p⟩ := entry
    rw [checkLines] at h
    cases hp : p.check with
    | error e => rw [hp] at h; cases h
    | ok _ =>
      rw [hp] at h
      exact List.forall_mem_cons.mpr ⟨Program.check_eq_ok_iff.mp hp, ih h⟩

theorem create_eq_ok {name source : String} {p : Program} {lines : Overrides Program}
    (h : create name source p lines = .ok s) :
    p.InRange ∧ (∀ entry ∈ lines, entry.2.InRange) ∧
      s = ⟨name, source, p, .ofLineMap (lines.foldl (fun t entry => t.withLine entry.1 entry.2) { fallback := p })⟩ := by
  unfold create at h
  cases hp : p.check with
  | error e => rw [hp] at h; cases h
  | ok _ =>
    rw [hp] at h
    cases hl : checkLines lines with
    | error e => simp only [hl] at h; cases h
    | ok _ =>
      simp only [hl] at h
      cases h
      exact ⟨Program.check_eq_ok_iff.mp hp, inRange_of_checkLines hl, rfl⟩

/-- Programs of lines without dangling edges pass the check. -/
theorem checkLines_of_inRange {lines : Overrides Program} (h : ∀ entry ∈ lines, entry.2.InRange) :
    checkLines lines = .ok () := by
  induction lines with
  | nil => rfl
  | cons entry rest ih =>
    obtain ⟨first, others⟩ := List.forall_mem_cons.mp h
    rw [checkLines, Program.check_eq_ok_iff.mpr first]
    exact ih others

theorem create_of_inRange {p : Program} {lines : Overrides Program} (name source : String) (inRange : p.InRange)
    (linesInRange : ∀ entry ∈ lines, entry.2.InRange) : ∃ s, create name source p lines = .ok s := by
  unfold create
  simp only [Program.check_eq_ok_iff.mpr inRange, checkLines_of_inRange linesInRange]
  exact ⟨_, rfl⟩

/-- A session that is created under a name that is not blank is sound. -/
theorem sound_of_create {name source : String} {p : Program} {lines : Overrides Program}
    (hname : Text.trim name ≠ "") (h : create name source p lines = .ok s) : s.Sound := by
  obtain ⟨inRange, linesInRange, rfl⟩ := create_eq_ok h
  have table : ProgramTable.Sound { fallback := p } := ⟨inRange, by simp⟩
  refine ⟨hname, ?_, Selection.sound_ofLineMap (table.withLines linesInRange)⟩
  rw [Selection.ofLineMap_eq]
  exact ProgramTable.fallback_withLines _ lines

theorem sound_demo : demo.Sound := by
  have table : ProgramTable.demo.Sound := ⟨by decide, by decide⟩
  exact ⟨by decide, rfl, Selection.sound_ofLineMap table⟩

end Session

namespace Query
variable {s : Session}

theorem name_run (q : Query) : (q.run s).2.name = s.name := by
  cases q with
  | rendering =>
    simp only [run]
    split <;> rfl
  | _ => rfl

/-- Nothing that is asked of a session makes it unsound. -/
theorem sound_run (h : s.Sound) (q : Query) : (q.run s).2.Sound := by
  cases q with
  | rendering =>
    simp only [run]
    split <;> exact h
  | click line =>
    have table : (s.selection.click line).1.lineMap = s.selection.lineMap := Selection.lineMap_after (.click line)
    exact ⟨h.name, table ▸ h.fallback, h.selection.click line⟩
  | select ids => exact ⟨h.name, h.fallback, h.selection.select ids⟩
  | _ => exact h

end Query

end CipherGraph
