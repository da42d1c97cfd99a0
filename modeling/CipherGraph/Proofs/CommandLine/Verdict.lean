import CipherGraph.CommandLine.Run
import CipherGraph.Proofs.Outcome
import CipherGraph.Proofs.Program.Accounts
import CipherGraph.Proofs.Program.Arity
import CipherGraph.Proofs.Program.Drawing
import CipherGraph.Proofs.Wire.Client

/-! # What the commands find of a file

A file that should hold a program is unreadable, or its text is no program that can be drawn, or it holds a program that
is drawn with warnings, or one that nothing is wrong with. The command that checks the program tells these four apart by
the code with which it ends. The command that draws it ends with the same code for the first two, and with success for
the others; the warnings that it logs and prints are the ones that the check lists. A program that the check finds nothing
wrong with has as many edges as its operations take operands. -/

namespace CipherGraph

/-! ### Programs in files -/

section Files
variable {f : File} {t path : String} {p : Program}

/-- Only a file of the bytes of a text has this text. -/
theorem File.text_eq_ok_iff : f.text = .ok t ↔ f = .data (Text.bytes t) := by
  cases f with
  | data bytes =>
    rw [data.injEq, ← Text.ofBytes?_eq_some_iff]
    cases h : Text.ofBytes? bytes <;> simp [text, h]
  | _ => simp [text]

theorem File.program_data (t path : String) :
    (data (Text.bytes t)).program path = (Program.ofText t).mapError fun e => .failure 1 (path ++ ": " ++ e.message) := by
  rw [program, text_eq_ok_iff.mpr rfl]

theorem File.program_eq_ok_iff : (File.data (Text.bytes t)).program path = .ok p ↔ Program.ofText t = .ok p := by
  rw [program_data]
  cases Program.ofText t <;> simp [Except.mapError]

theorem File.program_of_unreadable (h : ∀ t, f ≠ .data (Text.bytes t)) (path : String) :
    ∃ reason, f.program path = .error (.failure 3 reason) := by
  unfold program
  cases text : f.text with
  | error reason => exact ⟨_, rfl⟩
  | ok t => exact absurd (text_eq_ok_iff.mp text) (h t)

end Files

/-! ### Programs that are checked and drawn -/

namespace Program
variable {p : Program}

theorem draw_of_inRange (h : p.InRange) :
    ∃ r, p.render = .ok r ∧ p.draw = .value r.toJson (p.warnings.map (·.logLine)) := by
  obtain ⟨r, hr⟩ := h.render
  refine ⟨r, hr, ?_⟩
  rw [draw, hr, ← warnings_of_render hr]

theorem draw_of_not_inRange (p : Program) (h : ¬ p.InRange) : ∃ reason, p.draw = .failure 1 reason := by
  obtain ⟨d, -, failed⟩ := render_of_not_inRange h
  exact ⟨_, by rw [draw, failed]⟩

theorem validate_of_inRange (h : p.InRange) :
    p.validate =
      if p.warnings = [] then
        { code := 0
          stdout := "ok: " ++ toString p.nodeCount ++ " nodes, " ++ toString p.edgeCount ++ " edges\n" }
      else { code := 2, stderr := warningReport p.warnings } := by
  rw [validate, check_eq_ok_iff.mpr h]
  simp only [List.isEmpty_iff]

theorem validate_of_not_inRange (p : Program) (h : ¬ p.InRange) : ∃ reason, p.validate = .failure 1 reason := by
  obtain ⟨d, failed, -⟩ := render_of_not_inRange h
  exact ⟨_, by rw [validate, failed]⟩

/-- Every node gets the operands that its operation takes, each of them once. -/
def WellFed (p : Program) : Prop :=
  ∀ i (op : Operation), p.nodes[i]? = some op → op.arity.Accepts (p.operandCount i)

theorem warnings_eq_nil_iff_wellFed : p.warnings = [] ↔ p.WellFed := by
  rw [warnings_eq_nil_iff]
  simp only [WellFed, Arity.accepts_iff]
  rfl

end Program

/-! ### Verdicts -/

/-- What a file is good for. -/
inductive Verdict where
  | unreadable
  | unusable
  | flawed
  | sound
  deriving DecidableEq, Repr

namespace Verdict

/-- The code with which the check of the program ends. -/
def checked : Verdict → Nat
  | .unreadable => 3
  | .unusable => 1
  | .flawed => 2
  | .sound => 0

theorem checked_injective {v w : Verdict} (h : v.checked = w.checked) : v = w := by
  cases v <;> cases w <;> first | rfl | cases h

/-- The code with which the drawing of the program ends. -/
def drawn : Verdict → Nat
  | .unreadable => 3
  | .unusable => 1
  | .flawed => 0
  | .sound => 0

end Verdict

/-- The file is unreadable if its bytes are not the UTF-8 of a text. The text is unusable if it does not decode or if an
edge dangles. The program is flawed if the operands that arrive at some node are not those that its operation takes. -/
def File.Deserves (f : File) : Verdict → Prop
  | .unreadable => ∀ t, f ≠ .data (Text.bytes t)
  | .unusable => ∃ t, f = .data (Text.bytes t) ∧
      ((∃ e, Program.ofText t = .error e) ∨ ∃ p, Program.ofText t = .ok p ∧ ¬ p.InRange)
  | .flawed => ∃ t p, f = .data (Text.bytes t) ∧ Program.ofText t = .ok p ∧ p.InRange ∧ ¬ p.WellFed
  | .sound => ∃ t p, f = .data (Text.bytes t) ∧ Program.ofText t = .ok p ∧ p.InRange ∧ p.WellFed

theorem File.exists_verdict (f : File) : ∃ v, f.Deserves v := by
  by_cases readable : ∃ t, f = .data (Text.bytes t)
  · obtain ⟨t, hf⟩ := readable
    cases read : Program.ofText t with
    | error e => exact ⟨.unusable, t, hf, Or.inl ⟨e, read⟩⟩
    | ok p =>
      by_cases inRange : p.InRange
      · by_cases fed : p.WellFed
        · exact ⟨.sound, t, p, hf, read, inRange, fed⟩
        · exact ⟨.flawed, t, p, hf, read, inRange, fed⟩
      · exact ⟨.unusable, t, hf, Or.inr ⟨p, read, inRange⟩⟩
  · exact ⟨.unreadable, fun t hf => readable ⟨t, hf⟩⟩

/-! ### Codes -/

section Codes
variable {f : File} {v : Verdict} {t : String} {p : Program}

/-- What a command does with the program in a file, if there is one. -/
theorem Outcome.ofProgram_data (read : Program.ofText t = .ok p) (g : Program → Outcome) (path : String) :
    ofProgram ((File.data (Text.bytes t)).program path) g = g p := by
  rw [File.program_eq_ok_iff.mpr read, ofProgram]

theorem File.code_of_unreadable (h : f.Deserves .unreadable) (g : Program → Outcome) (path : String) :
    (Outcome.ofProgram (f.program path) g).code = 3 := by
  obtain ⟨reason, failed⟩ := program_of_unreadable h path
  rw [failed]
  rfl

/-- A command that refuses programs with dangling edges refuses whatever is unusable. -/
theorem File.code_of_unusable (h : f.Deserves .unusable) {g : Program → Outcome}
    (refuses : ∀ p : Program, ¬ p.InRange → ∃ reason, g p = .failure 1 reason) (path : String) :
    (Outcome.ofProgram (f.program path) g).code = 1 := by
  rcases h with ⟨t, rfl, ⟨e, read⟩ | ⟨p, read, dangling⟩⟩
  · rw [program_data, read]
    rfl
  · obtain ⟨reason, refused⟩ := refuses p dangling
    rw [Outcome.ofProgram_data read, refused]
    rfl

namespace Command

theorem code_validate_of_deserves (h : f.Deserves v) (path : String) : ((validate path).run f).code = v.checked := by
  show (Outcome.ofProgram (f.program path) Program.validate).code = v.checked
  cases v with
  | unreadable => exact File.code_of_unreadable h _ path
  | unusable => exact File.code_of_unusable h (fun p => p.validate_of_not_inRange) path
  | flawed =>
    obtain ⟨t, p, rfl, read, inRange, unfed⟩ := h
    have warned := mt Program.warnings_eq_nil_iff_wellFed.mp unfed
    rw [Outcome.ofProgram_data read, Program.validate_of_inRange inRange, if_neg warned]
    rfl
  | sound =>
    obtain ⟨t, p, rfl, read, inRange, fed⟩ := h
    have unwarned := Program.warnings_eq_nil_iff_wellFed.mpr fed
    rw [Outcome.ofProgram_data read, Program.validate_of_inRange inRange, if_pos unwarned]
    rfl

/-- The check tells all verdicts apart. -/
theorem code_validate_iff (path : String) : ((validate path).run f).code = v.checked ↔ f.Deserves v := by
  refine ⟨fun code => ?_, fun h => code_validate_of_deserves h path⟩
  obtain ⟨w, deserved⟩ := f.exists_verdict
  rw [code_validate_of_deserves deserved path] at code
  exact Verdict.checked_injective code ▸ deserved

end Command

end Codes

/-! ### Warnings -/

namespace Command

end Command

/-! ### Accounts -/

namespace Program

/-- The edges of a program, none of them dangling, and the operands that are missing balance with the operands that are due,
the ones in excess of them and the edges in roles that are not taken. So a program that the check finds nothing wrong with
has two edges for every product and sum, and one for every node that relinearizes or puts out a value. -/
theorem operands_balance (p : Program) :
    (p.InRange → p.edgeCount + p.warnings.countP Warning.isMissing =
      (p.nodes.map (·.roles.length)).sum + (p.warnings.map Warning.surplus).sum + p.edges.countP p.strays) ∧
    ∀ (f : File) (path : String), f.program path = .ok p → ((Command.validate path).run f).code = 0 →
      p.edgeCount = 2 * p.nodes.countP (fun op => op = .multiply || op = .add) +
        p.nodes.countP fun op => op = .relinearize || op = .output := by
  refine ⟨fun inRange => inRange.balanced, fun f path held code => ?_⟩
  obtain ⟨t, q, rfl, read, inRange, fed⟩ := (Command.code_validate_iff (v := .sound) path).mp code
  cases read.symm.trans (File.program_eq_ok_iff.mp held)
  rw [inRange.edgeCount_eq (warnings_eq_nil_iff_wellFed.mpr fed), sum_roles_length]

/-- A sum with its left operand given three times over and its right one missing, and an input that gets an operand. -/
def skewed : Program where
  nodes := [.input 0, .add, .relinearize]
  edges := [⟨0, 1, .left⟩, ⟨0, 1, .left⟩, ⟨1, 0, .right⟩, ⟨2, 2, .unary⟩, ⟨2, 1, .left⟩]

theorem skewed_balances :
    skewed.InRange ∧ skewed.warnings.countP Warning.isMissing = 1 ∧ (skewed.warnings.map Warning.surplus).sum = 2 ∧
      skewed.edges.countP skewed.strays = 1 ∧ skewed.edgeCount + 1 = 3 + 2 + 1 ∧
      let p : Program := ⟨[.input 0, .add, .output], [⟨0, 1, .left⟩, ⟨0, 1, .right⟩, ⟨1, 2, .unary⟩]⟩
      let f := File.data (Text.bytes ("\x7b\"nodes\":[[\x7b\"InputCiphertext\":0\x7d],[\"Add\"],[\"OutputCiphertext\"]]," ++
        "\"edges\":[[0,1,\"Left\"],[0,1,\"Right\"],[1,2,\"Unary\"]]\x7d"))
      f.program "double.json" = .ok p ∧ ((Command.validate "double.json").run f).code = 0 ∧ p.edgeCount = 2 * 1 + 1 := by
  have inRange : skewed.InRange := by decide
  have missing : skewed.warnings.countP Warning.isMissing = 1 := by decide
  have surplus : (skewed.warnings.map Warning.surplus).sum = 2 := by decide
  have astray : skewed.edges.countP skewed.strays = 1 := by decide
  have balance := (operands_balance skewed).1 inRange
  rw [missing, surplus, astray] at balance
  refine ⟨inRange, missing, surplus, astray, balance, ?_⟩
  intro p f
  have held : f.program "double.json" = .ok p := File.program_eq_ok_iff.mpr (toOption_eq_some_iff.mp (by decide +kernel))
  have code : ((Command.validate "double.json").run f).code = 0 := by
    rw [Command.run, held]
    decide
  exact ⟨held, code, (operands_balance p).2 f "double.json" held code⟩

end Program

end CipherGraph
