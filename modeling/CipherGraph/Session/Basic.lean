import CipherGraph.ProgramTable
import CipherGraph.Selection.Basic
import CipherGraph.Session.Overrides
import CipherGraph.Session.Refusal

/-! # Debug sessions

A session is a named program under inspection: its source text, the program itself, and a selection over a
table whose fallback is the program. -/

namespace CipherGraph

structure Session where
  name : String
  source : String
  program : Program
  selection : Selection ProgramTable

namespace Session

/-- Refuses the first override in which an edge dangles. -/
def checkLines : Overrides Program → Except ServiceError Unit
  | [] => .ok ()
  | (line, p) :: rest =>
    match p.check with
    | .error e => .error (.lineProgram line e)
    | .ok () => checkLines rest

/-- A session for a program, with programs of their own for some lines. No edge may dangle in any of them;
the program is looked at first. -/
def create (name source : String) (program : Program) (lines : Overrides Program) :
    Except ServiceError Session :=
  match program.check with
  | .error e => .error (.program e)
  | .ok () => do
    checkLines lines
    let table := lines.foldl (fun t entry => t.withLine entry.1 entry.2) { fallback := program }
    return ⟨name, source, program, .ofLineMap table⟩

def demo : Session :=
  ⟨"demo", sampleSource, .sample, .ofLineMap .demo⟩

end Session

end CipherGraph
