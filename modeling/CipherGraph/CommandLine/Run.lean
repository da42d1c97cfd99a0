import CipherGraph.CommandLine.Arguments
import CipherGraph.CommandLine.File
import CipherGraph.Wire.Program
import CipherGraph.Wire.Views

/-! # Commands

What a command prints and with which code it ends: 0 if all is well, 1 for a program that cannot be used, 2
for a program with arity warnings, 3 for a file that cannot be read. -/

namespace CipherGraph

structure Outcome where
  code : Nat
  stdout : String := ""
  stderr : String := ""
  /-- The lines of the log, without the time. -/
  log : List String := []
  deriving DecidableEq, Repr

namespace Outcome

def value (v : Json) (log : List String) : Outcome :=
  { code := 0, stdout := v.pretty ++ "\n", log }

def failure (code : Nat) (message : String) : Outcome :=
  { code, stderr := "Error: " ++ message ++ "\n" }

end Outcome

/-- The program in a file, or the outcome that reports why there is none. -/
def File.program (f : File) (path : String) : Except Outcome Program :=
  match f.text with
  | .error reason => .error (.failure 3 ("failed to read '" ++ path ++ "': " ++ reason))
  | .ok text => (Program.ofText text).mapError fun e => .failure 1 (path ++ ": " ++ e.message)

def Warning.logLine (w : Warning) : String :=
  "WARN fhegraph: " ++ w.message

def Program.draw (p : Program) : Outcome :=
  match p.render with
  | .ok r => .value r.toJson (r.warnings.map (·.logLine))
  | .error e => .failure 1 e.message

def warningReport (ws : List Warning) : String :=
  toString ws.length ++ " integrity warning(s):\n" ++
    String.join (ws.map fun w => "  - " ++ w.message ++ "\n")

def Program.validate (p : Program) : Outcome :=
  match p.check with
  | .error e => .failure 1 e.message
  | .ok () =>
    if p.warnings.isEmpty then
      { code := 0
        stdout := "ok: " ++ toString p.nodeCount ++ " nodes, " ++ toString p.edgeCount ++ " edges\n" }
    else { code := 2, stderr := warningReport p.warnings }

/-- An outcome from a program that may be missing. -/
def Outcome.ofProgram (p : Except Outcome Program) (f : Program → Outcome) : Outcome :=
  match p with
  | .ok p => f p
  | .error outcome => outcome

/-- Carries out a command. The file is what is found at the path of a command that reads one. -/
def Command.run (c : Command) (file : File) : Outcome :=
  match c with
  | .render path => .ofProgram (file.program path) (·.draw)
  | .validate path => .ofProgram (file.program path) (·.validate)
  | .sample true => { code := 0, stdout := sampleSource }
  | .sample false => .value Program.sample.toJson []
  | .demo line => .value ((Selection.ofLineMap ProgramTable.demo).click line).1.snapshot.toJson []

end CipherGraph
