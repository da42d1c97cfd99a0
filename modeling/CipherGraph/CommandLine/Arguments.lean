import CipherGraph.Decimal.Parse

/-! # Arguments of the command line

Four commands: draw a program, check a program, print the sample, and click a line of the demonstration. An
option may stand before or after other arguments and at most once. After a double dash there are no options. -/

namespace CipherGraph

inductive Command where
  | render (path : String)
  | validate (path : String)
  | sample (source : Bool)
  | demo (line : Int64)
  deriving DecidableEq, Repr

namespace Command

/-- The only argument of a command that takes a file. -/
def path? : List String → Option String
  | [path] => plain path
  | ["--", path] => named path
  | [path, "--"] => plain path
  | _ => none
where
  /-- A path that can be told from an option. -/
  plain (path : String) : Option String :=
    if path ≠ "-" && path.startsWith "-" then none else named path
  /-- A path, which is not empty. -/
  named (path : String) : Option String :=
    if path.isEmpty then none else some path

def source? : List String → Option Bool
  | [] => some false
  | ["--"] => some false
  | ["--source"] => some true
  | ["--source", "--"] => some true
  | _ => none

/-- The line in an argument that holds the option together with its value. -/
def attachedLine? (argument : String) : Option String :=
  match argument.toList with
  | '-' :: '-' :: 'l' :: 'i' :: 'n' :: 'e' :: '=' :: value => some (String.ofList value)
  | '-' :: 'l' :: '=' :: value => some (String.ofList value)
  | '-' :: 'l' :: c :: value => some (String.ofList (c :: value))
  | _ => none

/-- The line that is asked for, zero if none is. -/
def line? : List String → Option Int64
  | [] => some 0
  | ["--"] => some 0
  | argument :: rest =>
    if argument = "--line" ∨ argument = "-l" then
      match rest with
      | [value] => Decimal.signed64? value
      | [value, "--"] => Decimal.signed64? value
      | _ => none
    else if rest = [] ∨ rest = ["--"] then (attachedLine? argument).bind Decimal.signed64?
    else none

def parse? : List String → Option Command
  | "render" :: rest => (path? rest).map .render
  | "validate" :: rest => (path? rest).map .validate
  | "sample" :: rest => (source? rest).map .sample
  | "demo" :: rest => (line? rest).map .demo
  | _ => none

def file? : Command → Option String
  | .render path => some path
  | .validate path => some path
  | .sample _ => none
  | .demo _ => none

end Command

end CipherGraph
