import CipherGraph.CommandLine.Run

/-! # The program

Reads the file that the arguments name, carries out the command, and prints what it leaves behind. -/

namespace CipherGraph

/-- What is found at a path of the file system. -/
def findFile (path : String) : IO File := do
  try
    let content ← IO.FS.readBinFile path
    return .data content.data.toList
  catch
    | .noFileOrDirectory .. => return .missing
    | .inappropriateType _ code _ => return if code = 21 then .directory else .notDirectory
    | .permissionDenied .. => return .unreadable "Permission denied (os error 13)"
    | .invalidArgument _ 36 _ => return .nameTooLong
    | e => return .unreadable (toString e)

def Outcome.print (outcome : Outcome) : IO UInt32 := do
  for line in outcome.log do
    IO.eprintln line
  IO.print outcome.stdout
  IO.eprint outcome.stderr
  return UInt32.ofNat outcome.code

/-- Carries out the command that the arguments make up. -/
def runArguments (arguments : List String) : IO UInt32 := do
  match Command.parse? arguments with
  | none =>
    IO.eprintln "error: unknown arguments"
    return 2
  | some command =>
    match command.file? with
    | some path => (command.run (← findFile path)).print
    | none => (command.run .missing).print

end CipherGraph

def main (arguments : List String) : IO UInt32 :=
  CipherGraph.runArguments arguments
