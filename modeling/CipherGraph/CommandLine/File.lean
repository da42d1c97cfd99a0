import CipherGraph.Text.Utf8

/-! # Files

What is found at a path, and the text that it gives. A path is followed name by name: every name but the last
has to lead to a directory, and a slash at the end asks for a directory. Names and paths have limits on their
lengths. -/

namespace CipherGraph

/-- What is found at a path. -/
inductive File where
  | missing
  | directory
  | data (bytes : List UInt8)
  /-- Something that cannot be read, for a reason that the system words. -/
  | unreadable (reason : String)
  deriving DecidableEq, Repr

def File.text : File → Except String String
  | .missing => .error "No such file or directory (os error 2)"
  | .directory => .error "Is a directory (os error 21)"
  | .unreadable reason => .error reason
  | .data bytes =>
    match Text.ofBytes? bytes with
    | some s => .ok s
    | none => .error "stream did not contain valid UTF-8"

/-- A step through something that is no directory. -/
def File.notDirectory : File :=
  .unreadable "Not a directory (os error 20)"

/-- A path with too long a name, or too long as a whole. -/
def File.nameTooLong : File :=
  .unreadable "File name too long (os error 36)"

def nameLimit : Nat := 255

def pathLimit : Nat := 4095

/-- What some steps lead to from the root, or from a place between the root and the directory. Nothing is known
to stand there but places on the way. -/
def File.outside : List String → File
  | [] => .directory
  | name :: rest =>
    if name = "." ∨ name = ".." then outside rest
    else if nameLimit < name.utf8ByteSize then .nameTooLong
    else .missing

/-- The files inside a directory, by the names on the way to them. -/
abbrev Directory := List (List String × List UInt8)

namespace Directory

/-- The steps of a path. A slash at the end is a step that stays in place. -/
def steps (path : String) : List String :=
  (path.splitOn "/").filter (· ≠ "") ++ if path.endsWith "/" then ["."] else []

/-- What stands at some names. A directory is there if it holds a file. -/
def entry (d : Directory) (names : List String) : File :=
  match d.lookup names with
  | some bytes => .data bytes
  | none => if names.isEmpty || d.any fun file => names.isPrefixOf file.1 then .directory else .missing

/-- What some steps lead to from a place. -/
def walk (d : Directory) (place : List String) : List String → File
  | [] => d.entry place
  | name :: rest =>
    match d.entry place with
    | .directory =>
      if name = "." then d.walk place rest
      else if name = ".." then if place.isEmpty then .outside rest else d.walk place.dropLast rest
      else if nameLimit < name.utf8ByteSize then .nameTooLong
      else d.walk (place ++ [name]) rest
    | .data _ => .notDirectory
    | other => other

/-- What a path leads to from inside the directory. -/
def find (d : Directory) (path : String) : File :=
  if pathLimit < path.utf8ByteSize then .nameTooLong
  else if path.startsWith "/" then .outside (steps path)
  else d.walk [] (steps path)

end Directory

end CipherGraph
