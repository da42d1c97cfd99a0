import CipherGraph.Decimal.Text
import CipherGraph.Json.Basic
import CipherGraph.Text.Quoted

/-! # JSON as text

One printer for two layouts: `compact` puts nothing between the tokens, `pretty` puts every item and every
member on a line of its own. Members keep the order in which the object lists them. -/

namespace CipherGraph.Json

/-- What the printer puts between tokens. -/
structure Layout where
  /-- The break before an item or a closing bracket at some depth. -/
  lineBreak : Nat → List Char
  /-- What stands between a key and its value. -/
  colon : List Char

def Layout.compact : Layout :=
  ⟨fun _ => [], [':']⟩

/-- Two blanks per level, and one after the colon. -/
def Layout.pretty : Layout :=
  ⟨fun depth => '\n' :: List.replicate (2 * depth) ' ', [':', ' ']⟩

/-- A character as it stands inside a JSON string. -/
def escapedChar (c : Char) : List Char :=
  if c == '"' then ['\\', '"']
  else if c == '\\' then ['\\', '\\']
  else if c.toNat == 0x08 then ['\\', 'b']
  else if c.toNat == 0x0C then ['\\', 'f']
  else if c == '\n' then ['\\', 'n']
  else if c == '\r' then ['\\', 'r']
  else if c == '\t' then ['\\', 't']
  else if c.toNat < 0x20 then '\\' :: 'u' :: Text.hex 4 c.toNat
  else [c]

def printString (s : String) : List Char :=
  '"' :: s.toList.flatMap escapedChar ++ ['"']

def printNumber : Number → List Char
  | .integer value => Decimal.ofInt value
  | .real value => Decimal.ofFloat value

mutual

def print (layout : Layout) (depth : Nat) : Json → List Char
  | .null => ['n', 'u', 'l', 'l']
  | .bool true => ['t', 'r', 'u', 'e']
  | .bool false => ['f', 'a', 'l', 's', 'e']
  | .number value => printNumber value
  | .string value => printString value
  | .array [] => ['[', ']']
  | .array (item :: rest) =>
    '[' :: layout.lineBreak (depth + 1) ++ print layout (depth + 1) item ++
      printItems layout (depth + 1) rest ++ layout.lineBreak depth ++ [']']
  | .object [] => ['\x7b', '\x7d']
  | .object ((key, value) :: rest) =>
    '\x7b' :: layout.lineBreak (depth + 1) ++ printString key ++ layout.colon ++
      print layout (depth + 1) value ++ printMembers layout (depth + 1) rest ++
      layout.lineBreak depth ++ ['\x7d']

/-- The items after the first one. -/
def printItems (layout : Layout) (depth : Nat) : List Json → List Char
  | [] => []
  | item :: rest =>
    ',' :: layout.lineBreak depth ++ print layout depth item ++ printItems layout depth rest

def printMembers (layout : Layout) (depth : Nat) : List (String × Json) → List Char
  | [] => []
  | (key, value) :: rest =>
    ',' :: layout.lineBreak depth ++ printString key ++ layout.colon ++ print layout depth value ++
      printMembers layout depth rest

end

def compact (value : Json) : String :=
  String.ofList (value.print .compact 0)

def pretty (value : Json) : String :=
  String.ofList (value.print .pretty 0)

end CipherGraph.Json
