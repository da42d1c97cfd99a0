import CipherGraph.Json.Token

/-! # Generic values from text

`tree` reads a value as it is written, `value` in its canonical form. Lists and objects may be nested up
to a given depth. `ignore` goes past a value of any depth without keeping it. -/

namespace CipherGraph.Json

namespace Reader

/-- A literal, number or string that begins with a character, which is next. -/
def scalar (ch : Char) : Reader Json := do
  if ch = 'n' then
    skip
    literal ['u', 'l', 'l']
    return .null
  else if ch = 't' then
    skip
    literal ['r', 'u', 'e']
    return .bool true
  else if ch = 'f' then
    skip
    literal ['a', 'l', 's', 'e']
    return .bool false
  else if ch = '"' then
    skip
    return .string (← string)
  else if beginsNumber ch then return .number (← number)
  else failAhead .expectedValue

/-- A key, a colon and a value, put before the members already read. -/
def treeMember (inner : Reader Json) (read : List (String × Json)) : Reader (List (String × Json)) := do
  let k ← key
  colon
  let v ← within (.key k) inner
  return (k, v) :: read

/-- A value. What stands inside a list or an object is read by `inner`, if nesting is still allowed. -/
def treeWith (inner : Option (Reader Json)) : Reader Json := do
  let ch ← start
  if ch = '[' then
    match inner with
    | none => failAhead .recursionLimit
    | some inner => return .array (← enclosed (items inner) closeList)
  else if ch = '\x7b' then
    match inner with
    | none => failAhead .recursionLimit
    | some inner => return .object (← enclosed (members (treeMember inner) []) closeObject).reverse
  else scalar ch

/-- A value as it is written, with brackets nested up to `depth`. -/
def tree : (depth : Nat) → Reader Json
  | 0 => treeWith none
  | depth + 1 => treeWith (some (tree depth))

/-- A value in canonical form, with brackets nested up to `depth`. -/
def value (depth : Nat) : Reader Json := do
  return (← tree depth).canonical

def documentDepth : Nat :=
  127

/-! ### Values that are not kept -/

inductive Bracket where
  | list
  | object

def Bracket.closing : Bracket → Char
  | .list => ']'
  | .object => '\x7d'

def Bracket.atEnd : Bracket → Cause
  | .list => .endInList
  | .object => .endInObject

def Bracket.commaOrEnd : Bracket → Cause
  | .list => .expectedListCommaOrEnd
  | .object => .expectedObjectCommaOrEnd

/-- Goes past a literal, number or string that begins with a character, which is next. -/
def skipScalar (ch : Char) : Reader Unit := do
  if ch = '"' then
    skip
    skipString
  else if beginsNumber ch then skipNumber
  else
    let _ ← scalar ch

/-- Goes past the closing brackets after a value, and the comma after them. The brackets that stay open
are left, the innermost first; there is none when the outermost value is over. -/
def closeBrackets (comma : Bool) : List Bracket → Reader (List Bracket)
  | [] => return []
  | b :: outer => do
    skipBlanks
    match ← peek with
    | none => failAhead b.atEnd
    | some ch =>
      -- No comma is allowed right after an opening bracket.
      if comma ∧ ch = ',' then
        skip
        return b :: outer
      else if ch = b.closing then
        skip
        closeBrackets true outer
      else if comma then failAhead b.commaOrEnd
      else return b :: outer

def skipKey : Reader Unit := do
  skipBlanks
  match ← peek with
  | none => failAhead .endInObject
  | some ch =>
    if ch = '"' then
      skip
      skipString
      colon
    else failAhead .keyNotString

/-- Goes past values until the open brackets are closed. The first argument bounds their number. -/
def ignoreFrom : Nat → List Bracket → Reader Unit
  | 0, _ => return ()
  | bound + 1, outer => do
    let ch ← start
    let left ←
      if ch = '[' then
        skip
        closeBrackets false (.list :: outer)
      else if ch = '\x7b' then
        skip
        closeBrackets false (.object :: outer)
      else
        skipScalar ch
        closeBrackets true outer
    match left with
    | [] => return ()
    | .list :: _ => ignoreFrom bound left
    | .object :: _ =>
      skipKey
      ignoreFrom bound left

def ignore : Reader Unit := do
  ignoreFrom ((← get).size + 1) []

end Reader

def parse (text : String) : Except Fault Json :=
  Reader.document (Reader.value Reader.documentDepth) text

end CipherGraph.Json
