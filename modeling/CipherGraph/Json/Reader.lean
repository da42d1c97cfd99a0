import CipherGraph.Json.Cause
import CipherGraph.Json.Cursor

/-! # Readers

A reader takes a value from the start of a text and says where the text goes on, or finds a fault. Most
faults name their position at once. A fault that belongs to a whole list or object is left pending with
the cursor where it arose; the list or object looks for its closing bracket from there and gives the fault
the position that it reaches. Every fault also knows the path of the value that was being read. -/

namespace CipherGraph.Json

/-- One step from a document to a value inside it. -/
inductive Segment where
  | index (k : Nat)
  | key (name : String)
  | unknown
  deriving DecidableEq

inductive Place where
  | known (position : Position)
  | pending (cursor : Cursor)

/-- A cause, its place, and the path of the value that was being read. -/
structure Fault where
  cause : Cause
  place : Place
  path : List Segment := []

def Fault.message (f : Fault) : String :=
  match f.place with
  | .known p => f.cause.message ++ " at line " ++ toString p.line ++ " column " ++ toString p.column
  | .pending _ => f.cause.message

/-- A function from a place in a text to a value and the place after it, or to a fault. -/
abbrev Reader := StateT Cursor (Except Fault)

namespace Reader

variable {α : Type}

def peek : Reader (Option Char) := do
  return (← get).rest.head?

def skip : Reader Unit :=
  modify Cursor.next

def skipBlanks : Reader Unit :=
  modify Cursor.skipBlanks

def failHere (cause : Cause) : Reader α := do
  throw ⟨cause, .known (← get).position, []⟩

/-- A fault at the byte that is about to be read. -/
def failAhead (cause : Cause) : Reader α := do
  throw ⟨cause, .known (← get).ahead, []⟩

/-- A fault whose position is left to the list or object around it. -/
def failPending (cause : Cause) : Reader α := do
  throw ⟨cause, .pending (← get), []⟩

/-- The reader, with its faults placed inside a value. -/
def within (segment : Segment) (r : Reader α) : Reader α := fun c =>
  match r c with
  | .ok result => .ok result
  | .error f => .error { f with path := segment :: f.path }

/-- A closing step: the cursor it reaches, and what is wrong there if the bracket does not follow. -/
abbrev Closing := Cursor → Cursor × Option Cause

/-- Reads what stands between brackets, the opening one being next. -/
def enclosed (body : Reader α) (closing : Closing) : Reader α := fun c =>
  match body c.next with
  | .ok (a, c) =>
    match closing c with
    | (c, none) => .ok (a, c)
    | (c, some cause) => .error ⟨cause, .known c.ahead, []⟩
  | .error f =>
    match f.place with
    | .known _ => .error f
    -- The closing step is taken although the body failed: the fault gets its position from it.
    | .pending c => .error { f with place := .known (closing c).1.position }

def closeList : Closing := fun c =>
  let c := c.skipBlanks
  match c.rest with
  | [] => (c, some .endInList)
  | ']' :: _ => (c.next, none)
  | ',' :: _ =>
    let c := c.next.skipBlanks
    (c, some (if c.rest.head? = some ']' then .trailingComma else .trailingCharacters))
  | _ :: _ => (c, some .trailingCharacters)

def closeObject : Closing := fun c =>
  let c := c.skipBlanks
  match c.rest with
  | [] => (c, some .endInObject)
  | '\x7d' :: _ => (c.next, none)
  | ',' :: _ => (c, some .trailingComma)
  | _ :: _ => (c, some .trailingCharacters)

def start : Reader Char := do
  skipBlanks
  match ← peek with
  | some ch => return ch
  | none => failAhead .endInValue

/-- Whether a list has a further item, and the comma before it unless it is the first. -/
def hasItem (first : Bool) : Reader Bool := do
  skipBlanks
  match ← peek with
  | none => failAhead .endInList
  | some ch =>
    if ch = ']' then return false
    else if first then return true
    else if ch ≠ ',' then failAhead .expectedListCommaOrEnd
    else
      skip
      if (← start) = ']' then failAhead .trailingComma else return true

/-- Whether an object has a further key, and the comma before it unless it is the first. -/
def hasKey (first : Bool) : Reader Bool := do
  skipBlanks
  match ← peek with
  | none => failAhead .endInObject
  | some ch =>
    if ch = '\x7d' then return false
    else if first then
      if ch = '"' then return true else failAhead .keyNotString
    else if ch ≠ ',' then failAhead .expectedObjectCommaOrEnd
    else
      skip
      let ch ← start
      if ch = '"' then return true
      else if ch = '\x7d' then failAhead .trailingComma
      else failAhead .keyNotString

def colon : Reader Unit := do
  skipBlanks
  match ← peek with
  | none => failAhead .endInObject
  | some ch => if ch = ':' then skip else failAhead .expectedColon

/-- Items from place `k` until a list ends, with those already read in reverse. The first argument bounds
their number. -/
def itemsFrom (item : Reader α) : Nat → Nat → List α → Reader (List α)
  | 0, _, read => return read.reverse
  | bound + 1, k, read => do
    if ← hasItem (k == 0) then
      let a ← within (.index k) item
      itemsFrom item bound (k + 1) (a :: read)
    else return read.reverse

/-- The items of a list up to its closing bracket. -/
def items (item : Reader α) : Reader (List α) := do
  -- No list has more items than characters.
  itemsFrom item ((← get).size + 1) 0 []

/-- Members until an object ends, each of which changes what is known so far. The first argument bounds
their number. -/
def membersFrom {σ : Type} (member : σ → Reader σ) : Nat → Bool → σ → Reader σ
  | 0, _, s => return s
  | bound + 1, first, s => do
    if ← within .unknown (hasKey first) then
      membersFrom member bound false (← member s)
    else return s

def members {σ : Type} (member : σ → Reader σ) (s : σ) : Reader σ := do
  membersFrom member ((← get).size + 1) true s

/-- Reads a whole text. Only blanks may follow the value. -/
def document (r : Reader α) (text : String) : Except Fault α :=
  match r (Cursor.ofString text) with
  | .error f => .error f
  | .ok (a, c) =>
    let c := c.skipBlanks
    if c.rest.isEmpty then .ok a else .error ⟨.trailingCharacters, .known c.ahead, []⟩

end Reader

end CipherGraph.Json
