/-! # A place in a text

A cursor is the text that is still to be read, with its position: the number of the line, and the number
of bytes since the line began. -/

namespace CipherGraph.Json

/-- A line, counted from one, and a byte in it, counted from zero. -/
structure Position where
  line : Nat := 1
  column : Nat := 0
  deriving Repr, DecidableEq

def Position.after (p : Position) (c : Char) : Position :=
  if c = '\n' then ⟨p.line + 1, 0⟩ else ⟨p.line, p.column + c.utf8Size⟩

def Position.afterByte (p : Position) (c : Char) : Position :=
  if c = '\n' then ⟨p.line + 1, 0⟩ else ⟨p.line, p.column + 1⟩

/-- The position after some bytes of a text, which may end inside a character. -/
def Position.afterBytes (p : Position) : Nat → List Char → Position
  | 0, _ => p
  | _, [] => p
  | n + 1, c :: rest =>
    if c.utf8Size ≤ n + 1 then (p.after c).afterBytes (n + 1 - c.utf8Size) rest
    else ⟨p.line, p.column + (n + 1)⟩
termination_by _ cs => cs.length

/-- The text to be read and its position. -/
structure Cursor where
  rest : List Char
  position : Position
  /-- The number of characters left, kept so that it need not be counted again. -/
  size : Nat
  size_eq : size = rest.length

namespace Cursor

def ofList (cs : List Char) (p : Position) : Cursor :=
  ⟨cs, p, cs.length, rfl⟩

def ofString (s : String) : Cursor :=
  ofList s.toList {}

theorem eq_ofList (c : Cursor) : c = ofList c.rest c.position := by
  obtain ⟨rest, position, size, h⟩ := c
  subst h
  rfl

def next (c : Cursor) : Cursor :=
  match h : c.rest with
  | [] => c
  | ch :: rest => ⟨rest, c.position.after ch, c.size - 1, by rw [c.size_eq, h, List.length_cons]; omega⟩

@[simp] theorem next_ofList_cons (ch : Char) (cs : List Char) (p : Position) :
    (ofList (ch :: cs) p).next = ofList cs (p.after ch) := rfl

@[simp] theorem next_ofList_nil (p : Position) : (ofList [] p).next = ofList [] p := rfl

/-- The position after the next byte, or the present one at the end of the text. -/
def ahead (c : Cursor) : Position :=
  match c.rest with
  | [] => c.position
  | ch :: _ => c.position.afterByte ch

/-- The cursor after the longest run of characters of a kind. -/
def skipWhile (keep : Char → Bool) (c : Cursor) : Cursor :=
  go c.rest c.position c.size c.size_eq
where
  go : (cs : List Char) → Position → (size : Nat) → size = cs.length → Cursor
    | [], p, size, h => ⟨[], p, size, h⟩
    | ch :: rest, p, size, h =>
      if keep ch then go rest (p.after ch) (size - 1) (by rw [h, List.length_cons]; omega)
      else ⟨ch :: rest, p, size, h⟩

def takeWhile (keep : Char → Bool) (c : Cursor) : List Char :=
  c.rest.takeWhile keep

/-- The four characters that JSON allows between tokens. -/
def isBlank (ch : Char) : Bool :=
  ch == ' ' || ch == '\n' || ch == '\t' || ch == '\r'

def skipBlanks (c : Cursor) : Cursor :=
  c.skipWhile isBlank

theorem rest_skipWhile (keep : Char → Bool) (c : Cursor) :
    (c.skipWhile keep).rest = c.rest.dropWhile keep := by
  have go (cs : List Char) (p : Position) (size : Nat) (h : size = cs.length) :
      (skipWhile.go keep cs p size h).rest = cs.dropWhile keep := by
    induction cs generalizing p size with
    | nil => rfl
    | cons ch rest ih =>
      cases hk : keep ch <;> simp [skipWhile.go, hk, ih]
  exact go c.rest c.position c.size c.size_eq

end Cursor

end CipherGraph.Json
