import CipherGraph.Proofs.Json.Token

/-! # Texts of JSON values

The grammar of JSON: how a value is spelled, with blanks between tokens, escapes in strings and the parts of numbers.
A spelling has a text, and it may have a value: the halves of surrogate pairs have to fit, numbers have to be in range,
and brackets may be nested only so far. -/

namespace CipherGraph.Json

/-- Characters that may stand between tokens. -/
abbrev Blanks :=
  {cs : List Char // ∀ ch ∈ cs, Cursor.isBlank ch = true}

def Blanks.none : Blanks :=
  ⟨[], by simp⟩

@[simp] theorem Blanks.none_val : none.1 = [] := rfl

/-- Decimal digits, of which there is one at least. -/
abbrev Digits :=
  {cs : List Char // cs ≠ [] ∧ ∀ ch ∈ cs, Decimal.isDigit ch = true}

def Digits.values (ds : Digits) : List Nat :=
  ds.1.map Decimal.digitValue

/-! ### Strings -/

/-- What stands for a character in a string, or for one half of a surrogate pair. -/
inductive Piece where
  | plain (ch : Char) (quote : ch ≠ '"') (backslash : ch ≠ '\\') (printable : 0x20 ≤ ch.toNat)
  | short (mark meant : Char) (h : Reader.simpleEscape? mark = some meant)
  | code (a b c d : Char) (n : Nat) (h : Reader.hexCode? [a, b, c, d] = some n)

namespace Piece

def text : Piece → List Char
  | plain ch _ _ _ => [ch]
  | short mark _ _ => ['\\', mark]
  | code a b c d _ _ => ['\\', 'u', a, b, c, d]

def textOf (ps : List Piece) : List Char :=
  ps.flatMap text

section TextOf
variable (ps : List Piece) {ch mark meant a b c d : Char} {n : Nat}

@[simp] theorem textOf_nil : textOf [] = [] := rfl

@[simp] theorem textOf_plain {quote backslash printable} :
    textOf (plain ch quote backslash printable :: ps) = ch :: textOf ps := rfl

@[simp] theorem textOf_short {h} : textOf (short mark meant h :: ps) = '\\' :: mark :: textOf ps := rfl

@[simp] theorem textOf_code {h} :
    textOf (code a b c d n h :: ps) = '\\' :: 'u' :: a :: b :: c :: d :: textOf ps := rfl

end TextOf

/-- A string between its quotes. -/
def quoted (ps : List Piece) : List Char :=
  '"' :: textOf ps ++ ['"']

def isLow (n : Nat) : Bool :=
  0xDC00 ≤ n && n ≤ 0xDFFF

def isHigh (n : Nat) : Bool :=
  0xD800 ≤ n && n ≤ 0xDBFF

/-- The characters that pieces stand for, if every half of a surrogate pair has its other half. -/
def meaning? : List Piece → Option (List Char)
  | [] => some []
  | plain ch _ _ _ :: ps => (meaning? ps).map (ch :: ·)
  | short _ meant _ :: ps => (meaning? ps).map (meant :: ·)
  | code _ _ _ _ high _ :: ps =>
    if isLow high then none
    else if isHigh high then
      match ps with
      | code _ _ _ _ low _ :: ps =>
        if isLow low then
          (meaning? ps).map (Char.ofNat (0x10000 + (high - 0xD800) * 0x400 + (low - 0xDC00)) :: ·)
        else none
      | _ => none
    else (meaning? ps).map (Char.ofNat high :: ·)

end Piece

/-! ### Numbers -/

/-- An exponent: its letter is small or not, and its sign may be left out. -/
structure ExponentSpelling where
  capital : Bool
  minus : Option Bool
  size : Digits

namespace ExponentSpelling

def text (e : ExponentSpelling) : List Char :=
  (if e.capital then 'E' else 'e') :: (e.minus.map fun minus => if minus then '-' else '+').toList ++ e.size.1

def parts (e : ExponentSpelling) : Bool × List Nat :=
  (e.minus.getD false, e.size.values)

end ExponentSpelling

structure NumberSpelling where
  negative : Bool
  whole : Digits
  zero : whole.1.head? = some '0' → whole.1 = ['0']
  fraction : Option Digits
  exponent : Option ExponentSpelling

namespace NumberSpelling

def text (n : NumberSpelling) : List Char :=
  (if n.negative then ['-'] else []) ++ n.whole.1 ++ (n.fraction.elim [] fun ds => '.' :: ds.1) ++
    n.exponent.elim [] (·.text)

def parts (n : NumberSpelling) : Reader.NumberText :=
  ⟨n.negative, n.whole.values, n.fraction.map Digits.values, n.exponent.map (·.parts)⟩

end NumberSpelling

/-! ### Values -/

mutual

/-- A value as it is written. -/
inductive Spelling where
  | null
  | true
  | false
  | string (ps : List Piece)
  | number (n : NumberSpelling)
  | list (items : ItemSpellings)
  | object (members : MemberSpellings)

/-- What stands between the brackets of a list. The blanks in front of a comma count from the second item on. -/
inductive ItemSpellings where
  | done (last : Blanks)
  | item (comma before : Blanks) (v : Spelling) (rest : ItemSpellings)

/-- What stands between the brackets of an object. -/
inductive MemberSpellings where
  | done (last : Blanks)
  | member (comma before : Blanks) (key : List Piece) (colon after : Blanks) (v : Spelling) (rest : MemberSpellings)

end

/-- What stands in front of an item or a key. -/
def lead (first : Bool) (comma before : Blanks) : List Char :=
  (if first then [] else comma.1 ++ [',']) ++ before.1

mutual

def Spelling.text : Spelling → List Char
  | .null => ['n', 'u', 'l', 'l']
  | .true => ['t', 'r', 'u', 'e']
  | .false => ['f', 'a', 'l', 's', 'e']
  | .string ps => Piece.quoted ps
  | .number n => n.text
  | .list items => '[' :: items.text true ++ [']']
  | .object members => '\x7b' :: members.text true ++ ['\x7d']

def ItemSpellings.text (first : Bool) : ItemSpellings → List Char
  | .done last => last.1
  | .item comma before v rest => lead first comma before ++ v.text ++ rest.text false

def MemberSpellings.text (first : Bool) : MemberSpellings → List Char
  | .done last => last.1
  | .member comma before key colon after v rest =>
    lead first comma before ++ Piece.quoted key ++ colon.1 ++ ':' :: after.1 ++ v.text ++ rest.text false

end

mutual

/-- The value that is spelled, if it has one and its brackets are nested at most as deep as given. -/
def Spelling.value? : Spelling → (depth : Nat) → Option Json
  | .null, _ => some .null
  | .true, _ => some (.bool Bool.true)
  | .false, _ => some (.bool Bool.false)
  | .string ps, _ => (Piece.meaning? ps).map fun cs => .string (String.ofList cs)
  | .number n, _ => n.parts.value?.map .number
  | .list _, 0 => none
  | .list items, depth + 1 => (items.values? depth).map .array
  | .object _, 0 => none
  | .object members, depth + 1 => (members.values? depth).map .object

def ItemSpellings.values? : ItemSpellings → (depth : Nat) → Option (List Json)
  | .done _, _ => some []
  | .item _ _ v rest, depth => (v.value? depth).bind fun a => (rest.values? depth).map (a :: ·)

def MemberSpellings.values? : MemberSpellings → (depth : Nat) → Option (List (String × Json))
  | .done _, _ => some []
  | .member _ _ key _ _ v rest, depth =>
    (Piece.meaning? key).bind fun k => (v.value? depth).bind fun a =>
      (rest.values? depth).map ((String.ofList k, a) :: ·)

end

mutual

/-- A value that is spelled may be nested less deep than is allowed. -/
theorem Spelling.value?_succ : (s : Spelling) → ∀ {depth : Nat} {v : Json}, s.value? depth = some v →
    s.value? (depth + 1) = some v
  | .null, _, _, h => h
  | .true, _, _, h => h
  | .false, _, _, h => h
  | .string _, _, _, h => h
  | .number _, _, _, h => h
  | .list items, depth + 1, v, h => by
    obtain ⟨vs, hvs, rfl⟩ := Option.map_eq_some_iff.mp h
    exact Option.map_eq_some_iff.mpr ⟨vs, items.values?_succ hvs, rfl⟩
  | .object members, depth + 1, v, h => by
    obtain ⟨ms, hms, rfl⟩ := Option.map_eq_some_iff.mp h
    exact Option.map_eq_some_iff.mpr ⟨ms, members.values?_succ hms, rfl⟩

theorem ItemSpellings.values?_succ : (items : ItemSpellings) → ∀ {depth : Nat} {vs : List Json},
    items.values? depth = some vs → items.values? (depth + 1) = some vs
  | .done _, _, _, h => h
  | .item _ _ v rest, depth, vs, h => by
    obtain ⟨a, ha, h⟩ := Option.bind_eq_some_iff.mp h
    obtain ⟨as, has, rfl⟩ := Option.map_eq_some_iff.mp h
    rw [ItemSpellings.values?, v.value?_succ ha, Option.bind_some, rest.values?_succ has]
    rfl

theorem MemberSpellings.values?_succ : (members : MemberSpellings) → ∀ {depth : Nat} {ms : List (String × Json)},
    members.values? depth = some ms → members.values? (depth + 1) = some ms
  | .done _, _, _, h => h
  | .member _ _ key _ _ v rest, depth, ms, h => by
    obtain ⟨k, hk, h⟩ := Option.bind_eq_some_iff.mp h
    obtain ⟨a, ha, h⟩ := Option.bind_eq_some_iff.mp h
    obtain ⟨as, has, rfl⟩ := Option.map_eq_some_iff.mp h
    rw [MemberSpellings.values?, hk, Option.bind_some, v.value?_succ ha, Option.bind_some, rest.values?_succ has]
    rfl

end

/-- The text is one complete JSON document. -/
def IsDocument (t : String) : Prop :=
  ∃ (before after : Blanks) (s : Spelling), t.toList = before.1 ++ s.text ++ after.1

end CipherGraph.Json
