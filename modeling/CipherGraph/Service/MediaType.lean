import CipherGraph.Text.Blank

/-! # Media types

The form of a content type, as far as it tells whether a body is JSON: a type and a subtype, and after
a semicolon the parameters. A subtype may end in a suffix after its last plus sign. -/

namespace CipherGraph

/-- A media type without its parameters, in small letters. -/
structure MediaType where
  kind : String
  subtype : String
  suffix : Option String
  deriving DecidableEq, Repr

namespace MediaType

def isToken (c : Char) : Bool :=
  c.isAlphanum || "!#$%&'*+-.^_`|~".toList.contains c

def isQuotedText (c : Char) : Bool :=
  31 < c.toNat && c.toNat != 127

/-- How far the parameters have been read. -/
inductive ParameterState where
  | gap
  | name
  | valueStart
  | value
  | quoteStart
  | quoted
  | closed
  deriving DecidableEq, Repr

namespace ParameterState

/-- The state after one more character, if it may stand there. -/
def step (s : ParameterState) (c : Char) : Option ParameterState :=
  match s with
  | .gap => if c = ' ' then some .gap else if isToken c then some .name else none
  | .name => if c = '=' then some .valueStart else if isToken c then some .name else none
  | .valueStart => if c = '"' then some .quoteStart else if isToken c then some .value else none
  | .value => if c = ';' then some .gap else if isToken c then some .value else none
  -- A quoted value is not empty: a quote right after the opening one is its first character.
  | .quoteStart => if isQuotedText c then some .quoted else none
  | .quoted => if c = '"' then some .closed else if isQuotedText c then some .quoted else none
  | .closed => if c = ';' then some .gap else if c = ' ' then some .closed else none

def isFinal : ParameterState → Bool
  | .gap => true
  | .valueStart => true
  | .value => true
  | .closed => true
  | .name => false
  | .quoteStart => false
  | .quoted => false

end ParameterState

def areParameters (cs : List Char) : Bool :=
  match cs.foldlM ParameterState.step .gap with
  | some s => s.isFinal
  | none => false

/-- A subtype and, after its last plus sign, its suffix. -/
def splitSuffix (cs : List Char) : List Char × Option (List Char) :=
  let suffix := (cs.reverse.takeWhile (· ≠ '+')).reverse
  let stem := cs.take (cs.length - suffix.length - 1)
  -- A plus sign in front belongs to the subtype.
  if stem.isEmpty then (cs, none) else (stem, some suffix)

def parse? (header : String) : Option MediaType :=
  let cs := header.toList
  let kind := cs.takeWhile isToken
  match kind, cs.dropWhile isToken with
  | _ :: _, '/' :: rest =>
    let subtype := rest.takeWhile isToken
    let (stem, suffix) := splitSuffix subtype
    let lower (cs : List Char) := Text.lowerAscii (String.ofList cs)
    let type : MediaType := ⟨lower kind, lower stem, suffix.map lower⟩
    match subtype, rest.dropWhile isToken with
    | _, [] => some type
    | _ :: _, ';' :: parameters => if areParameters parameters then some type else none
    | _, _ => none
  | _, _ => none

def isJson (t : MediaType) : Bool :=
  t.kind = "application" && (t.subtype = "json" || t.suffix = some "json")

end MediaType

/-- Whether a content type says that a body is JSON. Characters that are not visible ASCII are refused. -/
def namesJson (header : String) : Bool :=
  header.toList.all (fun c => (32 ≤ c.toNat && c.toNat < 127) || c == '\t') &&
    match MediaType.parse? header with
    | some t => t.isJson
    | none => false

end CipherGraph
