import CipherGraph.Decimal.Text
import CipherGraph.Text.Quoted

/-! # What can be wrong with a JSON document

The causes for which a document, or a value taken from one, is refused, and their wording. -/

namespace CipherGraph.Json

/-- What was found where something else was expected. -/
inductive Unexpected where
  | null
  | bool (value : Bool)
  | integer (value : Int)
  | real (value : Float)
  | string (value : String)
  | sequence
  | map
  | unitVariant

def Unexpected.message : Unexpected → String
  | .null => "null"
  | .bool true => "boolean `true`"
  | .bool false => "boolean `false`"
  | .integer value => "integer `" ++ String.ofList (Decimal.ofInt value) ++ "`"
  | .real value => "floating point `" ++ String.ofList (Decimal.ofFloat value) ++ "`"
  | .string value => "string " ++ Text.quoted value
  | .sequence => "sequence"
  | .map => "map"
  | .unitVariant => "unit variant"

inductive Cause where
  | endInValue
  | endInString
  | endInList
  | endInObject
  | expectedValue
  | expectedLiteral
  | expectedListCommaOrEnd
  | expectedObjectCommaOrEnd
  | expectedColon
  | expectedQuote
  | expectedNumericKey
  | keyNotString
  | controlCharacter
  | invalidEscape
  | loneSurrogate
  | endOfHexEscape
  | invalidNumber
  | numberOutOfRange
  | recursionLimit
  | trailingCharacters
  | trailingComma
  | invalidType (found : Unexpected) (expected : String)
  | invalidInteger (value : Int) (expected : String)
  | invalidLength (length : Nat) (expected : String)
  | missingField (name : String)
  | duplicateField (name : String)
  | unknownVariant (name : String) (expected : List String)
  | severalKeys

/-- Whether the text is well-formed so far and only its content does not fit what is expected. -/
def Cause.isAboutContent : Cause → Bool
  | .invalidType .. | .invalidInteger .. | .invalidLength .. | .missingField _ | .duplicateField _
  | .unknownVariant .. | .severalKeys => true
  | _ => false

def nameList (names : List String) : String :=
  String.intercalate ", " (names.map fun name => "`" ++ name ++ "`")

def Cause.message : Cause → String
  | .endInValue => "EOF while parsing a value"
  | .endInString => "EOF while parsing a string"
  | .endInList => "EOF while parsing a list"
  | .endInObject => "EOF while parsing an object"
  | .expectedValue => "expected value"
  | .expectedLiteral => "expected ident"
  | .expectedListCommaOrEnd => "expected `,` or `]`"
  | .expectedObjectCommaOrEnd => "expected `,` or `\x7d`"
  | .expectedColon => "expected `:`"
  | .expectedQuote => "expected `\"`"
  | .expectedNumericKey => "invalid value: expected key to be a number in quotes"
  | .keyNotString => "key must be a string"
  | .controlCharacter => "control character (\\u0000-\\u001F) found while parsing a string"
  | .invalidEscape => "invalid escape"
  | .loneSurrogate => "lone leading surrogate in hex escape"
  | .endOfHexEscape => "unexpected end of hex escape"
  | .invalidNumber => "invalid number"
  | .numberOutOfRange => "number out of range"
  | .recursionLimit => "recursion limit exceeded"
  | .trailingCharacters => "trailing characters"
  | .trailingComma => "trailing comma"
  | .invalidType found expected => "invalid type: " ++ found.message ++ ", expected " ++ expected
  | .invalidInteger value expected =>
    "invalid value: integer `" ++ String.ofList (Decimal.ofInt value) ++ "`, expected " ++ expected
  | .invalidLength length expected => "invalid length " ++ toString length ++ ", expected " ++ expected
  | .missingField name => "missing field `" ++ name ++ "`"
  | .duplicateField name => "duplicate field `" ++ name ++ "`"
  | .unknownVariant name expected => "unknown variant `" ++ name ++ "`, expected one of " ++ nameList expected
  | .severalKeys => "invalid value: map, expected map with a single key"

end CipherGraph.Json
