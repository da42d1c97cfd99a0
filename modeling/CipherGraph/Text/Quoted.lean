import CipherGraph.Text.Hexadecimal
import CipherGraph.Text.Printable

/-! # Quoted texts

How a text stands inside a message: between double quotes, with quotes, backslashes and everything that
cannot be seen written as escapes. -/

namespace CipherGraph.Text

/-- A character as it stands inside a quoted text. -/
def quotedChar (c : Char) : List Char :=
  if c == '\t' then ['\\', 't']
  else if c == '\r' then ['\\', 'r']
  else if c == '\n' then ['\\', 'n']
  else if c == '"' then ['\\', '"']
  else if c == '\\' then ['\\', '\\']
  else if c.toNat == 0 then ['\\', '0']
  else if isPrintable c then [c]
  else ['\\', 'u', '\x7b'] ++ hex 1 c.toNat ++ ['\x7d']

def quoted (s : String) : String :=
  String.ofList ('"' :: s.toList.flatMap quotedChar ++ ['"'])

end CipherGraph.Text
