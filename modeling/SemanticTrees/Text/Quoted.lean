/-!
Text inside quotation marks. Printable ASCII stands for itself; quotation marks, the backslash,
tabs and line ends have a short form; every other character is written by its number.
-/

namespace SemanticTrees.Text

/-- The number of a character in lower-case hexadecimal digits, without zeros in front. -/
def hexadecimal (n : Nat) : List Char :=
  Nat.toDigits 16 n

/-- One character as it stands between quotation marks. -/
def quotedChar (c : Char) : List Char :=
  if c = '\t' then ['\\', 't']
  else if c = '\r' then ['\\', 'r']
  else if c = '\n' then ['\\', 'n']
  else if c = '\'' then ['\\', '\'']
  else if c = '"' then ['\\', '"']
  else if c = '\\' then ['\\', '\\']
  else if 0x20 ≤ c.toNat ∧ c.toNat ≤ 0x7e then [c]
  else ['\\', 'u', '\x7b'] ++ hexadecimal c.toNat ++ ['\x7d']

/-- A text as it stands between quotation marks. -/
def quoted (text : List Char) : List Char :=
  text.flatMap quotedChar

end SemanticTrees.Text
