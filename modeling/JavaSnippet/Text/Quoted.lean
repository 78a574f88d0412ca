import JavaSnippet.Text.CharClass
/-!
Quoted text for messages. Quotes of the same kind, backslashes, and whatever cannot be read by
itself are written as escapes.
-/
namespace JavaSnippet.Text

/-- A number in lower-case hexadecimal digits. -/
def hexNumber (n : Nat) : List Char :=
  Nat.toDigits 16 n

/-- One character inside quotes of the given kind. -/
def escapeIn (quote c : Char) : List Char :=
  if c == '\x00' then ['\\', '0']
  else if c == '\t' then ['\\', 't']
  else if c == '\r' then ['\\', 'r']
  else if c == '\n' then ['\\', 'n']
  else if c == '\\' || c == quote then ['\\', c]
  else if isPrintable c && !isExtender c then [c]
  else ['\\', 'u', '\x7b'] ++ hexNumber c.toNat ++ ['\x7d']

/-- A text in double quotes. -/
def quoted (text : String) : String :=
  String.ofList ('"' :: (text.toList.flatMap (escapeIn '"') ++ ['"']))

/-- A character in single quotes. -/
def quotedChar (c : Char) : String :=
  String.ofList ('\'' :: (escapeIn '\'' c ++ ['\'']))

end JavaSnippet.Text
