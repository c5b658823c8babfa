import QueryPipeline.Text.Visible

/-!
# Quoted text for inspection

A text between double quotes in which quotes, backslashes and everything that cannot be shown are
escaped, so that two different texts never look alike.
-/

namespace QueryPipeline.Text

/-- One character inside double quotes; a hidden character is shown by its code point. -/
def escapeChar (c : Char) : List Char :=
  if c = '\x00' then ['\\', '0']
  else if c = '\t' then ['\\', 't']
  else if c = '\r' then ['\\', 'r']
  else if c = '\n' then ['\\', 'n']
  else if c = '"' then ['\\', '"']
  else if c = '\\' then ['\\', '\\']
  else if isVisible c then [c]
  else "\\u\x7b".toList ++ Nat.toDigits 16 c.toNat ++ ['\x7d']

/-- A text between double quotes with its escapes. -/
def quoted (s : String) : String :=
  String.ofList ('"' :: s.toList.flatMap escapeChar ++ ['"'])

end QueryPipeline.Text
