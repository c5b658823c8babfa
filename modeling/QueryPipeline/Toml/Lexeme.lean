import QueryPipeline.Toml.Scan
import QueryPipeline.Decimal.Binary64

/-!
# Words of a settings file

Blanks and comments, keys, the four kinds of strings, and the values that are written as one word:
truth values, numbers and dates.  A settings file reads only strings, so of the other words it matters
that they are well formed and not what they stand for.
-/

namespace QueryPipeline.Toml

open Scan

/-! ### Blanks and comments -/

/-- A character that is no ASCII character. -/
def isWide (c : Char) : Bool :=
  0x80 ≤ c.toNat

/-- A character that may stand in a comment: anything but control characters, tabs allowed. -/
def isPrintable (c : Char) : Bool :=
  c == '\t' || (0x20 ≤ c.toNat && c.toNat ≤ 0x7e) || isWide c

/-- Blanks and tabs. -/
def blanks : Scan Unit := do
  let _ ← takeWhile fun c => c == ' ' || c == '\t'

/-- The end of a line. -/
def newline : Scan Unit :=
  char '\n' <|> chars ['\r', '\n']

/-- A comment up to the end of its line. -/
def comment : Scan Unit := do
  char '#'
  let _ ← takeWhile isPrintable

/-- What may stand behind the content of a line: blanks, a comment, and the end of the line or file. -/
def lineEnd : Scan Unit := do
  blanks
  let _ ← optional comment
  newline <|> atEnd

/-- Blanks, line ends and comments. -/
def gap : Scan Unit := do
  let _ ← many (do
    blanks
    let _ ← optional comment
    newline)
  blanks

/-! ### Strings -/

/-- A code point given by `n` hexadecimal digits. -/
def codePoint (n : Nat) : Scan Char := do
  let digits ← times n (satisfy fun c => c.isDigit || ('a' ≤ c && c ≤ 'f') || ('A' ≤ c && c ≤ 'F'))
  let value := digits.foldl (fun v c =>
    16 * v + (if c.isDigit then c.toNat - 48 else (c.toNat ||| 0x20) - 87)) 0
  if value.isValidChar then pure (Char.ofNat value) else failure

/-- An escape behind its backslash. -/
def escaped : Scan Char := do
  match ← satisfy fun _ => true with
  | 'b' => pure '\x08'
  | 't' => pure '\t'
  | 'n' => pure '\n'
  | 'f' => pure '\x0c'
  | 'r' => pure '\r'
  | '"' => pure '"'
  | '\\' => pure '\\'
  | 'u' => codePoint 4
  | 'U' => codePoint 8
  | _ => failure

/-- A character of a string in double quotes. -/
def basicChar : Scan Char :=
  (do
    char '\\'
    escaped)
  <|> satisfy fun c => isPrintable c && c != '"' && c != '\\'

/-- A string in double quotes on one line. -/
def basicString : Scan String := do
  char '"'
  let cs ← many basicChar
  char '"'
  pure (String.ofList cs)

/-- A string in single quotes on one line; it has no escapes. -/
def literalString : Scan String := do
  char '\''
  let cs ← takeWhile fun c => isPrintable c && c != '\''
  char '\''
  pure (String.ofList cs)

/-- One or two quotes inside a string that three of them end. -/
def fewQuotes (quote : Char) : Scan (List Char) := do
  let cs ← takeWhile1 (· == quote)
  guard (cs.length < 3)
  pure cs

/-- The three quotes that end a string, and up to two before them that belong to it. -/
def endQuotes (quote : Char) : Scan (List Char) := do
  let cs ← takeWhile (· == quote)
  guard (3 ≤ cs.length ∧ cs.length ≤ 5)
  pure (cs.drop 3)

/-- A string between three quotes; a line end right behind the first three is left out. -/
def longString (quote : Char) (part : Scan (List Char)) : Scan String := do
  chars [quote, quote, quote]
  let _ ← optional newline
  let parts ← many (part <|> giving ['\n'] newline <|> fewQuotes quote)
  let last ← endQuotes quote
  pure (String.ofList (parts.flatten ++ last))

/-- A backslash at the end of a line takes the line end and all blanks behind it out. -/
def joinedLine : Scan (List Char) := do
  char '\\'
  blanks
  newline
  let _ ← many (newline <|> (do
    let _ ← takeWhile1 fun c => c == ' ' || c == '\t'))
  pure []

/-- A string in three double quotes. -/
def longBasicString : Scan String :=
  longString '"' (joinedLine <|> (fun c => [c]) <$> basicChar)

/-- A string in three single quotes. -/
def longLiteralString : Scan String :=
  longString '\'' ((fun c => [c]) <$> satisfy fun c => isPrintable c && c != '\'')

/-- A string of any kind. -/
def string : Scan String :=
  longBasicString <|> basicString <|> longLiteralString <|> literalString

/-! ### Keys -/

/-- The most that keys and values may be nested. -/
def nestingLimit : Nat :=
  80

/-- A key without dots, bare or quoted. -/
def simpleKey : Scan String :=
  basicString <|> literalString
  <|> (String.ofList <$> takeWhile1 fun c => c.isAlphanum || c == '-' || c == '_')

/-- A key: names with dots between them, and blanks around each name. -/
def key : Scan (List String) := do
  let names ← sepBy
    (do
      blanks
      let name ← simpleKey
      blanks
      pure name)
    (char '.')
  guard (names ≠ [] ∧ names.length < nestingLimit)
  pure names

/-! ### Numbers -/

/-- Digits of the given kind, with single underscores between them. -/
def digitsOf (p : Char → Bool) : Scan (List Char) := do
  let first ← satisfy p
  let rest ← many (satisfy p <|> (do
    char '_'
    satisfy p))
  pure (first :: rest)

/-- A plus or minus sign. -/
def sign : Scan (List Char) :=
  giving ['-'] (char '-') <|> giving ['+'] (char '+') <|> pure []

/-- A whole number in decimal digits, which starts with zero only if it is zero. -/
def decimalDigits : Scan (List Char) := do
  let s ← sign
  let digits ← (do
    let first ← satisfy fun c => c.isDigit && c != '0'
    let rest ← many (satisfy Char.isDigit <|> (do
      char '_'
      satisfy Char.isDigit))
    pure (first :: rest)) <|> giving ['0'] (char '0')
  pure (s ++ digits)

/-- The digits behind a point. -/
def fraction : Scan (List Char) := do
  char '.'
  let digits ← digitsOf Char.isDigit
  pure ('.' :: digits)

/-- A power of ten. -/
def power : Scan (List Char) := do
  let _ ← satisfy fun c => c == 'e' || c == 'E'
  let s ← sign
  let digits ← digitsOf Char.isDigit
  pure ('e' :: s ++ digits)

/-- A floating-point number; a positive one must not be too large to be represented. -/
def float : Scan Unit :=
  (do
    let whole ← decimalDigits
    let rest ← power <|> (do
      let f ← fraction
      let p ← optional power
      pure (f ++ p.getD []))
    guard (whole.head? = some '-' ∨ (Binary64.read? (whole ++ rest)).isSome))
  <|> (do
    let _ ← sign
    chars "inf".toList <|> chars "nan".toList)

/-- The value of digits in base `2 ^ bits`. -/
def digitsValue (bits : Nat) (digits : List Char) : Nat :=
  digits.foldl (fun v c =>
    v <<< bits + (if c.isDigit then c.toNat - 48 else (c.toNat ||| 0x20) - 87)) 0

/-- A whole number in another base behind its mark. -/
def basedInteger (mark : Char) (bits : Nat) (p : Char → Bool) : Scan Unit := do
  chars ['0', mark]
  let digits ← digitsOf p
  guard (Decimal.int64? (digitsValue bits digits)).isSome

/-- A whole number of 64 bits. -/
def integer : Scan Unit :=
  basedInteger 'x' 4 (fun c => c.isDigit || ('a' ≤ c && c ≤ 'f') || ('A' ≤ c && c ≤ 'F'))
  <|> basedInteger 'o' 3 (fun c => '0' ≤ c && c ≤ '7')
  <|> basedInteger 'b' 1 (fun c => c == '0' || c == '1')
  <|> (do
    let digits ← decimalDigits
    guard (Decimal.readInt64? digits).isSome)

/-! ### Dates -/

/-- A number of `n` digits between two bounds. -/
def bounded (n low high : Nat) : Scan Nat := do
  let digits ← times n (satisfy Char.isDigit)
  let value := Nat.ofDigitChars 10 digits 0
  guard (low ≤ value ∧ value ≤ high)
  pure value

/-- The number of days of a month. -/
def daysOf (year month : Nat) : Nat :=
  if month = 2 then
    if year % 4 = 0 ∧ (year % 100 ≠ 0 ∨ year % 400 = 0) then 29 else 28
  else if month = 4 ∨ month = 6 ∨ month = 9 ∨ month = 11 then 30
  else 31

/-- A day of the calendar. -/
def day : Scan Unit := do
  let year ← bounded 4 0 9999
  char '-'
  let month ← bounded 2 1 12
  char '-'
  let _ ← bounded 2 1 (daysOf year month)

/-- A time of the day; a minute can have 61 seconds. -/
def time : Scan Unit := do
  let _ ← bounded 2 0 23
  char ':'
  let _ ← bounded 2 0 59
  char ':'
  let _ ← bounded 2 0 60
  let _ ← optional (do
    char '.'
    let _ ← takeWhile1 Char.isDigit)

/-- The distance of a time from universal time. -/
def offset : Scan Unit :=
  char 'Z' <|> char 'z' <|> (do
    char '+' <|> char '-'
    let _ ← bounded 2 0 23
    char ':'
    let _ ← bounded 2 0 59)

/-- A day, a time, or a day with a time and perhaps its offset. -/
def date : Scan Unit :=
  (do
    day
    let _ ← optional (do
      char 'T' <|> char 't' <|> char ' '
      time
      let _ ← optional offset))
  <|> time

/-- A value that is not a string and holds no other values. -/
def scalar : Scan Unit :=
  date <|> float <|> integer <|> chars "true".toList <|> chars "false".toList

end QueryPipeline.Toml
