/-!
# Decimal numerals

Reading and writing numbers as runs of ASCII digits.

* `readNat?` and `readInt?` read whole numbers; `readInt64?` keeps those that fit in 64 bits;
* `writeInt` is the canonical text of a whole number, and `readInt?_writeInt` reads it back;
* `Decimal` is a whole number of digits times a power of ten, and `readDecimal?` reads a numeral
  with a point and an exponent into a sign and such a decimal.
-/

namespace QueryPipeline

/-- The number `digits · 10 ^ exponent`. -/
structure Decimal where
  digits : Nat
  exponent : Int
deriving DecidableEq, Repr

namespace Decimal

/-! ### Whole numbers -/

/-- The number that a run of digits denotes; there must be at least one digit and nothing else. -/
def readNat? (cs : List Char) : Option Nat :=
  if cs ≠ [] ∧ cs.all Char.isDigit then some (Nat.ofDigitChars 10 cs 0) else none

/-- Takes one sign off: whether the number is negative, and the rest of the text. -/
def splitSign : List Char → Bool × List Char
  | '-' :: rest => (true, rest)
  | '+' :: rest => (false, rest)
  | cs => (false, cs)

/-- A whole number with an optional sign. -/
def readInt? (cs : List Char) : Option Int :=
  match splitSign cs with
  | (negative, digits) => (readNat? digits).map fun (n : Nat) => if negative then -(n : Int) else (n : Int)

/-- A whole number as a signed 64-bit word, if it fits. -/
def int64? (n : Int) : Option Int64 :=
  if Int64.minValue.toInt ≤ n ∧ n ≤ Int64.maxValue.toInt then some (Int64.ofInt n) else none

/-- A whole number with an optional sign that fits in 64 bits. -/
def readInt64? (cs : List Char) : Option Int64 :=
  (readInt? cs).bind int64?

/-- The digits of a whole number behind a minus sign if it is negative. -/
def writeInt (n : Int) : List Char :=
  if n < 0 then '-' :: Nat.toDigits 10 n.natAbs else Nat.toDigits 10 n.natAbs

theorem all_isDigit_toDigits (n : Nat) : (Nat.toDigits 10 n).all Char.isDigit = true := by
  rw [List.all_eq_true]
  intro c hc
  exact Nat.isDigit_of_mem_toDigits (by decide) (by decide) hc

/-- The digits of a number read back as the number. -/
theorem readNat?_toDigits (n : Nat) : readNat? (Nat.toDigits 10 n) = some n := by
  rw [readNat?, if_pos ⟨Nat.toDigits_ne_nil, all_isDigit_toDigits n⟩, Nat.ofDigitChars_ten_toDigits]

/-- A text that starts with a digit has no sign. -/
theorem splitSign_of_isDigit {c : Char} {rest : List Char} (h : c.isDigit = true) :
    splitSign (c :: rest) = (false, c :: rest) := by
  unfold splitSign
  split
  · rename_i heq
    cases heq
    exact absurd h (by decide)
  · rename_i heq
    cases heq
    exact absurd h (by decide)
  · rfl

theorem splitSign_toDigits (n : Nat) : splitSign (Nat.toDigits 10 n) = (false, Nat.toDigits 10 n) := by
  cases h : Nat.toDigits 10 n with
  | nil => rfl
  | cons c rest =>
    apply splitSign_of_isDigit
    exact Nat.isDigit_of_mem_toDigits (b := 10) (n := n) (by decide) (by decide) (by simp [h])

/-- The canonical text of a whole number reads back as the number. -/
theorem readInt?_writeInt (n : Int) : readInt? (writeInt n) = some n := by
  unfold writeInt
  split
  · rename_i h
    have hsplit : splitSign ('-' :: Nat.toDigits 10 n.natAbs) = (true, Nat.toDigits 10 n.natAbs) := rfl
    simp only [readInt?, hsplit, readNat?_toDigits, Option.map_some, if_true]
    exact congrArg some (by omega)
  · rename_i h
    simp only [readInt?, splitSign_toDigits, readNat?_toDigits, Option.map_some, Bool.false_eq_true,
      if_false]
    exact congrArg some (by omega)

/-- No two whole numbers have one canonical text. -/
theorem writeInt_inj {m n : Int} (h : writeInt m = writeInt n) : m = n := by
  have hread := congrArg readInt? h
  rw [readInt?_writeInt, readInt?_writeInt] at hread
  exact Option.some.inj hread

/-! ### Numerals with a point and an exponent -/

/-- The power of ten behind the digits: nothing, or `e` or `E` and a whole number. -/
def readExponent? : List Char → Option Int
  | [] => some 0
  | c :: rest => if c = 'e' ∨ c = 'E' then readInt? rest else none

/--
A numeral without its sign: digits, an optional point among, before or behind them, and an optional
exponent.  An exponent that moves the digits by more than 400 places past their number is cut short
there: beyond that every number vanishes or exceeds all that are compared with it.
-/
def readUnsigned? (cs : List Char) : Option Decimal :=
  let whole := cs.takeWhile Char.isDigit
  let (fraction, rest) := match cs.dropWhile Char.isDigit with
    | '.' :: rest => (rest.takeWhile Char.isDigit, rest.dropWhile Char.isDigit)
    | rest => ([], rest)
  let digits := whole ++ fraction
  let reach : Int := digits.length + 400
  if digits = [] then none
  else (readExponent? rest).map fun e =>
    ⟨Nat.ofDigitChars 10 digits 0, max (-reach) (min reach e) - fraction.length⟩

/-- A numeral: an optional sign, and digits with an optional point and exponent. -/
def readDecimal? (cs : List Char) : Option (Bool × Decimal) :=
  match splitSign cs with
  | (negative, body) => (readUnsigned? body).map fun d => (negative, d)

end Decimal

end QueryPipeline
