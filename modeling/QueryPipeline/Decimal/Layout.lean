import QueryPipeline.Decimal.Shortest

/-!
# Floating-point numbers as text

Two ways of writing the shortest decimal of a number.

* `Binary64.plain` never uses an exponent and writes whole numbers without a point; of two shortest
  decimals that are equally near it takes the larger;
* `Binary64.json` writes a point or an exponent in every number, the exponent when the first digit
  stands before the sixteenth place or behind the fifth; of two shortest decimals that are equally
  near it takes the even one.
-/

namespace QueryPipeline

namespace Decimal

/-- The digits of a decimal without the zeros at their end. -/
def significantDigits (d : Decimal) : List Char :=
  ((Nat.toDigits 10 d.digits).reverse.dropWhile (· == '0')).reverse

/-- How many digits stand before the point; less than one when the number starts with zeros. -/
def point (d : Decimal) : Int :=
  (Nat.toDigits 10 d.digits).length + d.exponent

/-- Digits with the point behind the first `point` of them, filled up with zeros on either side. -/
def positional (digits : List Char) (point : Int) : List Char :=
  if point ≤ 0 then
    '0' :: '.' :: (List.replicate (-point).toNat '0' ++ digits)
  else if (digits.length : Int) ≤ point then
    digits ++ List.replicate (point.toNat - digits.length) '0'
  else
    digits.take point.toNat ++ '.' :: digits.drop point.toNat

/-- Digits with the point behind the first of them and the power of ten that makes up for it. -/
def scientific (digits : List Char) (point : Int) : List Char :=
  let exponent := point - 1
  let mantissa := match digits with
    | first :: second :: rest => first :: '.' :: second :: rest
    | digits => digits
  mantissa ++ 'e' :: (if exponent < 0 then '-' else '+') :: Nat.toDigits 10 exponent.natAbs

end Decimal

namespace Binary64

/-- A minus sign for negative numbers. -/
def sign (x : Binary64) : List Char :=
  if x.negative then ['-'] else []

/-- The shortest digits without an exponent; a whole number has no point. -/
def plain (x : Binary64) : List Char :=
  if x.isNaN then "NaN".toList
  else if ¬ x.isFinite then x.sign ++ "inf".toList
  else if x.rank.val = 0 then x.sign ++ ['0']
  else
    let d := shortest .up x.rank
    x.sign ++ Decimal.positional d.significantDigits d.point

/--
The shortest digits of a finite number with a point or an exponent.  The first digit of a positional
number stands between the sixteenth place before the point and the fifth behind it.
-/
def json (x : Binary64) : List Char :=
  if x.rank.val = 0 then x.sign ++ "0.0".toList
  else
    let d := shortest .even x.rank
    let digits := d.significantDigits
    if -5 < d.point ∧ d.point ≤ 16 then
      if (digits.length : Int) ≤ d.point then
        x.sign ++ Decimal.positional digits d.point ++ ".0".toList
      else x.sign ++ Decimal.positional digits d.point
    else x.sign ++ Decimal.scientific digits d.point

end Binary64

end QueryPipeline
