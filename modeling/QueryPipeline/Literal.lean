import QueryPipeline.Value
import QueryPipeline.Text
import QueryPipeline.Decimal.Layout

/-!
# The values that tokens denote

Every value in a query is written as a bare token.  What a token denotes does not depend on where it
stands:

1. `true` and `false` are booleans;
2. a token that starts with `$` refers to a field and stays as it is;
3. a token between single quotes is the text between them, and never a number;
4. a token that is the text of a number is that number, in the narrowest width it fits;
5. every other token is a string.

A token is the text of a number only if writing the number gives the token again, so `007`, `+1` and
`1e3` are strings; zeros behind a fraction count for nothing, so `1.0` and `10.50` are numbers.
-/

namespace QueryPipeline

/-- A value before it is typed: a token, or a list that an operator made of one. -/
inductive RawValue where
  | token (s : String)
  | list (items : List RawValue)
deriving Repr, Inhabited

namespace Literal

/-! ### Kinds of tokens -/

/-- A token that refers to a field. -/
def isReference (token : String) : Bool :=
  Text.startsWith '$' token

/-- The text between the quotes of a quoted token; there must be at least one character. -/
def quoted? (token : String) : Option String :=
  let cs := token.toList
  if 2 < cs.length ∧ cs.head? = some '\'' ∧ cs.getLast? = some '\'' then
    some (String.ofList cs.tail.dropLast)
  else none

/-- A whole number of 64 bits in the narrowest width. -/
def ofInt64 (n : Int64) : Value :=
  if Int32.minValue.toInt ≤ n.toInt ∧ n.toInt ≤ Int32.maxValue.toInt then .int32 n.toInt32
  else .int64 n

/-- A text without the characters `c` at its end. -/
def dropTrailing (c : Char) (cs : List Char) : List Char :=
  (cs.reverse.dropWhile (· == c)).reverse

/--
A numeral without the zeros behind its fraction, and without the point if nothing is left behind it.
There is none for a numeral that ends in its point.
-/
def trimFraction? (cs : List Char) : Option (List Char) :=
  match cs.dropWhile (· != '.') with
  | [] => some cs
  | [_] => none
  | _ => some (dropTrailing '.' (dropTrailing '0' cs))

/-- The number that a token is the text of. -/
def number? (token : String) : Option Value :=
  let cs := token.toList
  match Decimal.readInt64? cs with
  | some n => if Decimal.writeInt n.toInt = cs then some (ofInt64 n) else none
  | none =>
    match Binary64.read? cs, trimFraction? cs with
    | some x, some canonical => if x.plain = canonical then some (.double x) else none
    | _, _ => none

/-! ### Tokens and lists -/

/-- The value that a token denotes. -/
def coerce (token : String) : Value :=
  if token = "true" then .bool true
  else if token = "false" then .bool false
  else if isReference token then .string token
  else match quoted? token with
    | some s => .string s
    | none => (number? token).getD (.string token)

mutual

/-- The value that a raw value denotes: lists are read item by item. -/
def coerceRaw : RawValue → Value
  | .token s => coerce s
  | .list items => .array (coerceItems items)

/-- The values that the items of a list denote. -/
def coerceItems : List RawValue → List Value
  | [] => []
  | item :: items => coerceRaw item :: coerceItems items

end

theorem coerceItems_eq_map (items : List RawValue) : coerceItems items = items.map coerceRaw := by
  induction items with
  | nil => rfl
  | cons item items ih => rw [coerceItems, ih, List.map_cons]

end Literal

end QueryPipeline
