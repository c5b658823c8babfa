import QueryPipeline.Value
import QueryPipeline.Decimal.Layout

/-!
# Values as JSON text

Values are written in the relaxed extended form of JSON: numbers are plain numbers whatever their
width, and only floating-point values that JSON has no numeral for become an object.

* `Value.toJson` is the JSON value of a value;
* `Json.write` writes it in a `JsonStyle`: `JsonStyle.compact` has no blanks at all,
  `JsonStyle.pretty` puts every item on a line of its own.
-/

namespace QueryPipeline

/-- A JSON value; the fields of an object are kept in order. -/
inductive Json where
  | null
  | bool (b : Bool)
  | int (n : Int)
  | real (x : Binary64)
  | string (s : String)
  | array (items : List Json)
  | object (fields : List (String × Json))
deriving Repr, Inhabited

/-- The name of a value that is not finite; the sign of a value that is not a number is kept. -/
def Binary64.jsonName (x : Binary64) : String :=
  let name := if x.isNaN then "NaN" else "Infinity"
  if x.negative then "-" ++ name else name

/-- A floating-point value: a number if it is finite, else an object that names it. -/
def Binary64.toJson (x : Binary64) : Json :=
  if x.isFinite then .real x else .object [("$numberDouble", .string x.jsonName)]

mutual

/-- The relaxed extended JSON of a value. -/
def Value.toJson : Value → Json
  | .null => .null
  | .bool b => .bool b
  | .int32 n => .int n.toInt
  | .int64 n => .int n.toInt
  | .double x => x.toJson
  | .string s => .string s
  | .array items => .array (Value.itemsToJson items)
  | .document fields => .object (Value.fieldsToJson fields)

/-- The JSON of the items of an array. -/
def Value.itemsToJson : List Value → List Json
  | [] => []
  | item :: items => Value.toJson item :: Value.itemsToJson items

/-- The JSON of the fields of a document. -/
def Value.fieldsToJson : List (String × Value) → List (String × Json)
  | [] => []
  | (key, value) :: fields => (key, Value.toJson value) :: Value.fieldsToJson fields

end

/-! ### Strings -/

namespace Json

/-- One character of a string: quotes, backslashes and control characters are escaped. -/
def escapeChar (c : Char) : List Char :=
  if c = '"' then ['\\', '"']
  else if c = '\\' then ['\\', '\\']
  else if c = '\x08' then ['\\', 'b']
  else if c = '\x0c' then ['\\', 'f']
  else if c = '\n' then ['\\', 'n']
  else if c = '\r' then ['\\', 'r']
  else if c = '\t' then ['\\', 't']
  else if c.toNat < 0x20 then
    ['\\', 'u', '0', '0', Nat.digitChar (c.toNat / 16), Nat.digitChar (c.toNat % 16)]
  else [c]

/-- A string literal. -/
def quote (s : String) : List Char :=
  '"' :: s.toList.flatMap escapeChar ++ ['"']

end Json

/-! ### Layout -/

/-- The blanks between the parts of a JSON text. -/
structure JsonStyle where
  /-- What stands before an item that is nested this deep, and before the bracket behind the last. -/
  lineBreak : Nat → List Char
  /-- What stands behind the colon of a field. -/
  gap : List Char

/-- No blanks. -/
def JsonStyle.compact : JsonStyle :=
  ⟨fun _ => [], []⟩

/-- A line for every item, indented by two blanks for each level. -/
def JsonStyle.pretty : JsonStyle :=
  ⟨fun depth => '\n' :: List.replicate (2 * depth) ' ', [' ']⟩

namespace Json

/-- Written items between brackets; brackets without items stand together. -/
def enclose (style : JsonStyle) (depth : Nat) (opening closing : Char) :
    List (List Char) → List Char
  | [] => [opening, closing]
  | items =>
    opening :: style.lineBreak (depth + 1)
      ++ (',' :: style.lineBreak (depth + 1)).intercalate items
      ++ style.lineBreak depth ++ [closing]

mutual

/-- The text of a JSON value that is nested `depth` levels deep. -/
def write (style : JsonStyle) (depth : Nat) : Json → List Char
  | .null => "null".toList
  | .bool true => "true".toList
  | .bool false => "false".toList
  | .int n => Decimal.writeInt n
  | .real x => x.json
  | .string s => quote s
  | .array items => enclose style depth '[' ']' (writeItems style (depth + 1) items)
  | .object fields => enclose style depth '\x7b' '\x7d' (writeFields style (depth + 1) fields)

/-- The texts of the items of an array. -/
def writeItems (style : JsonStyle) (depth : Nat) : List Json → List (List Char)
  | [] => []
  | item :: items => write style depth item :: writeItems style depth items

/-- The texts of the fields of an object. -/
def writeFields (style : JsonStyle) (depth : Nat) : List (String × Json) → List (List Char)
  | [] => []
  | (key, value) :: fields =>
    (quote key ++ ':' :: style.gap ++ write style depth value) :: writeFields style depth fields

end

end Json

end QueryPipeline
