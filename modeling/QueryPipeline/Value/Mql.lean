import QueryPipeline.Value
import QueryPipeline.Decimal.Layout

/-!
# Values as query-language text

The short text of a value, as one would type it at a prompt: `{ "k": v, "l": w }`, `[a, b]`, strings
and keys between double quotes exactly as they are.
-/

namespace QueryPipeline

/-- A text between double quotes; nothing in it is escaped. -/
def Value.mqlString (s : String) : List Char :=
  '"' :: s.toList ++ ['"']

mutual

/-- The query-language text of a value. -/
def Value.mql : Value → List Char
  | .null => "null".toList
  | .bool true => "true".toList
  | .bool false => "false".toList
  | .int32 n => Decimal.writeInt n.toInt
  | .int64 n => Decimal.writeInt n.toInt
  | .double x => x.plain
  | .string s => Value.mqlString s
  | .array items => '[' :: ", ".toList.intercalate (Value.mqlItems items) ++ [']']
  | .document [] => "\x7b\x7d".toList
  | .document fields =>
    "\x7b ".toList ++ ", ".toList.intercalate (Value.mqlFields fields) ++ " \x7d".toList

/-- The texts of the items of an array. -/
def Value.mqlItems : List Value → List (List Char)
  | [] => []
  | item :: items => Value.mql item :: Value.mqlItems items

/-- The texts of the fields of a document. -/
def Value.mqlFields : List (String × Value) → List (List Char)
  | [] => []
  | (key, value) :: fields =>
    (Value.mqlString key ++ ": ".toList ++ Value.mql value) :: Value.mqlFields fields

end

end QueryPipeline
