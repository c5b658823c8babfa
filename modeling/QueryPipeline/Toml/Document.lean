import QueryPipeline.Toml.Lexeme
import QueryPipeline.Toml.Table

/-!
# Settings files

A settings file is a list of lines, each of which defines a key or opens a table.  `Table.read?` gives
the table of the whole file, or nothing if a line is malformed or a key is defined twice.
-/

namespace QueryPipeline.Toml

open Scan

/-! ### Values -/

/-- An array of values, over any number of lines; a comma may stand behind the last. -/
def array (value : Scan Item) : Scan Item := do
  char '['
  let items ← sepBy
    (do
      gap
      let item ← value
      gap
      pure item)
    (char ',')
  if items ≠ [] then
    let _ ← optional (char ',')
  gap
  char ']'
  pure (.array items)

/-- A key and its value, which the given scan takes off. -/
def keyValue (value : Scan Item) : Scan (List String × Item) := do
  let path ← key
  char '='
  blanks
  let item ← value
  pure (path, item)

/-- Defines a list of keys in an empty table. -/
def defineAll (entries : List (List String × Item)) : Option Table :=
  entries.foldlM (fun t (path, item) => Table.define path.dropLast (path.getLastD "") item t) []

/-- A table on one line. -/
def inlineTable (value : Scan Item) : Scan Item := do
  char '\x7b'
  let entries ← sepBy
    (do
      let entry ← keyValue value
      blanks
      pure entry)
    (char ',')
  blanks
  char '\x7d'
  match defineAll entries with
  | some t => pure (.inlineTable t)
  | none => failure

/-- A value with at most the given number of arrays and tables inside each other. -/
def value : Nat → Scan Item
  | 0 => .string <$> string <|> giving .scalar scalar
  | depth + 1 =>
    .string <$> string <|> array (value depth) <|> inlineTable (value depth) <|> giving .scalar scalar

/-! ### Lines -/

/-- What a line of a file does. -/
inductive Line where
  | empty
  | define (path : List String) (item : Item)
  | openTable (path : List String)
  | openArray (path : List String)
deriving Inhabited

/-- The header of a table. -/
def header : Scan Line :=
  (do
    chars ['[', '[']
    let path ← key
    chars [']', ']']
    pure (.openArray path))
  <|> (do
    char '['
    let path ← key
    char ']'
    pure (.openTable path))

/-- A line with its end. -/
def line : Scan Line := do
  blanks
  let content ← header
    <|> (do
      let (path, item) ← keyValue (value (nestingLimit - 1))
      pure (.define path item))
    <|> pure .empty
  lineEnd
  pure content

/-- Carries out the lines behind a header: the table of the file changes, and so may the header. -/
def Table.run (header : List String) (t : Table) : List Line → Option Table
  | [] => some t
  | .empty :: rest => run header t rest
  | .define path item :: rest => do
    let t ← t.changeAt header (Table.define path.dropLast (path.getLastD "") item)
    run header t rest
  | .openTable path :: rest => do
    let t ← t.openTable path.dropLast (path.getLastD "")
    run path t rest
  | .openArray path :: rest => do
    let t ← t.openArray path.dropLast (path.getLastD "")
    run path t rest

/-- The table of a file; a byte order mark before it does not count. -/
def Table.read? (text : String) : Option Table := do
  let cs := match text.toList with
    | '\uFEFF' :: rest => rest
    | cs => cs
  let lines ← (many line).whole? cs
  Table.run [] [] lines

end QueryPipeline.Toml
