/-!
# Tables of a settings file

A settings file is a table of named items.  Tables come about in several ways, and how a table came
about decides what may be added to it: a key is never defined twice, a table with a header of its own
is closed to dotted keys, and a table made by dotted keys has no header.

* `Table.define` defines a dotted key in a table;
* `Table.openTable` and `Table.openArray` make the table under a header.
-/

namespace QueryPipeline.Toml

/-- How a table came about. -/
inductive Origin where
  /-- It has a header of its own, or is the file itself. -/
  | header
  /-- A header names a table inside it. -/
  | implied
  /-- A dotted key names an item inside it. -/
  | dotted
deriving DecidableEq, Repr

/-- What a key stands for. -/
inductive Item where
  | string (s : String)
  /-- A number, a truth value or a date. -/
  | scalar
  | array (items : List Item)
  /-- A table written as a value, to which nothing can be added. -/
  | inlineTable (entries : List (String × Item))
  | table (origin : Origin) (entries : List (String × Item))
  /-- A table for each header of that name; the last one is still open. -/
  | tables (closed : List Item) (last : List (String × Item))
deriving Repr, Inhabited

/-- Items by key. -/
abbrev Table := List (String × Item)

namespace Table

/-- The item of a key. -/
def get? (t : Table) (key : String) : Option Item :=
  List.lookup key t

/-- Sets the item of a key. -/
def set : Table → String → Item → Table
  | [], key, item => [(key, item)]
  | (k, i) :: rest, key, item =>
    if k = key then (k, item) :: rest else (k, i) :: set rest key item

/--
Changes the table under a path, making the tables on the way.  A dotted key does not lead into a table
with a header of its own, and nothing leads into a value.
-/
def update (isDotted : Bool) (change : Origin → Table → Option Table) (origin : Origin) :
    List String → Table → Option Table
  | [], t => change origin t
  | key :: path, t =>
    match t.get? key with
    | none =>
      let made := if isDotted then Origin.dotted else Origin.implied
      (update isDotted change made path []).map fun sub => t.set key (.table made sub)
    | some (.table made entries) =>
      if isDotted && made == .header then none
      else (update isDotted change made path entries).map fun sub => t.set key (.table made sub)
    | some (.tables closed last) =>
      (update isDotted change .header path last).map fun sub => t.set key (.tables closed sub)
    | some _ => none

/--
Defines the key behind `path` in a table.  With a path before it, the table that receives the key must
have been made by dotted keys.
-/
def define (path : List String) (key : String) (item : Item) (t : Table) : Option Table :=
  update true
    (fun origin t =>
      if path ≠ [] ∧ origin ≠ .dotted then none
      else if (t.get? key).isSome then none
      else some (t.set key item))
    .header path t

/-- Makes the table under a header; tables inside it may have been named before, the table not. -/
def openTable (path : List String) (key : String) (t : Table) : Option Table :=
  update false
    (fun _ t =>
      match t.get? key with
      | none => some (t.set key (.table .header []))
      | some (.table .implied entries) => some (t.set key (.table .header entries))
      | some _ => none)
    .header path t

/-- Makes one more table under a header that stands for several. -/
def openArray (path : List String) (key : String) (t : Table) : Option Table :=
  update false
    (fun _ t =>
      match t.get? key with
      | none => some (t.set key (.tables [] []))
      | some (.tables closed last) => some (t.set key (.tables (closed ++ [.table .header last]) []))
      | some _ => none)
    .header path t

/-- Changes the table under a header that has been read. -/
def changeAt (path : List String) (change : Table → Option Table) (t : Table) : Option Table :=
  update false (fun _ t => change t) .header path t

end Table

end QueryPipeline.Toml
