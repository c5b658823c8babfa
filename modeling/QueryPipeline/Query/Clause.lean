import QueryPipeline.QueryError

/-!
# Clauses

The arguments of a segment that matches or adds fields: groups between commas, which all have to hold,
made of alternatives between bars, of which one has to hold.  An alternative is a clause `key=value`,
and its value is one of three things:

* `name$argument` applies an operator, and becomes a document with `$name` as its only key;
* a text with a dot that is no number is a path, and becomes a reference to it;
* every other text is the value that it denotes as a token.

`Clause.body` is the document of all groups.  A group of one clause puts the field of its key; the
first group of several puts the field `$or`, and each later one adds a document to the list `$and`,
because a document cannot hold `$or` twice.
-/

namespace QueryPipeline

/-- A clause that has been read. -/
structure Clause where
  key : String
  value : Value
  /-- The path that the value refers to, if it is written as a path. -/
  path : Option String
deriving DecidableEq, Repr

namespace Clause

/-! ### Kinds of values -/

/-- The name and the argument of `name$argument`; a reference or a quoted text is no application. -/
def application? (text : String) : Option (String × String) :=
  if (Literal.quoted? text).isSome then none
  else (Text.cut '$' text).filter fun (name, _) => name ≠ ""

/-- Whether a text is written as a path: dotted, and neither a reference, quoted nor a number. -/
def isPath (text : String) : Bool :=
  text.toList.contains '.' && ! Literal.isReference text && (Literal.quoted? text).isNone
    && (Binary64.read? text.toList).isNone

/-- The path that a clause value is, unless it applies an operator. -/
def path? (text : String) : Option String :=
  if (application? text).isNone && isPath text then some text else none

/-- The value of a clause of the given key. -/
def readValue (operators : Registry) (key text : String) : Except QueryError Value :=
  match application? text with
  | some (name, argument) =>
    match operators.find? name with
    | none => .error (.unknownOperator name)
    | some operator =>
      match operator argument key with
      | .error cause => .error (.operatorFailed name cause)
      | .ok raw => .ok (.document [("$" ++ name, Literal.coerceRaw raw)])
  | none => .ok (if isPath text then .string ("$" ++ text) else Literal.coerce text)

/-! ### Reading groups -/

/-- A clause: a key that is not empty, one equals sign and a value. -/
def read (operators : Registry) (text : String) : Except QueryError Clause :=
  match Text.split '=' text with
  | [key, value] =>
    if key = "" then .error (.malformedClause text)
    else (readValue operators key value).map fun v => ⟨key, v, path? value⟩
  | _ => .error (.malformedClause text)

/-- The alternatives of a group. -/
def readGroup (operators : Registry) (text : String) : Except QueryError (List Clause) :=
  (Text.split '|' text).mapM (read operators)

/-- The groups of a segment; the first fault from the left is the one that is raised. -/
def readGroups (operators : Registry) (text : String) : Except QueryError (List (List Clause)) :=
  (Text.items ',' text).mapM (readGroup operators)

/-- The paths that the clauses of all groups refer to, in order. -/
def paths (groups : List (List Clause)) : List String :=
  groups.flatten.filterMap Clause.path

/-! ### The document of all groups -/

/-- A clause as a document of its own. -/
def toDocument (c : Clause) : Document :=
  [(c.key, c.value)]

/-- Puts a choice between alternatives into a document. -/
def insertChoice (d : Document) (alternatives : List Value) : Document :=
  if d.contains "$or" then
    let choice : Value := .document [("$or", .array alternatives)]
    match d.get? "$and" with
    | some (.array others) => Document.insert d "$and" (.array (others ++ [choice]))
    | _ => Document.insert d "$and" (.array [choice])
  else Document.insert d "$or" (.array alternatives)

/-- Puts a group into a document: a field for a single clause, a choice for several. -/
def insertGroup (d : Document) : List Clause → Document
  | [c] => Document.insert d c.key c.value
  | group => insertChoice d (group.map fun c => .document c.toDocument)

/-- The document of all groups. -/
def body (groups : List (List Clause)) : Document :=
  groups.foldl insertGroup []

theorem body_append (groups more : List (List Clause)) :
    body (groups ++ more) = more.foldl insertGroup (body groups) := by
  simp [body, List.foldl_append]

end Clause

end QueryPipeline
