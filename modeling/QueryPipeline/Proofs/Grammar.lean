import QueryPipeline.Proofs.Cutting
import QueryPipeline.Proofs.Numerals
import QueryPipeline.Proofs.Reading

/-!
# The language of queries

Which queries there are, without a reader: what a segment has to look like for each kind of stage, and
which fault it has if it does not.

* `IsUnwindPath`, `IsCountField`, `IsAmount`, `ClauseAccepted`, `FieldAccepted`, `JoinAccepted` — the
  pieces, each with the faults that it can have;
* **`Grammar.Accepts`**, **`Grammar.Fault`** — the arguments of every kind of stage;
* **`Grammar.SegmentAccepted`**, **`Grammar.SegmentFault`** — whole segments.

Where pieces stand next to each other, the fault of the whole is the `FirstFault` of its pieces.
-/

namespace QueryPipeline.Grammar

open Reading

/-! ### Scalar arguments -/

/-- The field to unwind: something besides one leading dollar sign. -/
def IsUnwindPath (text : String) : Prop :=
  text ≠ "" ∧ text ≠ "$"

/-- The field of a count: not empty, no reference and no path. -/
def IsCountField (text : String) : Prop :=
  text ≠ "" ∧ (∀ rest, text ≠ "$" ++ rest) ∧ '.' ∉ text.toList

/-- The numeral of a number between `least` and the greatest word of 64 bits. -/
def IsAmount (least : Int) (text : String) : Prop :=
  ∃ n, Decimal.IsNumeral text.toList n ∧ least ≤ n ∧ n ≤ 9223372036854775807

/-! ### Clauses -/

/-- A clause `key=value`: one equals sign, and a key in front of it. -/
structure IsClause (text key value : String) : Prop where
  parts : text = key ++ "=" ++ value
  keyPlain : '=' ∉ key.toList
  valuePlain : '=' ∉ value.toList
  named : key ≠ ""

/-- If a value applies an operator, it is registered and takes the argument under this key. -/
def ValueAccepted (operators : Registry) (key value : String) : Prop :=
  ∀ name argument, Clause.IsApplication value name argument →
    ∃ operator raw, operators.find? name = some operator ∧ operator argument key = .ok raw

/-- What is wrong with a value: its operator is not registered, or does not take the argument. -/
inductive ValueFault (operators : Registry) (key value : String) : QueryError → Prop
  | unregistered {name argument : String} (happlies : Clause.IsApplication value name argument)
    (hnone : operators.find? name = none) :
    ValueFault operators key value (.unknownOperator name)
  | refused {name argument : String} {operator : Operator} {cause : OperatorError}
    (happlies : Clause.IsApplication value name argument)
    (hsome : operators.find? name = some operator) (hrefused : operator argument key = .error cause) :
    ValueFault operators key value (.operatorFailed name cause)

/-- A clause with a value that is accepted. -/
def ClauseAccepted (operators : Registry) (text : String) : Prop :=
  ∃ key value, IsClause text key value ∧ ValueAccepted operators key value

/-- What is wrong with a clause: its form, or else its value. -/
inductive ClauseFault (operators : Registry) (text : String) : QueryError → Prop
  | malformed (hform : ∀ key value, ¬ IsClause text key value) :
    ClauseFault operators text (.malformedClause text)
  | value {key value : String} {e : QueryError} (hform : IsClause text key value)
    (hvalue : ValueFault operators key value e) : ClauseFault operators text e

/-- A group: every alternative is a clause that is accepted. -/
def GroupAccepted (operators : Registry) (group : String) : Prop :=
  ∀ text ∈ Text.split '|' group, ClauseAccepted operators text

/-- The fault of a group is that of its first alternative that has one. -/
def GroupFault (operators : Registry) (group : String) : QueryError → Prop :=
  FirstFault (ClauseAccepted operators) (ClauseFault operators) (Text.split '|' group)

/-! ### Field tokens -/

/-- The only token that names no field is a minus alone. -/
def FieldAccepted (token : String) : Prop :=
  token ≠ "-"

/-- What is wrong with a minus alone. -/
def FieldFault (token : String) (e : QueryError) : Prop :=
  token = "-" ∧ e = .malformedField token

/-! ### Join descriptors -/

/-- Whether a descriptor joins many documents: it starts with a plus. -/
def joinsMany (descriptor : String) : Bool :=
  Text.startsWith '+' descriptor

/-- The names of a descriptor, behind the plus if there is one. -/
def joinNames (descriptor : String) : List String :=
  Text.split '|' ((Text.after '+' descriptor).getD descriptor)

/-- A singular can be found: it is given, or the plural has a character to spare. -/
def HasSingular (names : List String) : Prop :=
  2 ≤ names.length ∨ 2 ≤ (names.headD "").length

/-- A local name can be found: it is given, or the name of the collection has a character to spare. -/
def HasLocalName (collection : Option String) (names : List String) : Prop :=
  3 ≤ names.length ∨ ∃ name, collection = some name ∧ 2 ≤ name.length

/-- A descriptor: at most three names, none of them empty, and the name that the join needs. -/
structure JoinAccepted (collection : Option String) (descriptor : String) : Prop where
  few : (joinNames descriptor).length ≤ 3
  named : "" ∉ joinNames descriptor
  singular : joinsMany descriptor = false → HasSingular (joinNames descriptor)
  localName : joinsMany descriptor = true → HasLocalName collection (joinNames descriptor)

/-- What is wrong with the names of a descriptor; the number of names counts before the names. -/
inductive NamesFault (collection : Option String) (descriptor : String) : JoinFault → Prop
  | tooMany (hmany : 3 < (joinNames descriptor).length) :
    NamesFault collection descriptor .tooManyNames
  | empty (hfew : (joinNames descriptor).length ≤ 3) (hempty : "" ∈ joinNames descriptor) :
    NamesFault collection descriptor .emptyName
  | singular (hfew : (joinNames descriptor).length ≤ 3) (hnamed : "" ∉ joinNames descriptor)
    (hone : joinsMany descriptor = false) (hnone : ¬ HasSingular (joinNames descriptor)) :
    NamesFault collection descriptor .noSingular
  | localName (hfew : (joinNames descriptor).length ≤ 3) (hnamed : "" ∉ joinNames descriptor)
    (hmany : joinsMany descriptor = true) (hnone : ¬ HasLocalName collection (joinNames descriptor)) :
    NamesFault collection descriptor .noLocalName

/-- What is wrong with a descriptor. -/
def JoinFaultAt (collection : Option String) (descriptor : String) (e : QueryError) : Prop :=
  ∃ fault, NamesFault collection descriptor fault ∧ e = .malformedJoin descriptor fault.message

/-! ### Arguments and segments -/

/-- The arguments that a stage of the given kind takes. -/
def Accepts (options : CompileOptions) (args : String) : StageKind → Prop
  | .unwind => IsUnwindPath args
  | .limit => IsAmount 1 args
  | .skip => IsAmount 0 args
  | .sample => IsAmount 1 args
  | .matching => ∀ group ∈ Text.items ',' args, GroupAccepted options.operators group
  | .addFields => ∀ group ∈ Text.items ',' args, GroupAccepted options.operators group
  | .project => ∀ token ∈ Text.items ',' args, FieldAccepted token
  | .sort => ∀ token ∈ Text.items ',' args, FieldAccepted token
  | .count => IsCountField args
  | .lookup => ∀ descriptor ∈ Text.items ',' args, JoinAccepted options.collection descriptor

/-- What is wrong with arguments that a stage of the given kind does not take. -/
def Fault (options : CompileOptions) (args : String) : StageKind → QueryError → Prop
  | .unwind, e => ¬ IsUnwindPath args ∧ e = .invalidArgument .unwind args
  | .limit, e => ¬ IsAmount 1 args ∧ e = .invalidArgument .limit args
  | .skip, e => ¬ IsAmount 0 args ∧ e = .invalidArgument .skip args
  | .sample, e => ¬ IsAmount 1 args ∧ e = .invalidArgument .sample args
  | .matching, e =>
    FirstFault (GroupAccepted options.operators) (GroupFault options.operators)
      (Text.items ',' args) e
  | .addFields, e =>
    FirstFault (GroupAccepted options.operators) (GroupFault options.operators)
      (Text.items ',' args) e
  | .project, e => FirstFault FieldAccepted FieldFault (Text.items ',' args) e
  | .sort, e => FirstFault FieldAccepted FieldFault (Text.items ',' args) e
  | .count, e => ¬ IsCountField args ∧ e = .invalidArgument .count args
  | .lookup, e =>
    FirstFault (JoinAccepted options.collection) (JoinFaultAt options.collection)
      (Text.items ',' args) e

/-- A segment is a code and arguments around its first underscore, or a code alone. -/
def IsSegment (text code args : String) : Prop :=
  '_' ∉ code.toList ∧ (text = code ++ "_" ++ args ∨ (text = code ∧ args = ""))

/-- A segment under one of the codes, with arguments that its stage takes. -/
def SegmentAccepted (options : CompileOptions) (text : String) : Prop :=
  ∃ kind args, IsSegment text (StageKind.code kind) args ∧ Accepts options args kind

/-- What is wrong with a segment: its code, or else its arguments. -/
inductive SegmentFault (options : CompileOptions) (text : String) : QueryError → Prop
  | unknown {code args : String} (hform : IsSegment text code args)
    (hcode : ∀ kind, StageKind.code kind ≠ code) : SegmentFault options text (.unknownStage code)
  | arguments {kind : StageKind} {args : String} {e : QueryError}
    (hform : IsSegment text kind.code args) (hargs : Fault options args kind e) :
    SegmentFault options text e

end QueryPipeline.Grammar
