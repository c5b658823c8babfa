import QueryPipeline.Operator
import QueryPipeline.Stage

/-!
# Faults in queries

Every way in which a query can fail to compile.  A fault has a number, a technical message, and for
most causes a hint for the person who wrote the query.

* `QueryError.message` is the text that is shown: the number with the hint and what caused it, or with
  the technical message alone when there is no hint.
-/

namespace QueryPipeline

/-- The text of a numbered fault with an optional hint. -/
def faultMessage (code : Nat) (hint : Option String) (technical : String) : String :=
  match hint with
  | some hint => "Error " ++ toString code ++ ": " ++ hint ++ "\n\tCaused by:\n\t" ++ technical
  | none => "Error " ++ toString code ++ ": " ++ technical

/-- The cause for which a query does not compile. -/
inductive QueryError where
  /-- No stage has this code. -/
  | unknownStage (code : String)
  /-- No operator of this name is registered. -/
  | unknownOperator (name : String)
  /-- The clause is not one key and one value. -/
  | malformedClause (clause : String)
  /-- The join descriptor cannot be resolved. -/
  | malformedJoin (descriptor reason : String)
  /-- The token of a field list names no field. -/
  | malformedField (token : String)
  /-- The argument does not suit the stage. -/
  | invalidArgument (kind : StageKind) (argument : String)
  /-- An operator refused its argument. -/
  | operatorFailed (name : String) (cause : OperatorError)
deriving DecidableEq, Repr

namespace QueryError

/-- The number of a fault. -/
def code : QueryError → Nat
  | unknownStage _ => 1001
  | unknownOperator _ => 1002
  | malformedClause _ => 1003
  | malformedJoin _ _ => 1004
  | malformedField _ => 1005
  | invalidArgument _ _ => 1006
  | operatorFailed _ _ => 1007

/-- Every fault lies in the query. -/
def isClientFault (_ : QueryError) : Bool :=
  true

/-- What the person who wrote the query can do about a fault. -/
def hint : QueryError → Option String
  | unknownStage code =>
    some ("Unknown stage code `" ++ code ++ "`. Expected one of: "
      ++ ", ".intercalate (StageKind.all.map StageKind.code) ++ ".")
  | unknownOperator name =>
    some ("Unknown operator `" ++ name
      ++ "`. Quote the value ('...') if the `$` is meant literally.")
  | malformedClause _ => some "Clauses must have the form `key=value`."
  | malformedJoin _ _ =>
    some ("Joins have the form `[+]plural[|singular[|local]]`, "
      ++ "e.g. `f_+orders` or `f_clients|client`.")
  | malformedField _ => none
  | invalidArgument .limit _ => some "Limit expects a positive integer."
  | invalidArgument .sample _ => some "Sample expects a positive integer."
  | invalidArgument .skip _ => some "Skip expects a non-negative integer."
  | invalidArgument _ _ => none
  | operatorFailed _ _ => none

/-- What is wrong. -/
def technical : QueryError → String
  | unknownStage code => "no stage registered for code `" ++ code ++ "`"
  | unknownOperator name => "no operator registered as `" ++ name ++ "`"
  | malformedClause clause =>
    "clause `" ++ clause ++ "` does not split into exactly one key and one value"
  | malformedJoin descriptor reason =>
    "join descriptor `" ++ descriptor ++ "` is malformed: " ++ reason
  | malformedField token => "field token `" ++ token ++ "` does not name a field"
  | invalidArgument kind argument =>
    "invalid argument `" ++ argument ++ "` for " ++ kind.label ++ " stage"
  | operatorFailed name cause => "operator `" ++ name ++ "` failed: " ++ cause.message

/-- The text that is shown for a fault. -/
def message (e : QueryError) : String :=
  faultMessage e.code e.hint e.technical

end QueryError

end QueryPipeline
