import QueryPipeline.Value

/-!
# Stages of an aggregation pipeline

A pipeline is a list of stages.  Each stage has a kind, and the kind fixes the one-letter code under
which queries name it, the shape of its arguments and the operator under which it is written.

* `StageKind.ofCode?` finds a kind by its code; `ofCode?_code` says that no two kinds share one;
* `Stage.body` and `Stage.toDocument` are a stage as a document.
-/

namespace QueryPipeline

/-- The field that identifies a document in its store; no result keeps it. -/
def identityField : String :=
  "_id"

/-! ### Kinds -/

/-- The shape of the arguments of a stage. -/
inductive StageShape where
  | referencePath
  | integer
  | keyedMap
  | projectionMap
  | orderingMap
  | name
  | joinSpec
deriving DecidableEq, Repr

/-- The kinds of stages. -/
inductive StageKind where
  | unwind
  | limit
  | skip
  | matching
  | addFields
  | sample
  | project
  | sort
  | count
  | lookup
deriving DecidableEq, Repr

namespace StageShape

/-- All shapes. -/
def all : List StageShape :=
  [referencePath, integer, keyedMap, projectionMap, orderingMap, name, joinSpec]

/-- The name of a shape. -/
def label : StageShape → String
  | referencePath => "ReferencePath"
  | integer => "Integer"
  | keyedMap => "KeyedMap"
  | projectionMap => "ProjectionMap"
  | orderingMap => "OrderingMap"
  | name => "Name"
  | joinSpec => "JoinSpec"

/-- The shape of the given name. -/
def ofLabel? (label : String) : Option StageShape :=
  all.find? fun shape => shape.label = label

end StageShape

namespace StageKind

/-- All kinds, in the order in which they are listed to users. -/
def all : List StageKind :=
  [unwind, limit, skip, matching, addFields, sample, project, sort, count, lookup]

/-- The code that starts a segment of this kind. -/
def code : StageKind → String
  | unwind => "u"
  | limit => "l"
  | skip => "k"
  | matching => "m"
  | addFields => "a"
  | sample => "r"
  | project => "p"
  | sort => "s"
  | count => "c"
  | lookup => "f"

/-- The name of a kind. -/
def label : StageKind → String
  | unwind => "Unwind"
  | limit => "Limit"
  | skip => "Skip"
  | matching => "Match"
  | addFields => "AddFields"
  | sample => "Sample"
  | project => "Project"
  | sort => "Sort"
  | count => "Count"
  | lookup => "Lookup"

/-- The shape of the arguments. -/
def shape : StageKind → StageShape
  | unwind => .referencePath
  | limit | skip | sample => .integer
  | matching | addFields => .keyedMap
  | project => .projectionMap
  | sort => .orderingMap
  | count => .name
  | lookup => .joinSpec

/-- The operator under which a stage of this kind is written. -/
def operator : StageKind → String
  | unwind => "$unwind"
  | limit => "$limit"
  | skip => "$skip"
  | matching => "$match"
  | addFields => "$addFields"
  | sample => "$sample"
  | project => "$project"
  | sort => "$sort"
  | count => "$count"
  | lookup => "$lookup"

/-- The kind with the given code. -/
def ofCode? (code : String) : Option StageKind :=
  all.find? fun kind => kind.code = code

/-- The kind of the given name. -/
def ofLabel? (label : String) : Option StageKind :=
  all.find? fun kind => kind.label = label

/-- The kinds whose arguments have the given shape. -/
def ofShape (shape : StageShape) : List StageKind :=
  all.filter fun kind => kind.shape = shape

theorem mem_all (kind : StageKind) : kind ∈ all := by
  cases kind <;> decide

/-- A code names its kind and no other. -/
theorem ofCode?_code (kind : StageKind) : ofCode? kind.code = some kind := by
  cases kind <;> decide

theorem code_of_ofCode? {code : String} {kind : StageKind} (h : ofCode? code = some kind) :
    kind.code = code := by
  simpa using List.find?_some h

end StageKind

/-! ### Stages -/

/-- An equality join: each document gains the documents of another collection that it matches. -/
structure Lookup where
  /-- The collection that is joined. -/
  source : String
  /-- The path in the document at hand. -/
  localField : String
  /-- The path in the joined collection that has to be equal. -/
  foreignField : String
  /-- The field that receives the matches. -/
  target : String
deriving DecidableEq, Repr

/-- A stage with what its kind calls for. -/
inductive Stage where
  | unwind (path : String)
  | limit (n : Int64)
  | skip (n : Int64)
  | matching (body : Document)
  | addFields (body : Document)
  | sample (size : Int64)
  | project (body : Document)
  | sort (body : Document)
  | count (name : String)
  | lookup (join : Lookup)
deriving DecidableEq, Repr

/-- Stages in the order in which they run. -/
abbrev Pipeline := List Stage

namespace Stage

/-- The kind of a stage. -/
def kind : Stage → StageKind
  | unwind _ => .unwind
  | limit _ => .limit
  | skip _ => .skip
  | matching _ => .matching
  | addFields _ => .addFields
  | sample _ => .sample
  | project _ => .project
  | sort _ => .sort
  | count _ => .count
  | lookup _ => .lookup

/-- A projection that drops one field. -/
def drop (field : String) : Stage :=
  .project [(field, .int32 0)]

/-- A projection that drops the identity of the document at hand. -/
def dropIdentity : Stage :=
  drop identityField

/-- A projection that drops the identity of a document embedded at `path`. -/
def dropIdentityAt (path : String) : Stage :=
  drop (path ++ "." ++ identityField)

/-- What a stage holds, as a value. -/
def body : Stage → Value
  | unwind path => .string ("$" ++ path)
  | limit n => .int64 n
  | skip n => .int64 n
  | matching body => .document body
  | addFields body => .document body
  | sample size => .document [("size", .int64 size)]
  | project body => .document body
  | sort body => .document body
  | count name => .string name
  | lookup join => .document
      [("from", .string join.source), ("localField", .string join.localField),
        ("foreignField", .string join.foreignField), ("as", .string join.target)]

/-- A stage as a document: its body under the operator of its kind. -/
def toDocument (s : Stage) : Document :=
  [(s.kind.operator, s.body)]

end Stage

/-- The kinds of the stages. -/
def Pipeline.kinds (p : Pipeline) : List StageKind :=
  p.map Stage.kind

end QueryPipeline
