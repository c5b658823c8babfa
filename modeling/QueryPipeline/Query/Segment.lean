import QueryPipeline.Query.Options
import QueryPipeline.Query.Clause
import QueryPipeline.Query.FieldList
import QueryPipeline.Query.Join

/-!
# Segments

A query is a list of segments between ampersands.  A segment is a one-letter code, an underscore and
the arguments of a stage, and it is read on its own: nothing that stands before it or behind it decides
whether it can be read.

The one thing that a segment leaves to its surroundings is which paths a projection keeps.  A segment
that adds fields lists the paths that its values refer to, and `Segment.stages` gives the stages of a
segment once the paths that were listed before it are known.
-/

namespace QueryPipeline

/-- A segment that has been read. -/
inductive Segment where
  /-- Stages that do not depend on the segments before, and the paths that later ones keep. -/
  | fixed (stages : List Stage) (paths : List String)
  /-- A projection on the given fields and on the paths that are to be kept. -/
  | projection (fields : Document)
deriving DecidableEq, Repr

namespace Segment

/-! ### Scalar arguments -/

/-- The array field to unwind, which may be written as a reference. -/
def readUnwind (text : String) : Except QueryError Stage :=
  let path := (Text.after '$' text).getD text
  if path = "" then .error (.invalidArgument .unwind text) else .ok (.unwind path)

/-- The field that receives a count. -/
def readCount (text : String) : Except QueryError Stage :=
  if text = "" ∨ Text.startsWith '$' text ∨ '.' ∈ text.toList then
    .error (.invalidArgument .count text)
  else .ok (.count text)

/-- A whole number of 64 bits that is not below `least`. -/
def readAmount (kind : StageKind) (least : Int) (text : String) : Except QueryError Int64 :=
  match (Decimal.readInt64? text.toList).filter fun n => least ≤ n.toInt with
  | some n => .ok n
  | none => .error (.invalidArgument kind text)

/-! ### Segments of every kind -/

/-- A stage on a document, or none if the document is empty. -/
def ofBody (stage : Document → Stage) (body : Document) : List Stage :=
  if body.isEmpty then [] else [stage body]

/-- Reads the arguments of a segment of the given kind. -/
def readArguments (options : CompileOptions) (text : String) :
    StageKind → Except QueryError Segment
  | .unwind => (readUnwind text).map fun stage => .fixed [stage] []
  | .limit => (readAmount .limit 1 text).map fun n => .fixed [.limit n] []
  | .skip => (readAmount .skip 0 text).map fun n => .fixed [.skip n] []
  | .sample => (readAmount .sample 1 text).map fun n => .fixed [.sample n] []
  | .matching => (Clause.readGroups options.operators text).map fun groups =>
      .fixed (ofBody .matching (Clause.body groups)) []
  | .addFields => (Clause.readGroups options.operators text).map fun groups =>
      .fixed (ofBody .addFields (Clause.body groups)) (Clause.paths groups)
  | .project => (FieldList.read text).map fun fields =>
      .projection (FieldList.toDocument 1 0 fields)
  | .sort => (FieldList.read text).map fun fields =>
      .fixed (ofBody .sort (FieldList.toDocument 1 (-1) fields)) []
  | .count => (readCount text).map fun stage => .fixed [stage] []
  | .lookup => (JoinSpec.readAll options.collection text).map fun specs =>
      .fixed (specs.flatMap JoinSpec.stages) []

/-- The code and the arguments of a segment; without an underscore there are no arguments. -/
def splitCode (text : String) : String × String :=
  (Text.cut '_' text).getD (text, "")

/-- Reads a segment. -/
def read (options : CompileOptions) (text : String) : Except QueryError Segment :=
  match StageKind.ofCode? (splitCode text).1 with
  | none => .error (.unknownStage (splitCode text).1)
  | some kind => readArguments options (splitCode text).2 kind

/-! ### Stages of segments -/

/-- The paths that a segment lists. -/
def paths : Segment → List String
  | fixed _ paths => paths
  | projection _ => []

/-- The stages of a segment behind segments that listed the paths `kept`. -/
def stages (kept : OrderedSet String) : Segment → List Stage
  | fixed stages _ => stages
  | projection fields => ofBody .project (FieldList.keep fields kept)

/-- The stages of segments in order. -/
def stagesOf (kept : OrderedSet String) : List Segment → List Stage
  | [] => []
  | segment :: rest => segment.stages kept ++ stagesOf (kept.union segment.paths) rest

theorem stagesOf_append (kept : OrderedSet String) (xs ys : List Segment) :
    stagesOf kept (xs ++ ys)
      = stagesOf kept xs ++ stagesOf (kept.union (xs.flatMap paths)) ys := by
  induction xs generalizing kept with
  | nil => rfl
  | cons x xs ih =>
    simp only [List.cons_append, stagesOf, ih, List.flatMap_cons, OrderedSet.union_append,
      List.append_assoc]

end Segment

end QueryPipeline
