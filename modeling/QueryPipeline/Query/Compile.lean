import QueryPipeline.Query.Segment

/-!
# Compiling queries

`compile` turns a query such as `m_status=Pending&f_+orders&p_id,-secret` into a pipeline.  The segments
are read from left to right, the first fault ends the compilation, and the stages keep the order of
their segments.  A last projection drops the identity field.  The empty query matches every document.
-/

namespace QueryPipeline

/-- Reads the segments of a query that are not empty. -/
def readSegments (options : CompileOptions) (query : String) : Except QueryError (List Segment) :=
  (Text.items '&' query).mapM (Segment.read options)

/-- The pipeline of segments. -/
def assemble (segments : List Segment) : Pipeline :=
  Segment.stagesOf OrderedSet.empty segments ++ [Stage.dropIdentity]

/-- Compiles a query. -/
def compile (options : CompileOptions) (query : String) : Except QueryError Pipeline :=
  if query = "" then .ok [.matching [], Stage.dropIdentity]
  else (readSegments options query).map assemble

end QueryPipeline
