import QueryPipeline.Stage
import QueryPipeline.Value.Mql
import QueryPipeline.Value.Json

/-!
# Pipelines as text

A pipeline is printed in one of three formats: one stage per line in query-language text, or all
stages as one JSON array, without blanks or indented.
-/

namespace QueryPipeline

/-- The formats in which a pipeline can be printed. -/
inductive Format where
  | mql
  | json
  | pretty
deriving DecidableEq, Repr

namespace Format

/-- All formats. -/
def all : List Format :=
  [mql, json, pretty]

/-- The name of a format. -/
def label : Format → String
  | mql => "mql"
  | json => "json"
  | pretty => "pretty"

/-- The format of the given name. -/
def ofLabel? (label : String) : Option Format :=
  all.find? fun format => format.label = label

end Format

/-- A stage in query-language text. -/
def Stage.mql (s : Stage) : List Char :=
  (Value.document s.toDocument).mql

namespace Pipeline

/-- A pipeline as a JSON array of its stages. -/
def toJson (p : Pipeline) : Json :=
  .array (p.map fun s => (Value.document s.toDocument).toJson)

/-- The characters of a pipeline in a format. -/
def write (p : Pipeline) : Format → List Char
  | .mql => ['\n'].intercalate (p.map Stage.mql)
  | .json => (toJson p).write .compact 0
  | .pretty => (toJson p).write .pretty 0

/-- The text of a pipeline in a format. -/
def render (p : Pipeline) (format : Format) : String :=
  String.ofList (write p format)

end Pipeline

end QueryPipeline
