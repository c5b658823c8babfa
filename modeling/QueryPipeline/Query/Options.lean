import QueryPipeline.Operator
import QueryPipeline.Text.Quoted

/-!
# What a query is compiled under

The collection that the pipeline will run on, if it is known, and the operators that clauses may use.
-/

namespace QueryPipeline

/-- What a query is compiled under. -/
structure CompileOptions where
  /-- The collection that the pipeline runs on. -/
  collection : Option String
  /-- The operators that clause values may use. -/
  operators : Registry

namespace CompileOptions

/-- The standard operators and the given collection. -/
def standard (collection : Option String) : CompileOptions :=
  ⟨collection, Registry.standard⟩

/-- The options for inspection: the collection and the registry. -/
def describe (o : CompileOptions) : String :=
  let collection := match o.collection with
    | some name => "Some(" ++ Text.quoted name ++ ")"
    | none => "None"
  "CompileOptions \x7b collection: " ++ collection ++ ", operators: " ++ o.operators.describe ++ " \x7d"

end CompileOptions

end QueryPipeline
