import QueryPipeline.QueryError

/-!
# Joins

The arguments of a segment that joins other collections: descriptors `[+]plural[|singular[|local]]`
between commas.

A descriptor with a plus attaches every document of the other collection that points at the document
at hand, as an array under the plural.  A descriptor without one attaches the single document that the
document at hand points at, under the singular, and unwinds it.  After the first descriptor of a
segment the local field is read under the field that the descriptor before it attached.
-/

namespace QueryPipeline

/-- The singular of a plural: all but its last character, if that leaves anything. -/
def singularize (plural : String) : Option String :=
  match plural.toList.dropLast with
  | [] => none
  | singular => some (String.ofList singular)

/-- What is wrong with a join descriptor. -/
inductive JoinFault where
  | tooManyNames
  | emptyName
  | noSingular
  | noLocalName
deriving DecidableEq, Repr

/-- The fault in words. -/
def JoinFault.message : JoinFault → String
  | tooManyNames => "at most three names are allowed"
  | emptyName => "names must not be empty"
  | noSingular => "cannot infer the singular of the foreign collection"
  | noLocalName => "cannot infer the local name, spell it out or configure a collection"

/-- A join descriptor with its names resolved. -/
structure JoinSpec where
  /-- The other collection. -/
  plural : String
  /-- What one of its documents is called; a join of many does not need it. -/
  singular : Option String
  /-- What a document at hand is called; only a join of many needs it. -/
  localName : Option String
  /-- Whether many documents are attached, not one. -/
  isMany : Bool
  /-- The path of the document at hand, with a dot behind it; empty at the top. -/
  path : String
deriving DecidableEq, Repr

namespace JoinSpec

/-- Resolves a descriptor, given the name of a document at hand if it is known. -/
def read (defaultLocal : Option String) (path descriptor : String) : Except JoinFault JoinSpec :=
  let (isMany, text) := match Text.after '+' descriptor with
    | some text => (true, text)
    | none => (false, descriptor)
  let names := Text.split '|' text
  let plural := names.headD ""
  let singular := names[1]?.or (singularize plural)
  let localName := names[2]?.or defaultLocal
  if 3 < names.length then .error .tooManyNames
  else if "" ∈ names then .error .emptyName
  else if ! isMany && singular.isNone then .error .noSingular
  else if isMany && localName.isNone then .error .noLocalName
  else .ok ⟨plural, singular, localName, isMany, path⟩

/-- The field that receives the joined documents: the plural for many, else the singular. -/
def target (spec : JoinSpec) : String :=
  match spec.singular, spec.isMany with
  | some singular, false => singular
  | _, _ => spec.plural

/-- The stages of a join. -/
def stages (spec : JoinSpec) : List Stage :=
  if spec.isMany then
    [.lookup ⟨spec.plural, spec.path ++ "id", spec.localName.getD "" ++ "_id", spec.target⟩]
  else
    [.lookup ⟨spec.plural, spec.path ++ spec.target ++ "_id", "id", spec.target⟩,
      .unwind spec.target,
      .dropIdentityAt spec.target]

/-- Resolves the descriptors of a segment, each under the field that the one before it attached. -/
def readChain (defaultLocal : Option String) : String → List String → Except QueryError (List JoinSpec)
  | _, [] => .ok []
  | path, descriptor :: rest =>
    match read defaultLocal path descriptor with
    | .error fault => .error (.malformedJoin descriptor fault.message)
    | .ok spec => (readChain defaultLocal (spec.target ++ ".") rest).map fun specs => spec :: specs

/-- Resolves the descriptors of a segment on a collection. -/
def readAll (collection : Option String) (text : String) : Except QueryError (List JoinSpec) :=
  readChain (collection.bind singularize) "" (Text.items ',' text)

end JoinSpec

end QueryPipeline
