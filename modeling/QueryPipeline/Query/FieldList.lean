import QueryPipeline.QueryError
import QueryPipeline.OrderedSet

/-!
# Field lists

The arguments of a segment that projects or sorts: field names between commas, each of which can be
turned around by a leading minus.

* `FieldList.toDocument` gives every field one of two numbers; the last mention of a field decides;
* `FieldList.keep` adds the paths that a projection has to keep, unless they are fields already.
-/

namespace QueryPipeline.FieldList

/-- A field of the list: its name, and whether it is mentioned without a minus. -/
def readField (token : String) : Except QueryError (String × Bool) :=
  let field := match Text.after '-' token with
    | some name => (name, false)
    | none => (token, true)
  if field.1 = "" then .error (.malformedField token) else .ok field

/-- The fields of a list in order. -/
def read (text : String) : Except QueryError (List (String × Bool)) :=
  (Text.items ',' text).mapM readField

/-- The document that gives plain fields one number and turned fields another. -/
def toDocument (plain turned : Int32) (fields : List (String × Bool)) : Document :=
  Document.ofFields (fields.map fun (name, isPlain) => (name, .int32 (if isPlain then plain else turned)))

/-- A projection body with the paths that have to be kept behind its own fields. -/
def keep (body : Document) (paths : OrderedSet String) : Document :=
  body ++ ((paths.toList.filter fun path => ! body.contains path).map fun path => (path, .int32 1))

theorem keys_keep (body : Document) (paths : OrderedSet String) :
    Document.keys (keep body paths)
      = Document.keys body ++ paths.toList.filter fun path => ! body.contains path := by
  simp [keep, Document.keys, List.map_append, List.map_map, Function.comp_def]

/-- Keeping paths repeats no field. -/
theorem nodup_keys_keep {body : Document} (h : (Document.keys body).Nodup)
    (paths : OrderedSet String) : (Document.keys (keep body paths)).Nodup := by
  rw [keys_keep, List.nodup_append]
  refine ⟨h, paths.nodup.filter _, ?_⟩
  intro k hk l hl hkl
  have hnot := (List.mem_filter.mp hl).2
  simp only [Document.contains, Bool.not_eq_true', decide_eq_false_iff_not] at hnot
  exact hnot (hkl ▸ hk)

end QueryPipeline.FieldList
