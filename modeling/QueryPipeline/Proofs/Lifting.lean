import QueryPipeline.Proofs.Cutting
import QueryPipeline.Proofs.OnePass

/-!
# The paths that a query lifts

Which paths are lifted can be read off the text of a query: they are the clause values of its `a`
segments that are written as dotted paths.  Nothing else that is read has a part in it.

* `Query.segments` — the codes and arguments of the segments that are not empty;
* `Query.clauseValues` — the values of all clauses, in order;
* **`Query.IsPath`** — what it takes for a value to be a dotted path;
* **`paths_of_read`** — a segment that is read lists exactly the paths that are written in it.
-/

namespace QueryPipeline

namespace Query

/-- The segments of a query that are not empty, each as its code and its arguments. -/
def segments (query : String) : List (String × String) :=
  (Text.items '&' query).map Segment.splitCode

/-- The value of a clause: what stands behind its equals sign. -/
def clauseValue (clause : String) : List String :=
  ((Text.cut '=' clause).map Prod.snd).toList

/-- The values of the clauses in the arguments of a segment: every alternative of every group. -/
def clauseValues (args : String) : List String :=
  (Text.items ',' args).flatMap fun group => (Text.split '|' group).flatMap clauseValue

/-- A clause value that is a dotted path. -/
structure IsPath (value : String) : Prop where
  dotted : '.' ∈ value.toList
  noReference : Text.startsWith '$' value = false
  unquoted : ¬ Literal.IsQuoted value
  noApplication : ∀ name argument, ¬ Clause.IsApplication value name argument
  noNumber : Binary64.read? value.toList = none

theorem isPath_iff {value : String} : IsPath value ↔ Clause.path? value = some value := by
  have happlication : Clause.application? value = none
      ↔ ∀ name argument, ¬ Clause.IsApplication value name argument := by
    simp only [← Clause.application?_eq_some_iff]
    cases Clause.application? value with
    | none => simp
    | some parts =>
      obtain ⟨name, argument⟩ := parts
      simp
  have hpath : Clause.path? value = some value
      ↔ Clause.application? value = none ∧ Clause.isPath value = true := by
    rw [Clause.path?]
    split
    · rename_i h
      simpa using h
    · rename_i h
      simpa using h
  rw [hpath, happlication]
  rw [Clause.isPath]
  simp only [Bool.and_eq_true, Option.isNone_iff_eq_none, Literal.quoted?_eq_none_iff,
    List.contains_iff_mem, Bool.not_eq_true', Literal.isReference]
  constructor
  · intro h
    obtain ⟨hdotted, hreference, hunquoted, happ, hnumber⟩ := h
    exact ⟨happ, ⟨⟨hdotted, hreference⟩, hunquoted⟩, hnumber⟩
  · intro h
    obtain ⟨happ, ⟨⟨hdotted, hreference⟩, hunquoted⟩, hnumber⟩ := h
    exact ⟨hdotted, hreference, hunquoted, happ, hnumber⟩

instance (value : String) : Decidable (IsPath value) :=
  decidable_of_iff _ isPath_iff.symm

/-- The paths that a segment lifts. -/
def liftedPaths (segment : String × String) : List String :=
  if segment.1 = "a" then (clauseValues segment.2).filter IsPath else []

/-- The paths that segments lift one after the other, as often as they are written. -/
def liftedIn (texts : List String) : List String :=
  texts.flatMap fun text => liftedPaths (Segment.splitCode text)

theorem isPath_of_mem_liftedPaths {segment : String × String} {path : String}
    (h : path ∈ liftedPaths segment) : IsPath path := by
  rw [liftedPaths] at h
  split at h
  · exact of_decide_eq_true (List.mem_filter.mp h).2
  · exact absurd h List.not_mem_nil

theorem isPath_of_mem_liftedIn {texts : List String} {path : String}
    (h : path ∈ liftedIn texts) : IsPath path := by
  obtain ⟨text, -, hpath⟩ := List.mem_flatMap.mp h
  exact isPath_of_mem_liftedPaths hpath

end Query

/-! ### What is read lists what is written -/

open Reading OnePass

/-- The path of a value is the value itself, if it is a dotted path. -/
theorem Clause.toList_path? (value : String) :
    (Clause.path? value).toList = [value].filter Query.IsPath := by
  by_cases h : Query.IsPath value
  · rw [Query.isPath_iff.mp h]
    simp [h]
  · have hnone : Clause.path? value = none := by
      rw [Clause.path?, if_neg]
      intro hpath
      exact h (Query.isPath_iff.mpr (by rw [Clause.path?, if_pos hpath]))
    rw [hnone]
    simp [h]

/-- A text that applies no operator and is no path is read as the token that it is. -/
theorem Clause.readValue_of_token {text : String} (happlies : application? text = none)
    (hpath : isPath text = false) (operators : Registry) (key : String) :
    readValue operators key text = .ok (Literal.coerce text) ∧ path? text = none := by
  rw [readValue.eq_def, path?, happlies, hpath]
  exact ⟨rfl, rfl⟩

theorem Clause.application?_of_not_mem {text : String} (h : '$' ∉ text.toList) :
    application? text = none := by
  rw [application?, Text.cut_of_not_mem h]
  exact ite_self none

/-- A clause that is read has one equals sign, and a value that is read under its key. -/
theorem Clause.exists_of_read {operators : Registry} {text : String} {clause : Clause}
    (h : Clause.read operators text = .ok clause) :
    ∃ key value v, Text.split '=' text = [key, value] ∧ key ≠ ""
      ∧ Clause.readValue operators key value = .ok v ∧ clause = ⟨key, v, Clause.path? value⟩ := by
  rw [Clause.read.eq_def] at h
  split at h
  · rename_i key value hsplit
    split at h
    · cases h
    · rename_i hkey
      obtain ⟨v, hv, rfl⟩ := map_eq_ok_iff.mp h
      exact ⟨key, value, v, hsplit, hkey, hv, rfl⟩
  · cases h

/-- A value that is read is a document of one operator, a reference to a path or what the token denotes. -/
theorem Clause.readValue_cases {operators : Registry} {key text : String} {v : Value}
    (h : Clause.readValue operators key text = .ok v) :
    (∃ name raw, v = .document [("$" ++ name, Literal.coerceRaw raw)])
      ∨ (∃ path, v = .string ("$" ++ path)) ∨ v = Literal.coerce text := by
  rw [Clause.readValue.eq_def] at h
  split at h
  · rename_i name argument _
    split at h
    · cases h
    · split at h
      · cases h
      · rename_i raw _
        cases h
        exact Or.inl ⟨name, raw, rfl⟩
  · cases h
    split
    · exact Or.inr (Or.inl ⟨text, rfl⟩)
    · exact Or.inr (Or.inr rfl)

theorem Clause.path_of_read {operators : Registry} {text : String} {clause : Clause}
    (h : Clause.read operators text = .ok clause) :
    clause.path.toList = (Query.clauseValue text).filter Query.IsPath := by
  obtain ⟨key, value, v, hsplit, -, -, rfl⟩ := Clause.exists_of_read h
  have hvalue : Query.clauseValue text = [value] := by
    rw [Query.clauseValue, Text.cut_of_split hsplit]
    rfl
  rw [hvalue]
  exact Clause.toList_path? value

/-- Groups that are read list the dotted paths among the values that are written. -/
theorem Clause.paths_of_readGroups {operators : Registry} {args : String}
    {groups : List (List Clause)} (h : Clause.readGroups operators args = .ok groups) :
    Clause.paths groups = (Query.clauseValues args).filter Query.IsPath := by
  rw [← flatMap_liftedBy_addFields, Query.clauseValues, List.filter_flatMap]
  refine flatMap_of_mapM ?_ h
  intro group clauses hgroup
  rw [List.filter_flatMap]
  refine flatMap_of_mapM ?_ hgroup
  intro text clause hclause
  exact Clause.path_of_read hclause

namespace Segment

variable {options : CompileOptions} {text : String} {segment : Segment}

/-- A stage is left out exactly if its body is empty. -/
theorem ofBody_eq_nil_iff {stage : Document → Stage} {body : Document} :
    ofBody stage body = [] ↔ body = [] := by
  cases body with
  | nil => simp [ofBody]
  | cons field body => simp [ofBody]

theorem mem_ofBody_iff {stage : Document → Stage} {body : Document} {s : Stage} :
    s ∈ ofBody stage body ↔ body ≠ [] ∧ s = stage body := by
  cases body with
  | nil => simp [ofBody]
  | cons field body => simp [ofBody]

/-- A segment that is read has the arguments of some kind under its code. -/
theorem exists_kind_of_read (h : Segment.read options text = .ok segment) :
    ∃ kind : StageKind, kind.code = (Segment.splitCode text).1
      ∧ Segment.readArguments options (Segment.splitCode text).2 kind = .ok segment := by
  rw [Segment.read] at h
  split at h
  · cases h
  · rename_i kind hkind
    exact ⟨kind, StageKind.code_of_ofCode? hkind, h⟩

/-- **A segment lists the paths that are written in it**, and only one that adds fields does. -/
theorem paths_of_read (h : Segment.read options text = .ok segment) :
    segment.paths = Query.liftedPaths (Segment.splitCode text) := by
  obtain ⟨kind, hcode, hargs⟩ := exists_kind_of_read h
  rw [Query.liftedPaths, ← hcode]
  cases kind with
  | addFields =>
    obtain ⟨groups, hgroups, rfl⟩ := map_eq_ok_iff.mp hargs
    exact Clause.paths_of_readGroups hgroups
  | _ => exact paths_of_readArguments hargs (by decide)

/-- A segment under another code than that of projections is finished when it is read. -/
theorem exists_fixed_of_read (h : Segment.read options text = .ok segment)
    (hcode : (Segment.splitCode text).1 ≠ "p") : ∃ stages paths, segment = .fixed stages paths := by
  obtain ⟨kind, hkind, hargs⟩ := exists_kind_of_read h
  cases kind with
  | project => exact absurd hkind.symm hcode
  | _ =>
    obtain ⟨a, -, rfl⟩ := map_eq_ok_iff.mp hargs
    exact ⟨_, _, rfl⟩

/-- A segment under the code of projections keeps its fields until the paths are known. -/
theorem exists_projection_of_read (h : Segment.read options text = .ok segment)
    (hcode : (Segment.splitCode text).1 = "p") :
    ∃ fields, FieldList.read (Segment.splitCode text).2 = .ok fields
      ∧ segment = .projection (FieldList.toDocument 1 0 fields) := by
  obtain ⟨kind, hkind, hargs⟩ := exists_kind_of_read h
  rw [hcode] at hkind
  cases kind with
  | project =>
    obtain ⟨fields, hfields, rfl⟩ := map_eq_ok_iff.mp hargs
    exact ⟨fields, hfields, rfl⟩
  | _ => exact absurd hkind (by decide)

end Segment

/-- Segments list the paths that are written in them. -/
theorem flatMap_paths_of_mapM {options : CompileOptions} {texts : List String}
    {segments : List Segment} (h : texts.mapM (Segment.read options) = .ok segments) :
    segments.flatMap Segment.paths = Query.liftedIn texts :=
  flatMap_of_mapM (fun _ _ => Segment.paths_of_read) h

end QueryPipeline
