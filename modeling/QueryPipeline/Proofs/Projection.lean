import QueryPipeline.Proofs.Listing
import QueryPipeline.Proofs.Composition

/-!
# What a projection keeps

The body of a projection is read off the text of the query: first the fields that its own tokens name,
then the paths that the segments before it lift.

* `FieldList.listed` — the fields of a list of tokens, each where it is first named, with the number of
  the token that names it last;
* `FieldList.keptPaths` — the lifted paths that no token names;
* `exists_emission` — what a segment emits somewhere in a query;
* `Segment.stages_of_projection` — what a projection emits behind lifted paths;
* **`emission_of_projection`** — the body that each projection of a query emits, for whole queries.
-/

namespace QueryPipeline

open Reading OnePass

namespace FieldList

/-! ### Tokens -/

/-- The number that a token gives to its field. -/
def number (plain turned : Int32) (token : String) : Value :=
  .int32 (if Text.startsWith '-' token then turned else plain)

/-- Every field once, where a token first names it, with the number of the token that names it last. -/
def listed (plain turned : Int32) (tokens : List String) : Document :=
  Document.listing (tokens.map fieldName).eraseDups fun name =>
    (tokens.reverse.find? fun token => fieldName token = name).map (number plain turned)

theorem eq_of_readField {token : String} {field : String × Bool} (h : readField token = .ok field) :
    field = (fieldName token, ! Text.startsWith '-' token) := by
  rw [readField_eq] at h
  split at h
  · cases h
  · exact (Except.ok.inj h).symm

/-- The fields of a list that is read are those that its tokens name. -/
theorem eq_map_of_read {args : String} {fields : List (String × Bool)}
    (h : FieldList.read args = .ok fields) :
    fields = (Text.items ',' args).map fun token => (fieldName token, ! Text.startsWith '-' token) := by
  have hmap : fields.map id
      = (Text.items ',' args).map fun token => (fieldName token, ! Text.startsWith '-' token) :=
    map_of_mapM (fun token field => eq_of_readField) h
  rwa [List.map_id] at hmap

theorem lookup_map {α : Type} (as : List α) (name : α → String) (value : α → Value) (key : String) :
    List.lookup key (as.map fun a => (name a, value a))
      = (as.find? fun a => name a = key).map value := by
  induction as with
  | nil => rfl
  | cons a as ih =>
    rw [List.map_cons, List.lookup_cons, List.find?_cons, ih]
    by_cases h : name a = key
    · simp [h]
    · have hk : (key == name a) = false := by simpa using fun he : key = name a => h he.symm
      simp [hk, h]

/-- A field list that is read makes the document that its tokens list. -/
theorem toDocument_eq_listed (plain turned : Int32) {args : String} {fields : List (String × Bool)}
    (h : FieldList.read args = .ok fields) :
    toDocument plain turned fields = listed plain turned (Text.items ',' args) := by
  have hfields : (fields.map fun field => (field.1, Value.int32 (if field.2 then plain else turned)))
      = (Text.items ',' args).map fun token => (fieldName token, number plain turned token) := by
    rw [eq_map_of_read h, List.map_map]
    apply List.map_congr_left
    intro token _
    show (fieldName token, Value.int32 (if (! Text.startsWith '-' token) = true then plain else turned))
      = (fieldName token, number plain turned token)
    rw [number]
    cases Text.startsWith '-' token with
    | false => rfl
    | true => rfl
  show Document.ofFields
    (fields.map fun field => (field.1, Value.int32 (if field.2 then plain else turned))) = _
  rw [hfields, Document.ofFields_eq_listing, listed]
  congr 1
  · rw [Document.keys, List.map_map]
    rfl
  · funext name
    rw [Document.last?, ← List.map_reverse, lookup_map]

theorem keys_listed (plain turned : Int32) (tokens : List String) :
    Document.keys (listed plain turned tokens) = (tokens.map fieldName).eraseDups := by
  apply Document.keys_listing
  intro name hname
  obtain ⟨token, htoken, rfl⟩ := List.mem_map.mp (List.mem_eraseDups.mp hname)
  rw [Option.isSome_map, List.find?_isSome]
  exact ⟨token, List.mem_reverse.mpr htoken, by simp⟩

/-! ### Kept paths -/

/-- The lifted paths, each once, less the fields that the tokens name. -/
def keptPaths (tokens lifted : List String) : List String :=
  lifted.eraseDups.filter fun path => path ∉ tokens.map fieldName

/-- Behind its own fields a projection keeps the paths of a set that are no fields of its own. -/
theorem keep_listed_eq (tokens : List String) (kept : OrderedSet String) :
    keep (listed 1 0 tokens) kept
      = listed 1 0 tokens
        ++ (kept.toList.filter fun path => path ∉ tokens.map fieldName).map
          fun path => (path, .int32 1) := by
  have hcontains : ∀ path, (listed 1 0 tokens).contains path
      = decide (path ∈ tokens.map fieldName) := by
    intro path
    rw [Document.contains, keys_listed]
    simp only [List.mem_eraseDups]
  rw [keep]
  simp only [hcontains, decide_not]

/-- Behind its own fields a projection keeps the lifted paths that are no fields of its own. -/
theorem keep_listed (tokens lifted : List String) :
    keep (listed 1 0 tokens) (OrderedSet.empty.union lifted)
      = listed 1 0 tokens ++ (keptPaths tokens lifted).map fun path => (path, .int32 1) := by
  rw [keep_listed_eq, keptPaths, OrderedSet.toList_union_empty]

end FieldList

/-! ### What a segment of a query emits -/

theorem ne_empty_of_items {query text : String} {before after : List String}
    (h : Text.items '&' query = before ++ text :: after) : query ≠ "" := by
  intro hquery
  rw [hquery, Text.items_empty] at h
  exact absurd h.symm (by simp)

/-- **What a segment emits somewhere in a query.**  It is read by itself, and it emits its stages behind
the paths that the segments before it lift. -/
theorem exists_emission {options : CompileOptions} {query : String} {p : Pipeline}
    (h : compile options query = .ok p) {before after : List String} {text : String}
    (hitems : Text.items '&' query = before ++ text :: after) :
    ∃ segment xs ys, Segment.read options text = .ok segment
      ∧ emissions options query = .ok
          (xs ++ segment.stages (OrderedSet.empty.union (Query.liftedIn before)) :: ys)
      ∧ xs.length = before.length := by
  have hquery := ne_empty_of_items hitems
  rw [compile_eq_map_assemble options hquery] at h
  obtain ⟨segments, hsegments, -⟩ := map_eq_ok_iff.mp h
  have hread := hsegments
  rw [readSegments, hitems] at hread
  obtain ⟨front, back, hfront, hback, rfl⟩ := mapM_eq_ok_append_iff.mp hread
  obtain ⟨segment, rest, hsegment, -, rfl⟩ := mapM_cons_eq_ok_iff.mp hback
  have houtputs := outputs_append OrderedSet.empty front (segment :: rest)
  rw [flatMap_paths_of_mapM hfront, outputs_cons] at houtputs
  have hemissions : emissions options query
      = .ok (outputs OrderedSet.empty (front ++ segment :: rest)) := by
    rw [emissions_eq, hsegments]
    rfl
  rw [houtputs] at hemissions
  refine ⟨segment, _, _, hsegment, hemissions, ?_⟩
  rw [length_outputs]
  exact length_of_mapM hfront

/-- A pipeline is made of what the segments of its query emit. -/
theorem eq_flatten_of_compile {options : CompileOptions} {query : String} {p : Pipeline}
    (h : compile options query = .ok p) (hquery : query ≠ "") {stages : List (List Stage)}
    (hstages : emissions options query = .ok stages) :
    p = stages.flatten ++ [Stage.dropIdentity] := by
  rw [compile_eq_emissions options hquery, hstages] at h
  exact (Except.ok.inj h).symm

/-- A segment other than a projection emits the same stages whatever was lifted before it, and only a
segment that adds fields lifts anything. -/
theorem run_readSegment_of_fixed {options : CompileOptions} {text : String} {segment : Segment}
    (h : Segment.read options text = .ok segment) (hcode : (Segment.splitCode text).1 ≠ "p")
    (kept kept' : OrderedSet String) :
    ∃ kept'', (readSegment options text).run kept' = .ok (segment.stages kept, kept'')
      ∧ ((Segment.splitCode text).1 ≠ "a" → kept'' = kept') := by
  obtain ⟨stages, paths, rfl⟩ := Segment.exists_fixed_of_read h hcode
  refine ⟨kept'.union paths, ?_, ?_⟩
  · rw [(runs_readSegment options).run_eq, h]
    rfl
  · intro hadd
    have hpaths : paths = [] := by
      have hlifted := Segment.paths_of_read h
      rwa [Query.liftedPaths, if_neg hadd] at hlifted
    rw [hpaths, OrderedSet.union_nil]

/-! ### Projections -/

/-- A projection emits the fields that its tokens name and the lifted paths behind them. -/
theorem Segment.stages_of_projection {options : CompileOptions} {text args : String}
    {segment : Segment} (h : Segment.read options text = .ok segment)
    (hcode : Segment.splitCode text = ("p", args)) (lifted : List String) :
    segment.stages (OrderedSet.empty.union lifted)
      = Segment.ofBody .project
        (FieldList.listed 1 0 (Text.items ',' args)
          ++ (FieldList.keptPaths (Text.items ',' args) lifted).map fun path => (path, .int32 1)) := by
  obtain ⟨fields, hfields, rfl⟩ := Segment.exists_projection_of_read h (by rw [hcode])
  rw [hcode] at hfields
  rw [Segment.stages, FieldList.toDocument_eq_listed 1 0 hfields, FieldList.keep_listed]

/-- **The body of a projection.**  Wherever a projection stands in a query that compiles, it emits the
fields that its tokens name and, behind them, the paths that the segments before it lift and that it
does not name itself; it emits nothing exactly if there are neither.  Every other segment emits what it
emits behind any lifted paths, and lifts none unless it adds fields. -/
theorem emission_of_projection {options : CompileOptions} {query : String} {p : Pipeline}
    (h : compile options query = .ok p) {before after : List String} {text : String}
    (hitems : Text.items '&' query = before ++ text :: after) :
    ∃ xs stages ys, emissions options query = .ok (xs ++ stages :: ys)
      ∧ xs.length = before.length
      ∧ p = (xs ++ stages :: ys).flatten ++ [Stage.dropIdentity]
      ∧ (∀ args, Segment.splitCode text = ("p", args) →
          stages = Segment.ofBody .project
            (FieldList.listed 1 0 (Text.items ',' args)
              ++ (FieldList.keptPaths (Text.items ',' args) (Query.liftedIn before)).map
                fun path => (path, .int32 1))
          ∧ (stages = [] ↔ FieldList.listed 1 0 (Text.items ',' args) = []
              ∧ FieldList.keptPaths (Text.items ',' args) (Query.liftedIn before) = []))
      ∧ (∀ code args, Segment.splitCode text = (code, args) → code ≠ "p" → ∀ kept,
          ∃ kept', (readSegment options text).run kept = .ok (stages, kept')
            ∧ (code ≠ "a" → kept' = kept)) := by
  obtain ⟨segment, xs, ys, hsegment, hemissions, hlength⟩ := exists_emission h hitems
  have hquery := ne_empty_of_items hitems
  refine ⟨xs, _, ys, hemissions, hlength, eq_flatten_of_compile h hquery hemissions, ?_, ?_⟩
  · intro args hcode
    rw [Segment.stages_of_projection hsegment hcode]
    refine ⟨rfl, ?_⟩
    rw [Segment.ofBody_eq_nil_iff, List.append_eq_nil_iff, List.map_eq_nil_iff]
  · intro code args hcode hp kept
    have hrun := run_readSegment_of_fixed hsegment (by rw [hcode]; exact hp)
      (OrderedSet.empty.union (Query.liftedIn before)) kept
    rwa [hcode] at hrun

/-- Both alternatives of a choice are lifted, and the one that is excluded stays excluded. -/
theorem emission_of_projection_behind_choice :
    ∃ xs stages ys,
      emissions (.standard none) "a_x=v.w|y=u.z&p_-v.w,id&a_b=c.d" = .ok (xs ++ stages :: ys)
      ∧ xs.length = 1
      ∧ stages = [.project [("v.w", .int32 0), ("id", .int32 1), ("u.z", .int32 1)]] := by
  have hcompile : ∃ p, compile (.standard none) "a_x=v.w|y=u.z&p_-v.w,id&a_b=c.d" = .ok p :=
    ⟨[.addFields [("$or", .array [.document [("x", .string "$v.w")],
        .document [("y", .string "$u.z")]])],
      .project [("v.w", .int32 0), ("id", .int32 1), ("u.z", .int32 1)],
      .addFields [("b", .string "$c.d")], .dropIdentity], by decide +kernel⟩
  obtain ⟨p, hp⟩ := hcompile
  have hitems : Text.items '&' "a_x=v.w|y=u.z&p_-v.w,id&a_b=c.d"
      = ["a_x=v.w|y=u.z"] ++ "p_-v.w,id" :: ["a_b=c.d"] := by decide +kernel
  obtain ⟨xs, stages, ys, hemissions, hlength, -, hprojection, -⟩ :=
    emission_of_projection hp hitems
  obtain ⟨hstages, -⟩ := hprojection "-v.w,id" (by decide +kernel)
  refine ⟨xs, stages, ys, hemissions, hlength, ?_⟩
  rw [hstages]
  decide +kernel

end QueryPipeline
