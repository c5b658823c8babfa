import QueryPipeline.Proofs.Acceptance
import QueryPipeline.Proofs.Projection

/-!
# Fields in sorts and projections

Sorts and projections read their field lists alike: the same lists are refused, and the same fields come
out in the same order.  A sort turns a field around with -1 where a projection drops it with 0.  What a
projection gains from the segments before it, a sort does not.

* `FieldList.named` — the fields of a list of tokens, `FieldList.Lists` says what they are;
* `FieldList.numbered` — fields under two numbers;
* `FieldList.read_eq` — which field lists are read;
* **`FieldList.toDocument_eq_numbered`** — sorts and projections number the same fields;
* `compile_segment` — a query of one segment;
* **`sort_like_projection`** — whole queries.
-/

namespace QueryPipeline

open Reading OnePass Grammar

namespace FieldList

/-! ### Fields of tokens -/

/-- The fields that tokens name, each where it is first named, and whether the token that names it last is
without a minus. -/
def named (tokens : List String) : List (String × Bool) :=
  (tokens.map fieldName).eraseDups.filterMap fun name =>
    (tokens.reverse.find? fun token => fieldName token = name).map
      fun token => (name, ! Text.startsWith '-' token)

/-- Fields with one number for those without a minus and another for those with one. -/
def numbered (plain turned : Int32) (fields : List (String × Bool)) : Document :=
  fields.map fun field => (field.1, .int32 (if field.2 then plain else turned))

/-- What it is for fields to be those of a list of tokens.  The last token that names a field decides
whether it has a minus. -/
structure Lists (tokens : List String) (fields : List (String × Bool)) : Prop where
  names : fields.map Prod.fst = (tokens.map fieldName).eraseDups
  nodup : (fields.map Prod.fst).Nodup
  last : ∀ before token after, tokens = before ++ token :: after →
    fieldName token ∉ after.map fieldName → (fieldName token, ! Text.startsWith '-' token) ∈ fields

theorem listed_eq_numbered (plain turned : Int32) (tokens : List String) :
    listed plain turned tokens = numbered plain turned (named tokens) := by
  rw [listed, Document.listing, numbered, named, List.map_filterMap]
  congr 1
  funext name
  rw [Option.map_map, Option.map_map]
  congr 1
  funext token
  show (name, number plain turned token)
    = (name, Value.int32 (if (! Text.startsWith '-' token) = true then plain else turned))
  rw [number]
  cases Text.startsWith '-' token with
  | false => rfl
  | true => rfl

theorem lists_named (tokens : List String) : Lists tokens (named tokens) := by
  have hnames : (named tokens).map Prod.fst = (tokens.map fieldName).eraseDups := by
    rw [← keys_listed 1 0 tokens, listed_eq_numbered, Document.keys, numbered, List.map_map]
    rfl
  refine ⟨hnames, hnames ▸ nodup_eraseDups _, fun before token after htokens hlater => ?_⟩
  have hfind : (tokens.reverse.find? fun other => fieldName other = fieldName token) = some token := by
    rw [htokens, List.reverse_append, List.reverse_cons, List.append_assoc, List.find?_append,
      List.find?_eq_none.mpr]
    · simp
    · intro other hother heq
      refine hlater (List.mem_map.mpr ⟨other, List.mem_reverse.mp hother, of_decide_eq_true heq⟩)
  rw [named, List.mem_filterMap]
  refine ⟨fieldName token, ?_, by rw [hfind]; rfl⟩
  rw [List.mem_eraseDups, htokens]
  exact List.mem_map.mpr ⟨token, by simp, rfl⟩

/-! ### Reading field lists -/

/-- A field list is refused exactly if one of its tokens is a minus alone. -/
theorem read_eq (args : String) :
    FieldList.read args
      = if "-" ∈ Text.items ',' args then .error (.malformedField "-")
        else .ok ((Text.items ',' args).map fun token =>
          (fieldName token, ! Text.startsWith '-' token)) := by
  obtain ⟨hok, herror⟩ := Acceptance.decides_readFields args
  cases hread : FieldList.read args with
  | error e =>
    obtain ⟨before, token, after, hitems, -, rfl, rfl⟩ := (herror e).mp hread
    rw [hitems, if_pos (by simp)]
  | ok fields =>
    have hfine := hok.mp ⟨fields, hread⟩
    rw [if_neg fun hminus => hfine "-" hminus rfl, eq_map_of_read hread]

theorem toDocument_eq_numbered (plain turned : Int32) {args : String} {fields : List (String × Bool)}
    (h : FieldList.read args = .ok fields) :
    toDocument plain turned fields = numbered plain turned (named (Text.items ',' args)) := by
  rw [toDocument_eq_listed plain turned h, listed_eq_numbered]

end FieldList

/-! ### Segments by themselves -/

section

variable {options : CompileOptions} {text args : String}

theorem Segment.read_sort (hcode : Segment.splitCode text = ("s", args)) :
    Segment.read options text = (FieldList.read args).map fun fields =>
      .fixed (Segment.ofBody .sort (FieldList.toDocument 1 (-1) fields)) [] := by
  rw [Segment.read, hcode]
  rfl

theorem Segment.read_project (hcode : Segment.splitCode text = ("p", args)) :
    Segment.read options text = (FieldList.read args).map fun fields =>
      .projection (FieldList.toDocument 1 0 fields) := by
  rw [Segment.read, hcode]
  rfl

/-- A query of one segment compiles to the stages of the segment behind no paths. -/
theorem compile_segment {code : String} (hcode : '&' ∉ (code ++ "_").toList)
    (hargs : '&' ∉ args.toList) :
    compile options (code ++ "_" ++ args) = (Segment.read options (code ++ "_" ++ args)).map
      fun segment => segment.stages OrderedSet.empty ++ [Stage.dropIdentity] := by
  have hplain : '&' ∉ (code ++ "_" ++ args).toList := by
    rw [String.toList_append, List.mem_append, not_or]
    exact ⟨hcode, hargs⟩
  have hne : code ++ "_" ++ args ≠ "" := by simp
  rw [compile_eq_map_assemble options hne, readSegments, Text.items_of_not_mem hplain hne, mapM_cons_eq]
  cases Segment.read options (code ++ "_" ++ args) with
  | error e => rfl
  | ok segment =>
    show Except.ok (segment.stages OrderedSet.empty ++ [] ++ [Stage.dropIdentity]) = _
    rw [List.append_nil]
    rfl

theorem compile_sort (options : CompileOptions) (hargs : '&' ∉ args.toList) :
    compile options ("s_" ++ args) = (FieldList.read args).map fun _ => Segment.ofBody .sort
      (FieldList.numbered 1 (-1) (FieldList.named (Text.items ',' args))) ++ [Stage.dropIdentity] := by
  have hcode : Segment.splitCode ("s" ++ "_" ++ args) = ("s", args) :=
    Segment.splitCode_eq_iff.mpr ⟨by decide, Or.inl rfl⟩
  show compile options ("s" ++ "_" ++ args) = _
  rw [compile_segment (by decide) hargs, Segment.read_sort hcode, map_map]
  apply map_eq_map
  intro fields hfields
  rw [Segment.stages, FieldList.toDocument_eq_numbered 1 (-1) hfields]

theorem compile_projection (options : CompileOptions) (hargs : '&' ∉ args.toList) :
    compile options ("p_" ++ args) = (FieldList.read args).map fun _ => Segment.ofBody .project
      (FieldList.numbered 1 0 (FieldList.named (Text.items ',' args))) ++ [Stage.dropIdentity] := by
  have hcode : Segment.splitCode ("p" ++ "_" ++ args) = ("p", args) :=
    Segment.splitCode_eq_iff.mpr ⟨by decide, Or.inl rfl⟩
  have hkeep : ∀ body, FieldList.keep body OrderedSet.empty = body := List.append_nil
  show compile options ("p" ++ "_" ++ args) = _
  rw [compile_segment (by decide) hargs, Segment.read_project hcode, map_map]
  apply map_eq_map
  intro fields hfields
  rw [Segment.stages, hkeep, FieldList.toDocument_eq_numbered 1 0 hfields]

theorem Segment.length_ofBody_numbered (stage : Document → Stage) (plain turned : Int32)
    (fields : List (String × Bool)) :
    (Segment.ofBody stage (FieldList.numbered plain turned fields)).length
      = if fields = [] then 0 else 1 := by
  cases fields with
  | nil => rfl
  | cons field fields => rfl

/-- A sort emits its fields wherever it stands in a query. -/
theorem emission_of_sort {query : String} {p : Pipeline} (h : compile options query = .ok p)
    {before after : List String} (hitems : Text.items '&' query = before ++ text :: after)
    (hcode : Segment.splitCode text = ("s", args)) :
    ∃ xs ys, emissions options query = .ok (xs ++ Segment.ofBody .sort
          (FieldList.numbered 1 (-1) (FieldList.named (Text.items ',' args))) :: ys)
      ∧ xs.length = before.length := by
  obtain ⟨segment, xs, ys, hsegment, hemissions, hlength⟩ := exists_emission h hitems
  rw [Segment.read_sort hcode] at hsegment
  obtain ⟨fields, hfields, rfl⟩ := map_eq_ok_iff.mp hsegment
  rw [FieldList.toDocument_eq_numbered 1 (-1) hfields] at hemissions
  exact ⟨xs, ys, hemissions, hlength⟩

end

/-! ### Whole queries -/

/-- **Sorts and projections read their field lists alike.**  By themselves, both fail with the same fault,
because of a minus alone, or both compile to as many stages, with the same fields in the same order: each
once, where it is first named, with the last mention deciding between 1 and -1 in the sort and between 1
and 0 in the projection.  A sort has these fields in every query, whatever was lifted before it. -/
theorem sort_like_projection {args : String} (hargs : '&' ∉ args.toList) :
    ("-" ∈ Text.items ',' args ∧ ∀ options,
        compile options ("s_" ++ args) = .error (.malformedField "-")
        ∧ compile options ("p_" ++ args) = .error (.malformedField "-"))
    ∨ ∃ fields, FieldList.Lists (Text.items ',' args) fields
        ∧ (∀ options, ∃ sorted projected,
            compile options ("s_" ++ args) = .ok sorted ∧ compile options ("p_" ++ args) = .ok projected
            ∧ sorted.length = projected.length
            ∧ sorted = Segment.ofBody .sort (FieldList.numbered 1 (-1) fields) ++ [.dropIdentity]
            ∧ projected = Segment.ofBody .project (FieldList.numbered 1 0 fields) ++ [.dropIdentity])
        ∧ ∀ options query p before text after, compile options query = .ok p →
            Text.items '&' query = before ++ text :: after → Segment.splitCode text = ("s", args) →
            ∃ xs ys, emissions options query
                = .ok (xs ++ Segment.ofBody .sort (FieldList.numbered 1 (-1) fields) :: ys)
              ∧ xs.length = before.length
              ∧ p = (xs ++ Segment.ofBody .sort (FieldList.numbered 1 (-1) fields) :: ys).flatten
                  ++ [.dropIdentity] := by
  have hread := FieldList.read_eq args
  by_cases hminus : "-" ∈ Text.items ',' args
  · rw [if_pos hminus] at hread
    refine Or.inl ⟨hminus, fun options => ?_⟩
    rw [compile_sort options hargs, compile_projection options hargs, hread]
    exact ⟨rfl, rfl⟩
  · rw [if_neg hminus] at hread
    refine Or.inr ⟨_, FieldList.lists_named _, fun options => ?_,
      fun options query p before text after h hitems hcode => ?_⟩
    · rw [compile_sort options hargs, compile_projection options hargs, hread]
      refine ⟨_, _, rfl, rfl, ?_, rfl, rfl⟩
      rw [List.length_append, List.length_append, Segment.length_ofBody_numbered,
        Segment.length_ofBody_numbered]
    · obtain ⟨xs, ys, hemissions, hlength⟩ := emission_of_sort h hitems hcode
      exact ⟨xs, ys, hemissions, hlength,
        eq_flatten_of_compile h (ne_empty_of_items hitems) hemissions⟩

/-- Fields that are named twice, with a minus the first or the last time, and a name that starts with a
minus; by themselves and behind added fields, whose path only a projection would keep. -/
theorem sort_like_projection_repeated :
    ∃ fields, fields.map Prod.fst = ["a", "b", "-c"]
      ∧ ("a", true) ∈ fields ∧ ("b", false) ∈ fields ∧ ("-c", false) ∈ fields
      ∧ compile (.standard none) "s_-a,b,,a,--c,-b"
        = .ok (Segment.ofBody .sort (FieldList.numbered 1 (-1) fields) ++ [.dropIdentity])
      ∧ compile (.standard none) "p_-a,b,,a,--c,-b"
        = .ok (Segment.ofBody .project (FieldList.numbered 1 0 fields) ++ [.dropIdentity])
      ∧ ∃ xs ys, emissions (.standard none) "a_t=v.w&s_-a,b,,a,--c,-b"
          = .ok (xs ++ Segment.ofBody .sort (FieldList.numbered 1 (-1) fields) :: ys)
        ∧ xs.length = 1 := by
  have hargs : '&' ∉ "-a,b,,a,--c,-b".toList := by decide
  have htokens : Text.items ',' "-a,b,,a,--c,-b" = ["-a", "b", "a", "--c", "-b"] := by decide +kernel
  obtain ⟨hminus, -⟩ | ⟨fields, hlists, hboth, hqueries⟩ := sort_like_projection hargs
  · exact absurd hminus (by decide +kernel)
  · rw [htokens] at hlists
    obtain ⟨sorted, projected, hsorted, hprojected, -, rfl, rfl⟩ := hboth (.standard none)
    have hcompile : ∃ p, compile (.standard none) "a_t=v.w&s_-a,b,,a,--c,-b" = .ok p :=
      ⟨[.addFields [("t", .string "$v.w")],
        .sort [("a", .int32 1), ("b", .int32 (-1)), ("-c", .int32 (-1))], .dropIdentity],
        by decide +kernel⟩
    obtain ⟨p, hp⟩ := hcompile
    obtain ⟨xs, ys, hemissions, hlength, -⟩ := hqueries (.standard none) _ p ["a_t=v.w"]
      "s_-a,b,,a,--c,-b" [] hp (by decide +kernel) (by decide +kernel)
    refine ⟨fields, hlists.names.trans (by decide +kernel), ?_, ?_, ?_, hsorted, hprojected, xs, ys,
      hemissions, hlength⟩
    · exact hlists.last ["-a", "b"] "a" ["--c", "-b"] rfl (by decide +kernel)
    · exact hlists.last ["-a", "b", "a", "--c"] "-b" [] rfl (by decide +kernel)
    · exact hlists.last ["-a", "b", "a"] "--c" ["-b"] rfl (by decide +kernel)

end QueryPipeline
