import QueryPipeline.Proofs.Composition
import QueryPipeline.Proofs.OnePass
import QueryPipeline.Proofs.Writing

/-!
# Lists of values

The operator `in` takes its tokens between semicolons, and a clause that applies it stands between the
separators of groups, of segments and of the query.  Whatever the tokens are, as long as no separator is
among their characters, the clause becomes the list of the values that they denote, one for each token and
in their order.  It refers to no path, so that the segments behind it emit what they would without it.

* `Clause.isApplication_oneOf` — the clause value applies the operator, whatever stands in the tokens;
* `Registry.oneOf_intercalate` — the operator finds the tokens again;
* **`Segment.read_oneOf`** — the segment, for both kinds of stages;
* **`compile_oneOf`** — the query, the step of the pass and the queries that start with the segment.
-/

namespace QueryPipeline

open Reading OnePass

/-- The value of a clause that applies `in` to some tokens. -/
def Clause.oneOfText (tokens : List String) : String :=
  "in$" ++ ";".intercalate tokens

/-- A segment of one such clause. -/
def Segment.oneOfText (code key : String) (tokens : List String) : String :=
  code ++ "_" ++ (key ++ "=" ++ Clause.oneOfText tokens)

/-- The document of such a clause: the values of the tokens under the operator. -/
def Clause.oneOfBody (key : String) (tokens : List String) : Document :=
  [(key, .document [("$in", .array (tokens.map Literal.coerce))])]

/-! ### The value -/

/-- The name of the operator ends at the first dollar sign, whatever dollar signs, quotes and dots stand in
the tokens. -/
theorem Clause.isApplication_oneOf (tokens : List String) :
    IsApplication (oneOfText tokens) "in" (";".intercalate tokens) := by
  refine ⟨rfl, by decide, by decide, ?_⟩
  rintro ⟨s, -, htext⟩
  have hhead := congrArg (fun text => text.toList.head?) htext
  simp [oneOfText] at hhead

/-- The tokens are found again between the semicolons that join them. -/
theorem Registry.oneOf_intercalate {tokens : List String} (hne : tokens ≠ [])
    (hplain : ∀ token ∈ tokens, ';' ∉ token.toList) (key : String) :
    oneOf (";".intercalate tokens) key = .ok (.list (tokens.map .token)) := by
  have hsemicolon : ";" = String.singleton ';' := rfl
  rw [oneOf, hsemicolon, Text.split_intercalate hne hplain]

theorem Registry.find?_standard_in : standard.find? "in" = some oneOf := by
  rw [standard, find?_register, if_neg (by decide), find?_register, if_pos rfl]

/-- Each token of a list is typed for itself. -/
theorem Literal.coerceRaw_list (tokens : List String) :
    coerceRaw (.list (tokens.map .token)) = .array (tokens.map coerce) := by
  rw [coerceRaw, coerceItems_eq_map, List.map_map]
  rfl

theorem Clause.readValue_oneOf {tokens : List String} (hne : tokens ≠ [])
    (hplain : ∀ token ∈ tokens, ';' ∉ token.toList) (key : String) :
    readValue Registry.standard key (oneOfText tokens)
      = .ok (.document [("$in", .array (tokens.map Literal.coerce))]) := by
  rw [readValue, application?_eq_some_iff.mpr (isApplication_oneOf tokens)]
  simp only [Registry.find?_standard_in, Registry.oneOf_intercalate hne hplain, Literal.coerceRaw_list]
  rfl

theorem Clause.path?_oneOf (tokens : List String) : path? (oneOfText tokens) = none := by
  rw [path?, application?_eq_some_iff.mpr (isApplication_oneOf tokens)]
  rfl

/-! ### The segment -/

section

variable {key : String} {tokens : List String}

theorem Clause.lacks_oneOfText (htokens : ∀ token ∈ tokens, Text.Lacks [';', '&', ',', '|', '='] token) :
    Text.Lacks ['&', ',', '|', '='] (oneOfText tokens) :=
  (by decide : Text.Lacks ['&', ',', '|', '='] "in$").append
    (Text.Lacks.intercalate ';' (by decide) fun token htoken => (htokens token htoken).mono (by decide))

/-- A list of values is the only clause of its segment, and it refers to no path. -/
theorem Clause.readGroups_oneOf (hkey : key ≠ "") (hplain : Text.Lacks ['&', ',', '|', '='] key)
    (hne : tokens ≠ []) (htokens : ∀ token ∈ tokens, Text.Lacks [';', '&', ',', '|', '='] token) :
    readGroups Registry.standard (key ++ "=" ++ oneOfText tokens)
      = .ok [[⟨key, .document [("$in", .array (tokens.map Literal.coerce))], none⟩]] := by
  have hvalue := lacks_oneOfText htokens
  have hclause : Grammar.IsClause (key ++ "=" ++ oneOfText tokens) key (oneOfText tokens) :=
    ⟨rfl, hplain '=' (by decide), hvalue '=' (by decide), hkey⟩
  have htext : Text.Lacks [',', '|'] (key ++ "=" ++ oneOfText tokens) :=
    ((hplain.mono (by decide)).append (by decide)).append (hvalue.mono (by decide))
  rw [readGroups_of_lacks (by simp) htext, Acceptance.read_of_isClause hclause,
    readValue_oneOf hne fun token htoken => htokens token htoken ';' (by decide), path?_oneOf]
  rfl

/-- **A segment of one list of values** emits its stage and lists no path, whether it matches or adds a
field. -/
theorem Segment.read_oneOf (hkey : key ≠ "") (hplain : Text.Lacks ['&', ',', '|', '='] key)
    (hne : tokens ≠ []) (htokens : ∀ token ∈ tokens, Text.Lacks [';', '&', ',', '|', '='] token)
    (collection : Option String) {code : String} {stage : Document → Stage}
    (hform : (code, stage) ∈ [("m", Stage.matching), ("a", Stage.addFields)]) :
    Segment.read (.standard collection) (oneOfText code key tokens)
      = .ok (.fixed [stage (Clause.oneOfBody key tokens)] []) := by
  have hgroups := Clause.readGroups_oneOf hkey hplain hne htokens
  have hkinds : ∃ kind : StageKind, code = kind.code
      ∧ readArguments (.standard collection) (key ++ "=" ++ Clause.oneOfText tokens) kind
        = .ok (.fixed [stage (Clause.oneOfBody key tokens)] []) := by
    simp only [List.mem_cons, List.not_mem_nil, or_false, Prod.mk.injEq] at hform
    obtain ⟨rfl, rfl⟩ | ⟨rfl, rfl⟩ := hform
    · refine ⟨.matching, rfl, ?_⟩
      rw [readArguments, CompileOptions.standard, hgroups]
      rfl
    · refine ⟨.addFields, rfl, ?_⟩
      rw [readArguments, CompileOptions.standard, hgroups]
      rfl
  obtain ⟨kind, rfl, hread⟩ := hkinds
  rw [oneOfText, read_code, hread]

end

/-! ### Queries -/

/-- A segment that lists no path emits its stages in every state, and puts them in front of what any other
query compiles to. -/
theorem compile_of_read_fixed {options : CompileOptions} {text : String} {stages : List Stage}
    (hne : text ≠ "") (hplain : '&' ∉ text.toList)
    (hread : Segment.read options text = .ok (.fixed stages [])) :
    compile options text = .ok (stages ++ [Stage.dropIdentity])
      ∧ (∀ kept, (readSegment options text).run kept = .ok (stages, kept))
      ∧ ∀ query, query ≠ "" → compile options (text ++ "&" ++ query)
          = (compile options query).map fun others => stages ++ others := by
  have hsegments : readSegments options text = .ok [.fixed stages []] := by
    rw [readSegments, Text.items_of_not_mem hplain hne, mapM_cons_eq, hread]
    rfl
  refine ⟨?_, fun kept => ?_, fun query hquery => ?_⟩
  · rw [compile_eq_map_assemble options hne, hsegments]
    show Except.ok (stages ++ [] ++ [Stage.dropIdentity]) = _
    rw [List.append_nil]
  · rw [(runs_readSegment options).run_eq, hread]
    rfl
  · rw [compile_eq_map_assemble options (append_amp_ne_empty text query),
      compile_eq_map_assemble options hquery, readSegments_append, hsegments, map_map]
    rw [map_map]
    apply map_eq_map
    intro segments _
    rw [List.singleton_append, assemble, assemble, ← List.append_assoc]
    rfl

/-- **A list of values loses and merges nothing.**  A segment that matches or adds one field whose value
applies `in` to any tokens without separators compiles to one stage on that field: the list of what the
tokens denote, one value for each and in their order.  The step that reads it leaves the lifted paths as
they are, and any query behind it, projections included, compiles to what it does alone. -/
theorem compile_oneOf {key : String} {tokens : List String} (hkey : key ≠ "")
    (hplain : Text.Lacks ['&', ',', '|', '='] key) (hne : tokens ≠ [])
    (htokens : ∀ token ∈ tokens, Text.Lacks [';', '&', ',', '|', '='] token)
    (collection : Option String) :
    ∀ code stage, (code, stage) ∈ [("m", Stage.matching), ("a", Stage.addFields)] →
      compile (.standard collection) (Segment.oneOfText code key tokens)
          = .ok [stage (Clause.oneOfBody key tokens), .dropIdentity]
        ∧ (∀ kept, (readSegment (.standard collection) (Segment.oneOfText code key tokens)).run kept
          = .ok ([stage (Clause.oneOfBody key tokens)], kept))
        ∧ ∀ query, query ≠ "" →
          compile (.standard collection) (Segment.oneOfText code key tokens ++ "&" ++ query)
            = (compile (.standard collection) query).map fun others =>
              stage (Clause.oneOfBody key tokens) :: others := by
  intro code stage hform
  have hread := Segment.read_oneOf hkey hplain hne htokens collection hform
  have hcode : Text.Lacks ['&'] code := by
    simp only [List.mem_cons, List.not_mem_nil, or_false, Prod.mk.injEq] at hform
    obtain ⟨rfl, -⟩ | ⟨rfl, -⟩ := hform
    all_goals decide
  have hclause : Text.Lacks ['&'] (key ++ "=" ++ Clause.oneOfText tokens) :=
    ((hplain.mono (by decide)).append (by decide)).append
      ((Clause.lacks_oneOfText htokens).mono (by decide))
  have htext : Text.Lacks ['&'] (Segment.oneOfText code key tokens) :=
    (hcode.append (by decide)).append hclause
  have hempty : Segment.oneOfText code key tokens ≠ "" := by simp [Segment.oneOfText]
  exact compile_of_read_fixed hempty (htext '&' List.mem_cons_self) hread

/-- An empty token, a reference, a path, a quoted token and two equal numbers, under a key with signs of its
own; the path of the field behind them is the only one that the projection keeps. -/
theorem compile_oneOf_before_projection :
    compile (.standard (some "orders")) "a_k_$.x=in$;$a;a.b;'x';1;1&a_y=c.d&p_id"
      = .ok [.addFields [("k_$.x", .document [("$in", .array
            [.string "", .string "$a", .string "a.b", .string "x", .int32 1, .int32 1])])],
          .addFields [("y", .string "$c.d")], .project [("id", .int32 1), ("c.d", .int32 1)],
          .dropIdentity] := by
  have htokens : ∀ token ∈ ["", "$a", "a.b", "'x'", "1", "1"],
      Text.Lacks [';', '&', ',', '|', '='] token := by
    decide
  have htext : Segment.oneOfText "a" "k_$.x" ["", "$a", "a.b", "'x'", "1", "1"] ++ "&" ++ "a_y=c.d&p_id"
      = "a_k_$.x=in$;$a;a.b;'x';1;1&a_y=c.d&p_id" := by
    decide +kernel
  have hbody : Clause.oneOfBody "k_$.x" ["", "$a", "a.b", "'x'", "1", "1"]
      = [("k_$.x", .document [("$in", .array
        [.string "", .string "$a", .string "a.b", .string "x", .int32 1, .int32 1])])] := by
    decide +kernel
  have hkey : "k_$.x" ≠ "" := by decide
  obtain ⟨-, -, hquery⟩ := compile_oneOf hkey (by decide) (by decide) htokens (some "orders") "a"
    Stage.addFields (by simp)
  rw [← htext, hquery _ (by decide), hbody]
  decide +kernel

end QueryPipeline
