import QueryPipeline.Proofs.Acceptance
import QueryPipeline.Proofs.FiniteRange
import QueryPipeline.Proofs.Projection
import QueryPipeline.Proofs.Tokens
import QueryPipeline.Proofs.Writing

/-!
# Decimals as values

A clause value with digits on both sides of a point is a number, or else it stays the text that it is.
There is one exception, and it depends on nothing but the size of the number: a decimal that would be
rounded to infinity is no number to the reader, so that its point makes it a path.

* `Decimal.IsPointed` — digits, a point and digits, behind at most one minus;
* **`Decimal.Overflows`** — the decimals that are too large to be numbers;
* `Clause.readValue_of_isPointed`, `Query.isPath_iff_overflows` — a decimal as a clause value;
* `mem_of_run_readSegment` — what a segment adds to the lifted paths;
* **`decimal_is_path_iff_overflows`** — decimals in clauses, in segments and in what stands behind them;
* `compile_of_overflows`, `compile_decimal_beyond_range` — queries with a decimal that overflows.
-/

namespace QueryPipeline

open Reading OnePass Decimal

/-! ### Texts of decimals -/

/-- The text of a decimal: digits, a point and digits, behind at most one minus. -/
structure Decimal.IsPointed (cs : List Char) (negative : Bool) (whole fraction : List Char) :
    Prop where
  parts : cs = (if negative then ['-'] else []) ++ (whole ++ '.' :: fraction)
  whole_isDigits : Decimal.IsDigits whole
  fraction_isDigits : Decimal.IsDigits fraction

/-- The digits on both sides of the point as one number. -/
def Decimal.digitsOf (whole fraction : List Char) : Nat :=
  Nat.ofDigitChars 10 (whole ++ fraction) 0

/-- The number is so large that it would be rounded to infinity, whatever its sign is. -/
def Decimal.Overflows (whole fraction : List Char) : Prop :=
  Binary64.overflow * 10 ^ fraction.length ≤ digitsOf whole fraction

instance (whole fraction : List Char) : Decidable (Decimal.Overflows whole fraction) :=
  inferInstanceAs (Decidable (_ ≤ _))

section

variable {value : String} {negative : Bool} {whole fraction : List Char}

namespace Decimal

theorem IsPointed.point_mem {cs : List Char} (h : IsPointed cs negative whole fraction) :
    '.' ∈ cs := by
  rw [h.parts]
  exact List.mem_append_right _ (List.mem_append_right _ List.mem_cons_self)

/-- The characters of a decimal are those with which a numeral can start. -/
theorem IsPointed.isNumeralStart_of_mem {cs : List Char} (h : IsPointed cs negative whole fraction)
    {c : Char} (hc : c ∈ cs) : IsNumeralStart c := by
  rw [h.parts, List.mem_append, List.mem_append, List.mem_cons] at hc
  obtain hsign | hwhole | rfl | hfraction := hc
  · cases negative with
    | false => exact absurd hsign List.not_mem_nil
    | true => exact Or.inr (Or.inr (Or.inr (List.mem_singleton.mp hsign)))
  · exact Or.inl (h.whole_isDigits.2 c hwhole)
  · exact Or.inr (Or.inl rfl)
  · exact Or.inl (h.fraction_isDigits.2 c hfraction)

/-- A decimal is read as its digits, the fraction counted by the exponent. -/
theorem readDecimal?_of_isPointed {cs : List Char} (h : IsPointed cs negative whole fraction) :
    readDecimal? cs = some (negative, ⟨digitsOf whole fraction, -fraction.length⟩) := by
  obtain ⟨hne, hwhole⟩ := h.whole_isDigits
  have hunsigned : IsUnsigned (whole ++ '.' :: fraction) whole fraction [] := by
    refine ⟨Or.inl ?_, hwhole, h.fraction_isDigits.2, ?_, 0, rfl⟩
    · rw [List.append_nil]
    · simp [hne]
  have hread := readUnsigned?_of_isUnsigned hunsigned rfl (by decide) (by decide)
  have hsplit : splitSign cs = (negative, whole ++ '.' :: fraction) := by
    rw [h.parts]
    cases negative with
    | true => rfl
    | false =>
      obtain ⟨c, rest, rfl⟩ := List.exists_cons_of_ne_nil hne
      exact splitSign_of_isDigit (hwhole c List.mem_cons_self)
  rw [readDecimal?, hsplit]
  simp only [hread, Option.map_some, Int.zero_sub]
  rfl

end Decimal

/-- **A decimal is no number** exactly if it is too large to be one. -/
theorem Binary64.read?_eq_none_iff {cs : List Char} (h : IsPointed cs negative whole fraction) :
    Binary64.read? cs = none ↔ Overflows whole fraction := by
  have hrange := rank_lt_infinityRank_iff (digitsOf whole fraction) fraction.length
  rw [Overflows, ← Nat.not_lt, ← hrange, Binary64.read?, readDecimal?_of_isPointed h,
    Option.bind_some]
  simp only [Binary64.nearest?]
  split
  · rename_i hfinite
    exact ⟨fun hnone => absurd hnone (Option.some_ne_none _), fun hnot => absurd hfinite hnot⟩
  · rename_i hinfinite
    exact ⟨fun _ => hinfinite, fun _ => rfl⟩

/-! ### Decimals in clauses -/

/-- A decimal is no reference and not quoted, and applies nothing. -/
theorem Decimal.IsPointed.excludes (h : IsPointed value.toList negative whole fraction) :
    Literal.isReference value = false ∧ Literal.quoted? value = none
      ∧ Clause.application? value = none := by
  refine ⟨?_, ?_, ?_⟩
  · rw [Bool.eq_false_iff]
    intro hreference
    obtain ⟨rest, rfl⟩ := Text.startsWith_iff.mp hreference
    have hstart : IsNumeralStart '$' := h.isNumeralStart_of_mem (by simp)
    exact absurd hstart (by decide)
  · rw [Literal.quoted?_eq_none_iff]
    rintro ⟨s, -, rfl⟩
    have hstart : IsNumeralStart '\'' := h.isNumeralStart_of_mem (by simp)
    exact absurd hstart (by decide)
  · apply Clause.application?_of_not_mem
    intro hdollar
    exact absurd (h.isNumeralStart_of_mem hdollar) (by decide)

theorem Clause.isPath_of_isPointed (h : IsPointed value.toList negative whole fraction) :
    Clause.isPath value = decide (Overflows whole fraction) := by
  obtain ⟨hreference, hquoted, -⟩ := h.excludes
  have hdot : value.toList.contains '.' = true := List.contains_iff_mem.mpr h.point_mem
  have hread : (Binary64.read? value.toList).isNone = decide (Overflows whole fraction) := by
    rw [Bool.eq_iff_iff, Option.isNone_iff_eq_none, decide_eq_true_iff]
    exact Binary64.read?_eq_none_iff h
  rw [Clause.isPath, hdot, hreference, hquoted, hread]
  simp only [Bool.not_false, Bool.true_and, Option.isNone_none]

/-- As a token, a decimal denotes a floating-point number or its own text: it is neither a word, nor
quoted, nor a whole number. -/
theorem Literal.coerce_of_isPointed (h : IsPointed value.toList negative whole fraction) :
    Literal.coerce value = .string value
      ∨ ∃ x, Binary64.read? value.toList = some x ∧ Literal.coerce value = .double x := by
  have hwhole : ∀ n, value.toList ≠ writeInt n := by
    intro n hdigits
    have hpoint := h.point_mem
    rw [hdigits] at hpoint
    exact not_mem_of_isNumeral (readInt?_eq_some_iff.mp (readInt?_writeInt n)) hpoint
  obtain ⟨v, hv⟩ := Literal.exists_denotes value
  have hcoerce := Literal.coerce_of_denotes hv
  cases hv with
  | isTrue htext =>
    rw [htext] at h
    exact absurd h.point_mem (by decide)
  | isFalse htext =>
    rw [htext] at h
    exact absurd h.point_mem (by decide)
  | number htext =>
    cases htext with
    | int32 hdigits => exact absurd hdigits (hwhole _)
    | int64 hdigits => exact absurd hdigits (hwhole _)
    | double _ _ hread => exact Or.inr ⟨_, hread, hcoerce⟩
  | quoted hne htext =>
    have hquoted := Literal.quoted?_eq_some_iff.mpr ⟨hne, htext⟩
    rw [h.excludes.2.1] at hquoted
    cases hquoted
  | bare => exact Or.inl hcoerce

/-- A decimal is read as a reference to itself if it is too large, and as a token if it is not. -/
theorem Clause.readValue_of_isPointed (h : IsPointed value.toList negative whole fraction)
    (operators : Registry) (key : String) :
    readValue operators key value
      = .ok (if Overflows whole fraction then .string ("$" ++ value) else Literal.coerce value) := by
  rw [readValue.eq_def, h.excludes.2.2, isPath_of_isPointed h]
  by_cases hlarge : Overflows whole fraction
  · rw [if_pos hlarge, decide_eq_true hlarge]
    rfl
  · rw [if_neg hlarge, decide_eq_false hlarge]
    rfl

theorem Clause.path?_of_isPointed (h : IsPointed value.toList negative whole fraction) :
    path? value = if Overflows whole fraction then some value else none := by
  rw [path?, h.excludes.2.2, isPath_of_isPointed h]
  by_cases hlarge : Overflows whole fraction
  · rw [if_pos hlarge, decide_eq_true hlarge]
    rfl
  · rw [if_neg hlarge, decide_eq_false hlarge]
    rfl

theorem Query.isPath_iff_overflows (h : IsPointed value.toList negative whole fraction) :
    Query.IsPath value ↔ Overflows whole fraction := by
  rw [Query.isPath_iff, Clause.path?_of_isPointed h]
  by_cases hlarge : Overflows whole fraction
  · simp [hlarge]
  · simp [hlarge]

end

/-! ### Lifted paths -/

/-- A segment adds to the lifted paths those that are written in it. -/
theorem mem_of_run_readSegment {options : CompileOptions} {text : String}
    {kept kept' : OrderedSet String} {stages : List Stage}
    (h : (readSegment options text).run kept = .ok (stages, kept')) (path : String) :
    path ∈ kept'.toList ↔ path ∈ kept.toList ∨ path ∈ Query.liftedPaths (Segment.splitCode text) := by
  rw [(runs_readSegment options).run_eq] at h
  obtain ⟨segment, hsegment, hpair⟩ := map_eq_ok_iff.mp h
  cases hpair
  rw [OrderedSet.mem_toList_union, Segment.paths_of_read hsegment]

/-- What is no path is a field of a projection only if a token of the projection names it. -/
theorem FieldList.mem_keys_of_not_isPath {tokens : List String} {texts : List String} {name : String}
    (hname : ¬ Query.IsPath name)
    (h : name ∈ Document.keys (listed 1 0 tokens
      ++ (keptPaths tokens (Query.liftedIn texts)).map fun path => (path, .int32 1))) :
    name ∈ tokens.map fieldName := by
  rw [Document.keys, List.map_append, List.mem_append] at h
  rcases h with hown | hlifted
  · rw [← Document.keys, keys_listed] at hown
    exact List.mem_eraseDups.mp hown
  · rw [List.map_map, List.mem_map] at hlifted
    obtain ⟨path, hpath, rfl⟩ := hlifted
    rw [keptPaths, List.mem_filter, List.mem_eraseDups] at hpath
    exact absurd (Query.isPath_of_mem_liftedIn hpath.1) hname

/-! ### Decimals in queries -/

/-- **Decimals are values, unless they overflow.**  In a clause that matches or adds a field, whatever
the operators are, a decimal that does not overflow is read as the number that its text is read as or as
its own text, and is no path: no segment lifts it, and a projection holds it only if one of its own
tokens names it.  A decimal that overflows is read as a reference to itself, and a segment that adds
fields lifts it. -/
theorem decimal_is_path_iff_overflows {value : String} {negative : Bool} {whole fraction : List Char}
    (h : IsPointed value.toList negative whole fraction) :
    (¬ Overflows whole fraction →
      (∃ v, (v = .string value ∨ ∃ x, Binary64.read? value.toList = some x ∧ v = .double x)
        ∧ ∀ kind operators text key kept, Grammar.IsClause text key value →
          (readClause kind operators text).run kept = .ok (⟨key, v, none⟩, kept))
      ∧ (∀ options text kept stages kept',
          (readSegment options text).run kept = .ok (stages, kept') →
          value ∈ kept'.toList → value ∈ kept.toList)
      ∧ ∀ options query p, compile options query = .ok p → ∀ before text after args,
          Text.items '&' query = before ++ text :: after → Segment.splitCode text = ("p", args) →
          ∃ xs stages ys, emissions options query = .ok (xs ++ stages :: ys)
            ∧ xs.length = before.length
            ∧ ∀ body, .project body ∈ stages → value ∈ Document.keys body →
              value ∈ (Text.items ',' args).map FieldList.fieldName)
    ∧ (Overflows whole fraction →
      (∀ kind operators text key kept, Grammar.IsClause text key value →
        (readClause kind operators text).run kept
          = .ok (⟨key, .string ("$" ++ value), some value⟩,
            if kind = .addFields then (kept.insert value).2 else kept))
      ∧ ∀ options text args, Segment.splitCode text = ("a", args) →
          value ∈ Query.clauseValues args → ∀ kept stages kept',
          (readSegment options text).run kept = .ok (stages, kept') → value ∈ kept'.toList) := by
  refine ⟨fun hsmall => ⟨?_, ?_, ?_⟩, fun hlarge => ⟨?_, ?_⟩⟩
  · refine ⟨Literal.coerce value, Literal.coerce_of_isPointed h, ?_⟩
    intro kind operators text key kept hclause
    rw [(runs_readClause kind operators).run_eq, Acceptance.read_of_isClause hclause,
      Clause.readValue_of_isPointed h, Clause.path?_of_isPointed h, if_neg hsmall, if_neg hsmall]
    cases kind <;> rfl
  · intro options text kept stages kept' hrun hmem
    refine ((mem_of_run_readSegment hrun value).mp hmem).resolve_right fun hlifted => ?_
    exact hsmall ((Query.isPath_iff_overflows h).mp (Query.isPath_of_mem_liftedPaths hlifted))
  · intro options query p hp before text after args hitems hcode
    obtain ⟨segment, xs, ys, hsegment, hemissions, hlength⟩ := exists_emission hp hitems
    refine ⟨xs, _, ys, hemissions, hlength, fun body hbody hmem => ?_⟩
    rw [Segment.stages_of_projection hsegment hcode] at hbody
    cases (Segment.mem_ofBody_iff.mp hbody).2
    exact FieldList.mem_keys_of_not_isPath (mt (Query.isPath_iff_overflows h).mp hsmall) hmem
  · intro kind operators text key kept hclause
    rw [(runs_readClause kind operators).run_eq, Acceptance.read_of_isClause hclause,
      Clause.readValue_of_isPointed h, Clause.path?_of_isPointed h, if_pos hlarge, if_pos hlarge]
    cases kind <;> rfl
  · intro options text args hcode hvalue kept stages kept' hrun
    refine (mem_of_run_readSegment hrun value).mpr (Or.inr ?_)
    rw [hcode, Query.liftedPaths, if_pos rfl, List.mem_filter]
    exact ⟨hvalue, decide_eq_true ((Query.isPath_iff_overflows h).mpr hlarge)⟩

/-! ### A query with a decimal that overflows -/

section

variable {value key : String} {negative : Bool} {whole fraction : List Char}

theorem Decimal.IsPointed.lacks (h : IsPointed value.toList negative whole fraction) :
    Text.Lacks ['&', ',', '|', '='] value := by
  intro c hc hmem
  have hstart := h.isNumeralStart_of_mem hmem
  simp only [List.mem_cons, List.not_mem_nil, or_false] at hc
  rcases hc with rfl | rfl | rfl | rfl
  all_goals exact absurd hstart (by decide)

/-- A clause that stands alone in a segment adds a reference to a decimal that overflows, and lists it. -/
theorem Segment.readArguments_of_overflows (h : IsPointed value.toList negative whole fraction)
    (hlarge : Overflows whole fraction) (hkey : key ≠ "")
    (hplain : Text.Lacks ['&', ',', '|', '='] key) (options : CompileOptions) :
    readArguments options (key ++ "=" ++ value) .addFields
      = .ok (.fixed [.addFields [(key, .string ("$" ++ value))]] [value]) := by
  have hclause : Grammar.IsClause (key ++ "=" ++ value) key value :=
    ⟨rfl, hplain '=' (by decide), h.lacks '=' (by decide), hkey⟩
  have htext : Text.Lacks [',', '|'] (key ++ "=" ++ value) :=
    ((hplain.mono (by decide)).append (by decide)).append (h.lacks.mono (by decide))
  have hne : key ++ "=" ++ value ≠ "" := by
    rw [Ne, String.append_eq_empty_iff, String.append_eq_empty_iff]
    exact fun hempty => hkey hempty.1.1
  have hgroups : Clause.readGroups options.operators (key ++ "=" ++ value)
      = .ok [[⟨key, .string ("$" ++ value), some value⟩]] := by
    rw [Clause.readGroups_of_lacks hne htext, Acceptance.read_of_isClause hclause,
      Clause.readValue_of_isPointed h, Clause.path?_of_isPointed h, if_pos hlarge, if_pos hlarge]
    rfl
  rw [readArguments, hgroups]
  rfl

/-- **A decimal that overflows is lifted.**  The field that is added to it refers to it as to a path, and
the projection behind it keeps that path. -/
theorem compile_of_overflows (h : IsPointed value.toList negative whole fraction)
    (hlarge : Overflows whole fraction) (hkey : key ≠ "")
    (hplain : Text.Lacks ['&', ',', '|', '='] key) (options : CompileOptions) :
    compile options ("a_" ++ (key ++ "=" ++ value) ++ "&p_id")
      = .ok [.addFields [(key, .string ("$" ++ value))],
          .project [("id", .int32 1), (value, .int32 1)], .dropIdentity] := by
  have hadd : Segment.read options ("a_" ++ (key ++ "=" ++ value))
      = .ok (.fixed [.addFields [(key, .string ("$" ++ value))]] [value]) := by
    rw [← Segment.readArguments_of_overflows h hlarge hkey hplain options]
    exact Segment.read_code options .addFields (key ++ "=" ++ value)
  have hproject : Segment.read options "p_id" = .ok (.projection [("id", .int32 1)]) := by
    have hfields : FieldList.read "id" = .ok [("id", true)] := by decide +kernel
    rw [show "p_id" = StageKind.project.code ++ "_" ++ "id" by decide, Segment.read_code,
      Segment.readArguments, hfields]
    rfl
  have hplace : "a_" ++ (key ++ "=" ++ value) ++ "&p_id"
      = "a_" ++ (key ++ "=" ++ value) ++ String.singleton '&' ++ "p_id" := by
    rw [show "&p_id" = String.singleton '&' ++ "p_id" by decide, ← String.append_assoc]
  have hfirst : '&' ∉ ("a_" ++ (key ++ "=" ++ value)).toList := by
    have hlacks : Text.Lacks ['&'] ("a_" ++ (key ++ "=" ++ value)) :=
      (by decide : Text.Lacks ['&'] "a_").append
        (((hplain.mono (by decide)).append (by decide)).append (h.lacks.mono (by decide)))
    exact hlacks '&' (by decide)
  have hitems : Text.items '&' ("a_" ++ (key ++ "=" ++ value) ++ "&p_id")
      = ["a_" ++ (key ++ "=" ++ value), "p_id"] := by
    rw [hplace, Text.items_append, Text.items_of_not_mem hfirst (by simp),
      Text.items_of_not_mem (by decide) (by decide)]
    rfl
  have hname : ¬ value = "id" := by
    rintro rfl
    exact absurd h.point_mem (by decide)
  have hkeep : FieldList.keep [("id", .int32 1)] (OrderedSet.empty.union [value])
      = [("id", .int32 1), (value, .int32 1)] := by
    have hlifted : (OrderedSet.empty.union [value]).toList = [value] := rfl
    rw [FieldList.keep, hlifted]
    simp [Document.contains, Document.keys, hname]
  rw [compile_eq_map_assemble _ (by simp), readSegments, hitems, mapM_cons_eq, hadd, mapM_cons_eq,
    hproject]
  show Except.ok ([.addFields [(key, .string ("$" ++ value))]]
      ++ (Segment.ofBody .project (FieldList.keep [("id", .int32 1)] (OrderedSet.empty.union [value]))
        ++ []) ++ [Stage.dropIdentity]) = _
  rw [hkeep]
  rfl

end

/-- The power of ten with 309 zeros, as a decimal. -/
def Decimal.beyondRange : String :=
  String.ofList ('1' :: List.replicate 309 '0' ++ ['.', '0'])

theorem Decimal.isPointed_beyondRange :
    IsPointed beyondRange.toList false ('1' :: List.replicate 309 '0') ['0'] :=
  ⟨String.toList_ofList, by decide +kernel, by decide⟩

theorem Decimal.overflows_beyondRange : Overflows ('1' :: List.replicate 309 '0') ['0'] := by
  decide +kernel

/-- A decimal whose text is not the shortest one of its number, and one that overflows. -/
theorem decimal_is_path_iff_overflows_in_clauses :
    (∃ v, (v = .string "-1.50" ∨ ∃ x, Binary64.read? "-1.50".toList = some x ∧ v = .double x)
      ∧ ∀ kind operators kept,
        (readClause kind operators "a=-1.50").run kept = .ok (⟨"a", v, none⟩, kept))
    ∧ ∀ operators kept,
      (readClause .addFields operators ("a=" ++ beyondRange)).run kept
        = .ok (⟨"a", .string ("$" ++ beyondRange), some beyondRange⟩,
          (kept.insert beyondRange).2) := by
  have hsmall : IsPointed "-1.50".toList true ['1'] ['5', '0'] :=
    ⟨by decide, by decide, by decide⟩
  refine ⟨?_, fun operators kept => ?_⟩
  · obtain ⟨⟨v, hv, hread⟩, -, -⟩ := (decimal_is_path_iff_overflows hsmall).1 (by decide +kernel)
    refine ⟨v, hv, fun kind operators kept => hread kind operators "a=-1.50" "a" kept ?_⟩
    exact ⟨by decide, by decide, by decide, by decide⟩
  · obtain ⟨hread, -⟩ :=
      (decimal_is_path_iff_overflows isPointed_beyondRange).2 overflows_beyondRange
    refine hread .addFields operators _ "a" kept ?_
    exact ⟨rfl, by decide, isPointed_beyondRange.lacks '=' (by decide), by decide⟩

/-- **A decimal that is taken for a path.**  It is written with digits alone on both sides of its point,
and yet the field that is added refers to it as a path, and the projection keeps that path. -/
theorem compile_decimal_beyond_range :
    IsPointed beyondRange.toList false ('1' :: List.replicate 309 '0') ['0']
      ∧ compile (.standard none) ("a_x=" ++ beyondRange ++ "&p_id") = .ok
        [.addFields [("x", .string ("$" ++ beyondRange))],
          .project [("id", .int32 1), (beyondRange, .int32 1)], .dropIdentity] := by
  have hquery : "a_x=" ++ beyondRange = "a_" ++ ("x" ++ "=" ++ beyondRange) := by
    rw [← String.append_assoc]
    rfl
  refine ⟨isPointed_beyondRange, ?_⟩
  rw [hquery]
  exact compile_of_overflows isPointed_beyondRange overflows_beyondRange (by decide) (by decide)
    (.standard none)

end QueryPipeline
