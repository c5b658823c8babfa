import QueryPipeline.Rendering
import QueryPipeline.Proofs.OneLineTexts
import QueryPipeline.Proofs.WrittenNumbers

/-!
# Stages on lines

The query-language text of a pipeline puts every stage on a line of its own, but the texts of a stage
stand in it as they are.  A line end in one of them breaks the line of the stage, and what follows it can
look like a stage.

* `Text.split_intercalate_eq`, `Text.length_split` — the lines of joined texts, and how many there are;
* **`Value.count_mql`** — the line ends in the text of a value are those of its strings and keys;
* `Pipeline.lines_eq`, **`Pipeline.lines_eq_map_iff`** — the lines of a pipeline;
* **`lines_of_compile`** — the lines of the pipelines that queries compile to.
-/

namespace QueryPipeline

/-! ### Lines of texts -/

namespace Text

/-- Joined pieces are cut where they were joined, and each of them where it holds the separator. -/
theorem split_intercalate_eq (sep : Char) {pieces : List String} (hne : pieces ≠ []) :
    split sep ((String.singleton sep).intercalate pieces) = pieces.flatMap (split sep) := by
  induction pieces with
  | nil => exact absurd rfl hne
  | cons piece rest ih =>
    cases rest with
    | nil => rw [String.intercalate_singleton, List.flatMap_singleton]
    | cons next rest =>
      rw [String.intercalate_cons_cons, split_append, ih (List.cons_ne_nil _ _)]
      rfl

/-- There is one piece more than there are separators. -/
theorem length_split (sep : Char) (s : String) : (split sep s).length = s.toList.count sep + 1 := by
  rw [split, List.length_map]
  induction s.toList with
  | nil => rfl
  | cons c cs ih =>
    rw [List.splitOn_cons_eq_if_modifyHead, List.count_cons]
    split
    · rw [List.length_cons, ih]
    · rw [List.length_modifyHead, ih, Nat.add_zero]

/-- The number of line ends in texts. -/
def lineEnds (texts : List String) : Nat :=
  (texts.map fun s => s.toList.count '\n').sum

theorem lineEnds_cons (s : String) (texts : List String) :
    lineEnds (s :: texts) = s.toList.count '\n' + lineEnds texts := by
  rw [lineEnds, List.map_cons, List.sum_cons]
  rfl

theorem lineEnds_append (texts texts' : List String) :
    lineEnds (texts ++ texts') = lineEnds texts + lineEnds texts' := by
  rw [lineEnds, List.map_append, List.sum_append]
  rfl

theorem lineEnds_eq_zero_iff {texts : List String} : lineEnds texts = 0 ↔ ∀ s ∈ texts, IsLine s := by
  rw [lineEnds, List.sum_eq_zero_iff_forall_eq_nat, List.forall_mem_map]
  simp only [List.count_eq_zero, isLine_iff]

end Text

/-! ### Line ends in values -/

/-- Joining with a separator that lacks a character adds none of it. -/
theorem count_intercalate {c : Char} {sep : List Char} (hsep : c ∉ sep) (pieces : List (List Char)) :
    (sep.intercalate pieces).count c = (pieces.map (List.count c)).sum := by
  induction pieces with
  | nil => rfl
  | cons piece rest ih =>
    cases rest with
    | nil => rw [List.intercalate_singleton, List.map_singleton, List.sum_singleton]
    | cons next rest =>
      rw [List.intercalate_cons_cons, List.count_append, List.count_append, ih,
        List.count_eq_zero.mpr hsep, Nat.add_zero]
      rfl

theorem Decimal.mem_positional {digits : List Char} (hdigits : ∀ c ∈ digits, c.isDigit = true)
    {point : Int} {c : Char} (hc : c ∈ positional digits point) : c.isDigit = true ∨ c = '.' := by
  rw [positional] at hc
  split at hc
  · simp only [List.mem_cons, List.mem_append] at hc
    obtain rfl | rfl | hc | hc := hc
    · exact Or.inl rfl
    · exact Or.inr rfl
    · exact Or.inl (isDigit_of_mem_replicate _ c hc)
    · exact Or.inl (hdigits c hc)
  · split at hc
    · obtain hc | hc := List.mem_append.mp hc
      · exact Or.inl (hdigits c hc)
      · exact Or.inl (isDigit_of_mem_replicate _ c hc)
    · simp only [List.mem_append, List.mem_cons] at hc
      obtain hc | rfl | hc := hc
      · exact Or.inl (hdigits c (List.mem_of_mem_take hc))
      · exact Or.inr rfl
      · exact Or.inl (hdigits c (List.mem_of_mem_drop hc))

/-- A floating-point number is written without line ends. -/
theorem Binary64.not_mem_plain (x : Binary64) : '\n' ∉ x.plain := by
  have hsign : '\n' ∉ x.sign := by
    rw [sign]
    split <;> decide
  have happend : ∀ {cs : List Char}, '\n' ∉ cs → '\n' ∉ x.sign ++ cs := fun hcs hmem =>
    (List.mem_append.mp hmem).elim hsign hcs
  rw [plain]
  split
  · decide
  · split
    · exact happend (by decide)
    · split
      · exact happend (by decide)
      · refine happend fun hmem => ?_
        obtain hdigit | hpoint := Decimal.mem_positional Decimal.isDigit_of_mem_significantDigits hmem
        · exact absurd hdigit (by decide)
        · exact absurd hpoint (by decide)

namespace Value

open Text

theorem count_mqlString (s : String) : (mqlString s).count '\n' = s.toList.count '\n' := by
  have hquote : ∀ cs : List Char, ('"' :: cs).count '\n' = cs.count '\n' := fun cs =>
    List.count_cons_of_ne (by decide)
  rw [mqlString, List.cons_append, hquote, List.count_append, hquote, List.count_nil, Nat.add_zero]

mutual

/-- **The line ends in the text of a value are those of its strings and keys**: nothing else in it breaks
a line, and none of them is escaped. -/
theorem count_mql : ∀ v : Value, v.mql.count '\n' = lineEnds v.texts
  | .null => rfl
  | .bool true => rfl
  | .bool false => rfl
  | .int32 n => List.count_eq_zero.mpr (Decimal.not_mem_writeInt rfl (by decide) _)
  | .int64 n => List.count_eq_zero.mpr (Decimal.not_mem_writeInt rfl (by decide) _)
  | .double x => List.count_eq_zero.mpr x.not_mem_plain
  | .string s => by
    rw [mql, count_mqlString, texts, lineEnds_cons]
    rfl
  | .array items => by
    rw [mql, texts, List.cons_append, List.count_cons_of_ne (by decide), List.count_append,
      count_intercalate (by decide), count_mqlItems]
    rfl
  | .document [] => rfl
  | .document (field :: fields) => by
    have hopen : ("\x7b ".toList).count '\n' = 0 := rfl
    have hclose : (" \x7d".toList).count '\n' = 0 := rfl
    rw [mql, texts, List.count_append, List.count_append, count_intercalate (by decide), count_mqlFields,
      hopen, hclose, Nat.zero_add, Nat.add_zero]
    exact List.cons_ne_nil field fields

theorem count_mqlItems : ∀ items : List Value,
    ((mqlItems items).map (List.count '\n')).sum = lineEnds (itemTexts items)
  | [] => rfl
  | item :: items => by
    rw [mqlItems, itemTexts, lineEnds_append, List.map_cons, List.sum_cons, count_mql item,
      count_mqlItems items]

theorem count_mqlFields : ∀ fields : List (String × Value),
    ((mqlFields fields).map (List.count '\n')).sum = lineEnds (fieldTexts fields)
  | [] => rfl
  | (key, value) :: fields => by
    have hcolon : (": ".toList).count '\n' = 0 := rfl
    rw [mqlFields, fieldTexts, lineEnds_cons, lineEnds_append, List.map_cons, List.sum_cons,
      List.count_append, List.count_append, count_mqlString, hcolon, count_mql value,
      count_mqlFields fields, Nat.add_zero, Nat.add_assoc]

end

end Value

/-! ### Lines of pipelines -/

/-- The query-language text of a stage. -/
def Stage.text (s : Stage) : String :=
  String.ofList s.mql

theorem Stage.count_text (s : Stage) : s.text.toList.count '\n' = Text.lineEnds s.texts := by
  rw [text, String.toList_ofList, mql, Value.count_mql]
  rfl

namespace Pipeline

/-- The lines of the query-language text of a pipeline. -/
def lines (p : Pipeline) : List String :=
  Text.split '\n' (p.render .mql)

variable {p : Pipeline}

/-- The lines of a pipeline are those of its stages, one stage after the other. -/
theorem lines_eq (hne : p ≠ []) : lines p = p.flatMap fun s => Text.split '\n' s.text := by
  have hrender : p.render .mql = (String.singleton '\n').intercalate (p.map Stage.text) := by
    apply String.toList_inj.mp
    simp [render, write, Stage.text, Function.comp_def]
  have hmap : p.map Stage.text ≠ [] := List.map_eq_nil_iff.not.mpr hne
  rw [lines, hrender, Text.split_intercalate_eq '\n' hmap, List.flatMap_map]

/-- There is one line more for every line end in the texts of the stages. -/
theorem length_lines (hne : p ≠ []) :
    (lines p).length = p.length + (p.map fun s => Text.lineEnds s.texts).sum := by
  have hstage : ∀ s : Stage, (Text.split '\n' s.text).length = Text.lineEnds s.texts + 1 := by
    intro s
    rw [Text.length_split, Stage.count_text]
  rw [lines_eq hne, List.length_flatMap]
  clear hne
  induction p with
  | nil => rfl
  | cons s p ih =>
    rw [List.map_cons, List.sum_cons, ih, hstage, List.map_cons, List.sum_cons, List.length_cons]
    omega

/-- There are as many lines as stages exactly if no text of a stage holds a line end. -/
theorem length_lines_eq_iff (hne : p ≠ []) :
    (lines p).length = p.length ↔ ∀ s ∈ p, s.IsLine := by
  rw [length_lines hne, Nat.add_eq_left, List.sum_eq_zero_iff_forall_eq_nat, List.forall_mem_map]
  simp only [Text.lineEnds_eq_zero_iff]
  rfl

/-- **Every stage stands on a line of its own** exactly if no text of a stage holds a line end. -/
theorem lines_eq_map_iff (hne : p ≠ []) : lines p = p.map Stage.text ↔ ∀ s ∈ p, s.IsLine := by
  refine ⟨fun h => (length_lines_eq_iff hne).mp (by rw [h, List.length_map]), fun h => ?_⟩
  have hline : ∀ s ∈ p, Text.split '\n' s.text = [s.text] := fun s hs => by
    apply Text.split_of_not_mem
    rw [← List.count_eq_zero, s.count_text]
    exact Text.lineEnds_eq_zero_iff.mpr (h s hs)
  rw [lines_eq hne, List.flatMap_congr hline, ← List.map_eq_flatMap]

end Pipeline

theorem ne_nil_of_compile {options : CompileOptions} {query : String} {p : Pipeline}
    (h : compile options query = .ok p) : p ≠ [] := by
  rw [compile] at h
  split at h
  · cases h
    exact List.cons_ne_nil _ _
  · obtain ⟨segments, -, rfl⟩ := Reading.map_eq_ok_iff.mp h
    exact List.concat_ne_nil _ _

/-- **The lines of the pipelines that queries compile to** are the lines of their stages in order, where a
stage takes one line and one more for every line end in its texts.  So every stage stands on one line of
its own exactly if none of these texts holds a line end, which is the case for every query without line
ends under settings that bring none along. -/
theorem lines_of_compile {options : CompileOptions} {query : String} {p : Pipeline}
    (h : compile options query = .ok p) :
    p.lines = (p.flatMap fun s => Text.split '\n' s.text)
      ∧ p.lines.length = p.length + (p.map fun s => Text.lineEnds s.texts).sum
      ∧ (p.lines.length = p.length ↔ ∀ s ∈ p, s.IsLine)
      ∧ (p.lines = p.map Stage.text ↔ ∀ s ∈ p, s.IsLine)
      ∧ (options.KeepsLines → '\n' ∉ query.toList → p.lines = p.map Stage.text) := by
  have hne := ne_nil_of_compile h
  refine ⟨Pipeline.lines_eq hne, Pipeline.length_lines hne, Pipeline.length_lines_eq_iff hne,
    Pipeline.lines_eq_map_iff hne, fun hoptions hquery => ?_⟩
  exact (Pipeline.lines_eq_map_iff hne).mpr (isLine_of_compile hoptions (Text.isLine_iff.mpr hquery) h)

/-- Two stages on four lines, with a line end in the value of a clause and one in the key behind it; and a
join on one line. -/
theorem lines_of_compile_broken_value :
    (∃ p, compile (.standard none) "m_a=x\ny,b\n=1" = .ok p ∧ p.length = 2 ∧ p.lines.length = 4
        ∧ p.lines ≠ p.map Stage.text)
      ∧ ∃ p, compile (.standard (some "shops")) "f_+orders" = .ok p ∧ p.lines = p.map Stage.text := by
  have hbroken : compile (.standard none) "m_a=x\ny,b\n=1"
      = .ok [.matching [("a", .string "x\ny"), ("b\n", .int32 1)], .dropIdentity] := by
    decide +kernel
  have hjoin : compile (.standard (some "shops")) "f_+orders"
      = .ok [.lookup ⟨"orders", "id", "shop_id", "orders"⟩, .dropIdentity] := by
    decide +kernel
  have hshops : (CompileOptions.standard (some "shops")).KeepsLines :=
    ⟨fun name hname => by cases hname; decide, Registry.keepsLines_standard⟩
  obtain ⟨-, hlength, -, hlines, -⟩ := lines_of_compile hbroken
  refine ⟨⟨_, hbroken, rfl, hlength.trans (by decide +kernel), hlines.not.mpr fun hline => ?_⟩,
    _, hjoin, (lines_of_compile hjoin).2.2.2.2 hshops (by decide +kernel)⟩
  exact absurd (hline _ List.mem_cons_self "x\ny" (by decide +kernel)) (by decide)

/-- A line end in a value gives two stages three lines.  Between quotes in a value there is room for the
end of a stage, a line end and the start of another: the text of two stages is then that of three. -/
theorem render_of_text_with_line_end :
    (∃ p, compile (.standard none) "m_a=x\ny" = .ok p ∧ p.length = 2
      ∧ p.lines = ["\x7b \"$match\": \x7b \"a\": \"x", "y\" \x7d \x7d",
          "\x7b \"$project\": \x7b \"_id\": 0 \x7d \x7d"])
    ∧ ∃ p q, compile (.standard none) "m_a='x\" \x7d \x7d\n\x7b \"$match\": \x7b \"b\": \"y'" = .ok p
      ∧ compile (.standard none) "m_a=x&m_b=y" = .ok q
      ∧ p.length = 2 ∧ q.length = 3 ∧ p.render .mql = q.render .mql :=
  ⟨⟨[.matching [("a", .string "x\ny")], .dropIdentity], by decide +kernel, rfl, by decide +kernel⟩,
    [.matching [("a", .string "x\" \x7d \x7d\n\x7b \"$match\": \x7b \"b\": \"y")], .dropIdentity],
    [.matching [("a", .string "x")], .matching [("b", .string "y")], .dropIdentity],
    by decide +kernel, by decide +kernel, rfl, rfl, by decide +kernel⟩

end QueryPipeline
