import QueryPipeline.Proofs.FaithfulJson

/-!
# Indented JSON

Indented JSON differs from compact JSON in blanks alone, and none of them stands in a string.  What a
string holds decides nothing: quotes and backslashes in it are escaped, so that a scan from left to right
always knows where a string ends.

* `Json.Place`, `Json.dropBlanks` — a scan that leaves out the blanks outside of strings;
* **`Leaves`** — a text that the scan enters and leaves outside of strings, and what is left of it;
* `leaves_quote`, `leaves_enclose` — strings, and items between brackets;
* **`leaves_write`** — all values, in every style that consists of blanks;
* **`dropBlanks_render_pretty`** — pipelines.
-/

namespace QueryPipeline

namespace Json

/-! ### The scan -/

/-- Where a character of a JSON text stands: outside of strings, in a string, or in a string right behind
a backslash that escapes it. -/
inductive Place where
  | outside
  | inside
  | escaped
deriving DecidableEq, Repr

/-- Where the character behind `c` stands. -/
def Place.next (c : Char) : Place → Place
  | outside => if c = '"' then inside else outside
  | inside => if c = '\\' then escaped else if c = '"' then outside else inside
  | escaped => inside

/-- Spaces and line ends. -/
def isBlank (c : Char) : Bool :=
  c == ' ' || c == '\n'

/-- Characters that are neither blanks nor quotes. -/
def isPlain (c : Char) : Bool :=
  !isBlank c && c != '"'

/-- A text without the blanks that stand outside of strings. -/
def dropBlanks : Place → List Char → List Char
  | _, [] => []
  | place, c :: cs =>
    if place = .outside ∧ isBlank c = true then dropBlanks (place.next c) cs
    else c :: dropBlanks (place.next c) cs

/-- In a string every character is kept. -/
theorem dropBlanks_inside (c : Char) (cs : List Char) :
    dropBlanks .inside (c :: cs) = c :: dropBlanks (Place.next c .inside) cs :=
  if_neg fun h => nomatch h.1

theorem dropBlanks_escaped (c : Char) (cs : List Char) :
    dropBlanks .escaped (c :: cs) = c :: dropBlanks .inside cs :=
  if_neg fun h => nomatch h.1

/-! ### Parts of a text -/

/-- The scan enters and leaves `cs` outside of strings, and `kept` is what it leaves of it. -/
def Leaves (cs kept : List Char) : Prop :=
  ∀ rest, dropBlanks .outside (cs ++ rest) = kept ++ dropBlanks .outside rest

namespace Leaves

theorem nil : Leaves [] [] :=
  fun _ => rfl

/-- Parts are scanned one after the other. -/
theorem append {cs cs' kept kept' : List Char} (h : Leaves cs kept) (h' : Leaves cs' kept') :
    Leaves (cs ++ cs') (kept ++ kept') := by
  intro rest
  rw [List.append_assoc, h, h', List.append_assoc]

theorem singleton {c : Char} (hplain : isPlain c = true) : Leaves [c] [c] := by
  rw [isPlain, Bool.and_eq_true, Bool.not_eq_true', bne_iff_ne] at hplain
  obtain ⟨hblank, hquote⟩ := hplain
  intro rest
  have hkeep : ¬ (Place.outside = .outside ∧ isBlank c = true) := fun h =>
    absurd (hblank.symm.trans h.2) (by decide)
  show dropBlanks .outside (c :: rest) = c :: dropBlanks .outside rest
  rw [dropBlanks, if_neg hkeep, Place.next, if_neg hquote]

theorem of_blank {cs : List Char} (h : ∀ c ∈ cs, isBlank c = true) : Leaves cs [] := by
  induction cs with
  | nil => exact nil
  | cons c cs ih =>
    obtain ⟨hc, hcs⟩ := List.forall_mem_cons.mp h
    have hquote : c ≠ '"' := by
      rintro rfl
      exact absurd hc (by decide)
    intro rest
    rw [List.cons_append, dropBlanks, if_pos ⟨rfl, hc⟩, Place.next, if_neg hquote]
    exact ih hcs rest

theorem of_plain {cs : List Char} (h : cs.all isPlain = true) : Leaves cs cs := by
  induction cs with
  | nil => exact nil
  | cons c cs ih =>
    rw [List.all_cons, Bool.and_eq_true] at h
    exact (singleton h.1).append (ih h.2)

/-- Parts between separators. -/
theorem intercalate {α : Type} {sep sep' : List Char} (hsep : Leaves sep sep')
    {text text' : α → List Char} {items : List α} (h : ∀ a ∈ items, Leaves (text a) (text' a)) :
    Leaves (sep.intercalate (items.map text)) (sep'.intercalate (items.map text')) := by
  induction items with
  | nil => exact nil
  | cons first rest ih =>
    obtain ⟨hfirst, hrest⟩ := List.forall_mem_cons.mp h
    cases rest with
    | nil =>
      simp only [List.map_cons, List.map_nil, List.intercalate_singleton]
      exact hfirst
    | cons next rest =>
      simp only [List.map_cons, List.intercalate_cons_cons] at ih ⊢
      exact (hfirst.append hsep).append (ih hrest)

end Leaves

/-! ### Strings -/

/-- In a string, characters that are neither quotes nor backslashes are passed over. -/
theorem dropBlanks_inside_append {cs : List Char} (h : ∀ c ∈ cs, c ≠ '"' ∧ c ≠ '\\')
    (rest : List Char) : dropBlanks .inside (cs ++ rest) = cs ++ dropBlanks .inside rest := by
  induction cs with
  | nil => rfl
  | cons c cs ih =>
    obtain ⟨⟨hquote, hbackslash⟩, hcs⟩ := List.forall_mem_cons.mp h
    rw [List.cons_append, dropBlanks_inside, Place.next, if_neg hbackslash, if_neg hquote, ih hcs]
    rfl

theorem digitChar_plain : ∀ n < 16, Nat.digitChar n ≠ '"' ∧ Nat.digitChar n ≠ '\\' := by
  decide

/-- A character of a string is written as it is, or as a backslash, the character that it escapes, and
what can be passed over. -/
theorem escapeChar_cases (c : Char) :
    (escapeChar c = [c] ∧ c ≠ '"' ∧ c ≠ '\\')
      ∨ ∃ d more, escapeChar c = '\\' :: d :: more ∧ ∀ e ∈ more, e ≠ '"' ∧ e ≠ '\\' := by
  have hnone : ∀ e ∈ ([] : List Char), e ≠ '"' ∧ e ≠ '\\' := fun _ he => absurd he List.not_mem_nil
  rw [escapeChar]
  split_ifs with hquote hbackslash hback hfeed hline hreturn htab hcontrol
  · exact Or.inr ⟨'"', [], rfl, hnone⟩
  · exact Or.inr ⟨'\\', [], rfl, hnone⟩
  · exact Or.inr ⟨'b', [], rfl, hnone⟩
  · exact Or.inr ⟨'f', [], rfl, hnone⟩
  · exact Or.inr ⟨'n', [], rfl, hnone⟩
  · exact Or.inr ⟨'r', [], rfl, hnone⟩
  · exact Or.inr ⟨'t', [], rfl, hnone⟩
  · have hhigh := digitChar_plain (c.toNat / 16) (by omega)
    have hlow := digitChar_plain (c.toNat % 16) (by omega)
    refine Or.inr ⟨'u', _, rfl, ?_⟩
    simp only [List.forall_mem_cons]
    exact ⟨by decide, by decide, hhigh, hlow, hnone⟩
  · exact Or.inl ⟨rfl, hquote, hbackslash⟩

/-- A character of a string does not end it, however it is written. -/
theorem dropBlanks_escapeChar (c : Char) (rest : List Char) :
    dropBlanks .inside (escapeChar c ++ rest) = escapeChar c ++ dropBlanks .inside rest := by
  obtain ⟨hc, hplain⟩ | ⟨d, more, hc, hmore⟩ := escapeChar_cases c
  · rw [hc]
    exact dropBlanks_inside_append (List.forall_mem_singleton.mpr hplain) rest
  · rw [hc, List.cons_append, List.cons_append, dropBlanks_inside, Place.next, if_pos rfl,
      dropBlanks_escaped, dropBlanks_inside_append hmore]
    rfl

theorem dropBlanks_flatMap_escapeChar (cs rest : List Char) :
    dropBlanks .inside (cs.flatMap escapeChar ++ rest)
      = cs.flatMap escapeChar ++ dropBlanks .inside rest := by
  induction cs with
  | nil => rfl
  | cons c cs ih => rw [List.flatMap_cons, List.append_assoc, dropBlanks_escapeChar, ih, List.append_assoc]

/-- **A string literal** is left as it is, whatever it holds. -/
theorem leaves_quote (s : String) : Leaves (quote s) (quote s) := by
  intro rest
  have hquote : quote s ++ rest = '"' :: (s.toList.flatMap escapeChar ++ '"' :: rest) := by
    simp [quote]
  have hend : dropBlanks .inside ('"' :: rest) = '"' :: dropBlanks .outside rest :=
    dropBlanks_inside '"' rest
  rw [hquote]
  show '"' :: dropBlanks .inside (s.toList.flatMap escapeChar ++ '"' :: rest) = _
  rw [dropBlanks_flatMap_escapeChar, hend]
  simp [quote]

end Json

/-! ### Values -/

/-- A style whose line breaks and gaps are blanks. -/
structure JsonStyle.IsBlank (style : JsonStyle) : Prop where
  lineBreak : ∀ depth, ∀ c ∈ style.lineBreak depth, Json.isBlank c = true
  gap : ∀ c ∈ style.gap, Json.isBlank c = true

theorem JsonStyle.isBlank_pretty : JsonStyle.pretty.IsBlank := by
  constructor
  · intro depth c hc
    obtain rfl | hc := List.mem_cons.mp hc
    · rfl
    · rw [List.eq_of_mem_replicate hc]
      rfl
  · intro c hc
    rw [List.mem_singleton.mp hc]
    rfl

namespace Json

variable {style : JsonStyle} {depth : Nat}

/-- The characters of numbers are neither quotes nor blanks. -/
theorem leaves_number {cs : List Char} (h : ∀ c ∈ cs, Decimal.isNumberChar c = true) : Leaves cs cs := by
  refine Leaves.of_plain (List.all_eq_true.mpr fun c hc => ?_)
  rw [isPlain, Bool.and_eq_true, Bool.not_eq_true', bne_iff_ne, ← Bool.not_eq_true]
  constructor
  · intro hblank
    rw [isBlank, Bool.or_eq_true, beq_iff_eq, beq_iff_eq] at hblank
    obtain rfl | rfl := hblank
    · exact absurd (h _ hc) (by decide)
    · exact absurd (h _ hc) (by decide)
  · rintro rfl
    exact absurd (h _ hc) (by decide)

/-- **Items between brackets**, each of which is left as it is without line breaks. -/
theorem leaves_enclose (hstyle : style.IsBlank) {opening closing : Char}
    (hopening : Leaves [opening] [opening]) (hclosing : Leaves [closing] [closing]) {α : Type}
    {text text' : α → List Char} {items : List α} (h : ∀ a ∈ items, Leaves (text a) (text' a)) :
    Leaves (enclose style depth opening closing (items.map text))
      (enclose .compact depth opening closing (items.map text')) := by
  cases items with
  | nil => exact hopening.append hclosing
  | cons first rest =>
    have hbreak : ∀ depth, Leaves (style.lineBreak depth) [] := fun depth =>
      Leaves.of_blank (hstyle.lineBreak depth)
    have hcomma : Leaves (',' :: style.lineBreak (depth + 1)) [','] :=
      (Leaves.singleton rfl).append (hbreak (depth + 1))
    have hitems := Leaves.intercalate hcomma h
    have hparts := (((hopening.append (hbreak (depth + 1))).append hitems).append (hbreak depth)).append
      hclosing
    rw [enclose_compact]
    rw [List.append_nil, List.append_nil, List.append_assoc [opening]] at hparts
    exact hparts

theorem leaves_writeField (hstyle : style.IsBlank) {field : String × Json}
    (h : Leaves (write style depth field.2) (write .compact depth field.2)) :
    Leaves (writeField style depth field) (writeField .compact depth field) := by
  have hcolon : Leaves (':' :: style.gap) [':'] :=
    (Leaves.singleton rfl).append (Leaves.of_blank hstyle.gap)
  rw [writeField, writeField]
  exact ((leaves_quote field.1).append hcolon).append h

/-- **All values.**  Without the blanks outside of its strings, a text is the compact text. -/
theorem leaves_write (hstyle : style.IsBlank) {j : Json} (h : j.IsFinite) :
    Leaves (write style depth j) (write .compact depth j) := by
  -- the items of arrays and objects stand one level deeper
  induction h generalizing depth with
  | null =>
    show Leaves "null".toList "null".toList
    exact Leaves.of_plain (by decide)
  | bool b =>
    cases b with
    | true =>
      show Leaves "true".toList "true".toList
      exact Leaves.of_plain (by decide)
    | false =>
      show Leaves "false".toList "false".toList
      exact Leaves.of_plain (by decide)
  | int n => exact leaves_number (Decimal.isNumberChar_of_mem_writeInt n)
  | real hfinite => exact leaves_number (Binary64.isNumberChar_of_mem_json hfinite)
  | string s => exact leaves_quote s
  | array hitems ih =>
    rw [write, write, writeItems_eq_map, writeItems_eq_map]
    exact leaves_enclose hstyle (Leaves.singleton rfl) (Leaves.singleton rfl)
      fun item hitem => ih item hitem
  | object hfields ih =>
    rw [write, write, writeFields_eq_map, writeFields_eq_map]
    exact leaves_enclose hstyle (Leaves.singleton rfl) (Leaves.singleton rfl)
      fun field hfield => leaves_writeField hstyle (ih field hfield)

end Json

/-- **The indented text of a pipeline, without the blanks outside of its strings, is its compact text.**
The pipeline need not be one that a query compiles to. -/
theorem dropBlanks_render_pretty (p : Pipeline) :
    String.ofList (Json.dropBlanks .outside (p.render .pretty).toList) = p.render .json := by
  have hleaves : Json.Leaves (p.write .pretty) (p.write .json) :=
    Json.leaves_write JsonStyle.isBlank_pretty p.isFinite_toJson
  have htext : Json.dropBlanks .outside (p.write .pretty) = p.write .json := by
    simpa [Json.dropBlanks] using hleaves []
  rw [Pipeline.render, Pipeline.render, String.toList_ofList, htext]

example : Json.dropBlanks .outside
      (Pipeline.render [.matching [("a \" b", .string " \\"), ("c", .array [])]] .pretty).toList
    = "[\x7b\"$match\":\x7b\"a \\\" b\":\" \\\\\",\"c\":[]\x7d\x7d]".toList := by
  decide +kernel

end QueryPipeline
