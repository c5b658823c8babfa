import Mathlib.Data.List.Basic
import QueryPipeline.Query.Segment

/-!
# What cutting a text finds

Every level of a query is found by cutting its text, and a grammar of queries speaks about texts that
are put together.  The lemmas of this module lead from one to the other.

* **`split_eq_pair_iff`** — two pieces are found exactly in a text with one separator;
* **`cut_eq_some_iff`** — the parts around the first separator;
* **`quoted?_eq_some_iff`**, **`application?_eq_some_iff`** — what stands between two quotes, and what
  applies an operator;
* **`readField_eq`**, **`splitCode_eq_iff`** — the field of a token, and the code and the arguments of a
  segment.
-/

namespace QueryPipeline

namespace Text

/-! ### Pieces -/

theorem not_mem_of_mem_splitOn {sep : Char} {cs piece : List Char} (h : piece ∈ cs.splitOn sep) :
    sep ∉ piece := by
  induction cs generalizing piece with
  | nil =>
    rw [List.splitOn_nil, List.mem_singleton] at h
    rw [h]
    exact List.not_mem_nil
  | cons c cs ih =>
    rw [List.splitOn_cons_eq_if_modifyHead] at h
    split at h
    · rcases List.mem_cons.mp h with rfl | h
      · exact List.not_mem_nil
      · exact ih h
    · rename_i hc
      -- the character joins the first of the later pieces, and it is no separator
      cases hsplit : cs.splitOn sep with
      | nil => exact absurd hsplit (List.splitOn_ne_nil sep cs)
      | cons first rest =>
        rw [hsplit, List.modifyHead_cons] at h
        rcases List.mem_cons.mp h with rfl | h
        · have hfirst : sep ∉ first := ih (by rw [hsplit]; exact List.mem_cons_self)
          intro hmem
          rcases List.mem_cons.mp hmem with rfl | hmem
          · exact hc (beq_self_eq_true _)
          · exact hfirst hmem
        · exact ih (by rw [hsplit]; exact List.mem_cons_of_mem _ h)

/-- No piece contains the separator. -/
theorem not_mem_of_mem_split {sep : Char} {s piece : String} (h : piece ∈ split sep s) :
    sep ∉ piece.toList := by
  obtain ⟨cs, hcs, rfl⟩ := List.mem_map.mp h
  rw [String.toList_ofList]
  exact not_mem_of_mem_splitOn hcs

/-- Joining the pieces gives the text back. -/
theorem intercalate_split (sep : Char) (s : String) :
    (String.singleton sep).intercalate (split sep s) = s := by
  apply String.toList_inj.mp
  have hmap : ((split sep s).map String.toList) = s.toList.splitOn sep := by
    rw [split, List.map_map]
    exact (List.map_congr_left fun cs _ => String.toList_ofList).trans (List.map_id _)
  rw [String.toList_intercalate, hmap, String.toList_singleton]
  exact List.intercalate_splitOn sep

/-- Two pieces are found exactly in a text with one separator. -/
theorem split_eq_pair_iff {sep : Char} {s a b : String} :
    split sep s = [a, b]
      ↔ s = a ++ String.singleton sep ++ b ∧ sep ∉ a.toList ∧ sep ∉ b.toList := by
  constructor
  · intro h
    have hjoin := intercalate_split sep s
    rw [h] at hjoin
    refine ⟨?_, ?_, ?_⟩
    · rw [← hjoin]
      apply String.toList_inj.mp
      simp
    · exact not_mem_of_mem_split (s := s) (by rw [h]; simp)
    · exact not_mem_of_mem_split (s := s) (by rw [h]; simp)
  · intro h
    obtain ⟨rfl, ha, hb⟩ := h
    rw [split_append, split_of_not_mem ha, split_of_not_mem hb]
    rfl

/-! ### The first separator -/

theorem exists_parts {sep : Char} {s : String} (h : sep ∈ s.toList) :
    ∃ a b, s = a ++ String.singleton sep ++ b ∧ sep ∉ a.toList := by
  obtain ⟨as, bs, hs, has⟩ := List.eq_append_cons_of_mem h
  refine ⟨String.ofList as, String.ofList bs, ?_, ?_⟩
  · apply String.toList_inj.mp
    simp [hs]
  · rw [String.toList_ofList]
    exact has

theorem cut_eq_none_iff {sep : Char} {s : String} : cut sep s = none ↔ sep ∉ s.toList := by
  constructor
  · intro h hmem
    obtain ⟨a, b, rfl, ha⟩ := exists_parts hmem
    rw [cut_append b ha] at h
    cases h
  · exact cut_of_not_mem

/-- The parts around the first separator. -/
theorem cut_eq_some_iff {sep : Char} {s a b : String} :
    cut sep s = some (a, b) ↔ s = a ++ String.singleton sep ++ b ∧ sep ∉ a.toList := by
  constructor
  · intro h
    by_cases hmem : sep ∈ s.toList
    · obtain ⟨a', b', rfl, ha'⟩ := exists_parts hmem
      rw [cut_append b' ha'] at h
      cases h
      exact ⟨rfl, ha'⟩
    · rw [cut_of_not_mem hmem] at h
      cases h
  · intro h
    obtain ⟨rfl, ha⟩ := h
    exact cut_append b ha

/-- A text of two pieces is cut between them. -/
theorem cut_of_split {sep : Char} {s a b : String} (h : split sep s = [a, b]) :
    cut sep s = some (a, b) := by
  obtain ⟨hs, ha, -⟩ := split_eq_pair_iff.mp h
  exact cut_eq_some_iff.mpr ⟨hs, ha⟩

/-- A leading character is the first of the text. -/
theorem startsWith_iff {c : Char} {s : String} :
    startsWith c s = true ↔ ∃ rest, s = String.singleton c ++ rest := by
  rw [← isSome_after, Option.isSome_iff_exists]
  simp only [after_eq_some_iff]

/-- Nothing is left of a text behind one leading character exactly if there was nothing else. -/
theorem getD_after_eq_empty_iff {c : Char} {s : String} :
    (after c s).getD s = "" ↔ s = "" ∨ s = String.singleton c := by
  cases h : after c s with
  | none =>
    have hnot : s ≠ String.singleton c := by
      intro hs
      rw [after_eq_some_iff.mpr (hs.trans String.append_empty.symm)] at h
      cases h
    rw [Option.getD_none]
    exact ⟨Or.inl, fun hor => hor.resolve_right hnot⟩
  | some rest =>
    have hs := after_eq_some_iff.mp h
    rw [Option.getD_some, hs]
    refine ⟨fun hrest => ?_, fun hor => ?_⟩
    · rw [hrest, String.append_empty]
      exact Or.inr rfl
    · obtain hempty | hone := hor
      · simp at hempty
      · simpa using hone

end Text

/-! ### Quotes and applications -/

/-- A text between single quotes; there is at least one character between them. -/
def Literal.IsQuoted (token : String) : Prop :=
  ∃ s, s ≠ "" ∧ token = "'" ++ s ++ "'"

/-- Three characters or more that start and end with one character have it around a middle. -/
theorem Literal.exists_middle_iff {cs : List Char} {q : Char} :
    (2 < cs.length ∧ cs.head? = some q ∧ cs.getLast? = some q)
      ↔ ∃ middle, middle ≠ [] ∧ cs = q :: (middle ++ [q]) := by
  constructor
  · intro h
    obtain ⟨hlength, hhead, hlast⟩ := h
    obtain ⟨front, hfront⟩ := List.getLast?_eq_some_iff.mp hlast
    rw [hfront] at hlength hhead
    cases front with
    | nil => simp at hlength
    | cons c middle =>
      have hc : c = q := by simpa using hhead
      have hmiddle : middle ≠ [] := by
        intro hnil
        rw [hnil] at hlength
        exact absurd hlength (by simp)
      exact ⟨middle, hmiddle, by rw [hfront, hc, List.cons_append]⟩
  · intro h
    obtain ⟨middle, hmiddle, rfl⟩ := h
    have hlength : 0 < middle.length := List.length_pos_iff.mpr hmiddle
    refine ⟨?_, rfl, List.getLast?_eq_some_iff.mpr ⟨q :: middle, rfl⟩⟩
    rw [List.length_cons, List.length_append, List.length_singleton]
    omega

/-- The text between two quotes, which is not empty. -/
theorem Literal.quoted?_eq_some_iff {token s : String} :
    Literal.quoted? token = some s ↔ s ≠ "" ∧ token = "'" ++ s ++ "'" := by
  have htoken : ∀ middle : List Char,
      token.toList = '\'' :: (middle ++ ['\'']) ↔ token = "'" ++ String.ofList middle ++ "'" := by
    intro middle
    rw [← String.toList_inj]
    simp
  have hinner : ∀ middle : List Char,
      ('\'' :: (middle ++ ['\''])).tail.dropLast = middle := by
    intro middle
    rw [List.tail_cons, List.dropLast_concat]
  simp only [Literal.quoted?]
  constructor
  · intro h
    split at h
    · rename_i hquoted
      obtain ⟨middle, hmiddle, hlist⟩ := exists_middle_iff.mp hquoted
      rw [hlist, hinner] at h
      cases h
      exact ⟨by simpa using hmiddle, (htoken middle).mp hlist⟩
    · cases h
  · intro h
    have hne : s.toList ≠ [] := by simpa using h.1
    have hlist := (htoken s.toList).mpr (by rw [String.ofList_toList]; exact h.2)
    rw [if_pos (exists_middle_iff.mpr ⟨s.toList, hne, hlist⟩), hlist, hinner, String.ofList_toList]

theorem Literal.quoted?_eq_none_iff {token : String} :
    Literal.quoted? token = none ↔ ¬ Literal.IsQuoted token := by
  constructor
  · intro h hquoted
    obtain ⟨s, hs⟩ := hquoted
    rw [Literal.quoted?_eq_some_iff.mpr hs] at h
    cases h
  · intro h
    cases hq : Literal.quoted? token with
    | none => rfl
    | some s => exact absurd ⟨s, Literal.quoted?_eq_some_iff.mp hq⟩ h

/-- A clause value that applies an operator: a name, a dollar sign and an argument.  The first dollar
sign ends the name, which is not empty, and a quoted text applies nothing. -/
structure Clause.IsApplication (value name argument : String) : Prop where
  parts : value = name ++ "$" ++ argument
  first : '$' ∉ name.toList
  named : name ≠ ""
  unquoted : ¬ Literal.IsQuoted value

theorem Clause.application?_eq_some_iff {value name argument : String} :
    Clause.application? value = some (name, argument)
      ↔ Clause.IsApplication value name argument := by
  rw [Clause.application?]
  cases hq : Literal.quoted? value with
  | some s =>
    constructor
    · intro h
      cases h
    · intro h
      exact absurd ⟨s, Literal.quoted?_eq_some_iff.mp hq⟩ h.unquoted
  | none =>
    have hunquoted := Literal.quoted?_eq_none_iff.mp hq
    rw [Option.isSome_none, if_neg (by decide), Option.filter_eq_some_iff, Text.cut_eq_some_iff]
    constructor
    · intro h
      obtain ⟨⟨hparts, hfirst⟩, hnamed⟩ := h
      exact ⟨hparts, hfirst, by simpa using hnamed, hunquoted⟩
    · intro h
      obtain ⟨hparts, hfirst, hnamed, -⟩ := h
      exact ⟨⟨hparts, hfirst⟩, by simpa using hnamed⟩

/-! ### Fields -/

/-- The field that a token names: the token without one leading minus. -/
def FieldList.fieldName (token : String) : String :=
  (Text.after '-' token).getD token

/-- A token is read as the field that it names and whether it does so without a minus. -/
theorem FieldList.readField_eq (token : String) :
    FieldList.readField token
      = if fieldName token = "" then .error (.malformedField token)
        else .ok (fieldName token, ! Text.startsWith '-' token) := by
  rw [FieldList.readField.eq_def, fieldName, ← Text.isSome_after]
  cases Text.after '-' token with
  | none => rfl
  | some name => rfl

/-! ### Codes -/

/-- What stands before the first underscore, and what stands behind it. -/
theorem Segment.splitCode_eq_iff {text code args : String} :
    Segment.splitCode text = (code, args)
      ↔ '_' ∉ code.toList ∧ (text = code ++ "_" ++ args ∨ (text = code ∧ args = "")) := by
  rw [Segment.splitCode]
  cases hcut : Text.cut '_' text with
  | none =>
    have hnot : '_' ∉ text.toList := Text.cut_eq_none_iff.mp hcut
    constructor
    · intro h
      cases h
      exact ⟨hnot, Or.inr ⟨rfl, rfl⟩⟩
    · intro h
      obtain ⟨-, rfl | ⟨rfl, rfl⟩⟩ := h
      · simp at hnot
      · rfl
  | some parts =>
    obtain ⟨a, b⟩ := parts
    obtain ⟨htext, ha⟩ := Text.cut_eq_some_iff.mp hcut
    constructor
    · intro h
      cases h
      exact ⟨ha, Or.inl htext⟩
    · intro h
      obtain ⟨hcode, h | ⟨rfl, rfl⟩⟩ := h
      · have hparts : Text.cut '_' text = some (code, args) :=
          Text.cut_eq_some_iff.mpr ⟨h, hcode⟩
        rw [hcut] at hparts
        exact Option.some.inj hparts
      · simp [htext] at hcode

end QueryPipeline
