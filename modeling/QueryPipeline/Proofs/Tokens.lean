import QueryPipeline.Proofs.Cutting
import QueryPipeline.Proofs.DecimalTexts

/-!
# What tokens denote

Typing a token loses nothing of it: the token can be read off the value that it denotes, but for quotes
around a text and zeros behind a fraction.

* **`Literal.IsNumberText`** — the texts of numbers, of each width;
* **`Literal.Denotes`** — what a token denotes, without a reader;
* **`number?_eq_some_iff`**, **`coerce_eq_iff_denotes`** — the readers find exactly that.
-/

namespace QueryPipeline.Literal

open Decimal

/-! ### Texts of numbers -/

/-- Whether a whole number needs more than 32 bits. -/
def IsWide (n : Int64) : Prop :=
  n.toInt < Int32.minValue.toInt ∨ Int32.maxValue.toInt < n.toInt

/-- The texts of numbers: the digits of a whole number in the narrowest width that holds it, and the
shortest digits that read back of a floating-point number, filled up with zeros, unless they denote a
whole number of 64 bits. -/
inductive IsNumberText (token : String) : Value → Prop
  | int32 {n : Int32} (htext : token.toList = writeInt n.toInt) : IsNumberText token (.int32 n)
  | int64 {n : Int64} (htext : token.toList = writeInt n.toInt) (hwide : IsWide n) :
    IsNumberText token (.int64 n)
  | double {x : Binary64} (hfinite : x.isFinite = true) (htext : IsPadded x.plain token.toList)
    (hread : Binary64.read? token.toList = some x)
    (hword : ∀ n : Int64, ¬ IsNumeral token.toList n.toInt) : IsNumberText token (.double x)

theorem not_isWide_iff {n : Int64} :
    ¬ IsWide n ↔ Int32.minValue.toInt ≤ n.toInt ∧ n.toInt ≤ Int32.maxValue.toInt := by
  rw [IsWide]
  omega

theorem toInt_toInt32_of_not_isWide {n : Int64} (h : ¬ IsWide n) : n.toInt32.toInt = n.toInt := by
  have hbounds : -2147483648 ≤ n.toInt ∧ n.toInt ≤ 2147483647 := not_isWide_iff.mp h
  rw [Int64.toInt_toInt32]
  apply Int.bmod_eq_of_le
  · omega
  · omega

theorem not_isWide_toInt64 (n : Int32) : ¬ IsWide n.toInt64 := by
  rw [not_isWide_iff, Int32.toInt_toInt64]
  exact ⟨Int32.minValue_le_toInt n, Int32.toInt_le n⟩

theorem ofInt64_of_isWide {n : Int64} (h : IsWide n) : ofInt64 n = .int64 n := by
  rw [ofInt64, if_neg]
  rwa [← not_isWide_iff, not_not]

theorem ofInt64_of_not_isWide {n : Int64} (h : ¬ IsWide n) : ofInt64 n = .int32 n.toInt32 := by
  rw [ofInt64, if_pos (not_isWide_iff.mp h)]

/-- The digits of a word are read as the word. -/
theorem readInt64?_writeInt (n : Int64) : readInt64? (writeInt n.toInt) = some n :=
  readInt64?_eq_some_iff.mpr (readInt?_eq_some_iff.mp (readInt?_writeInt n.toInt))

/-- The digits of a word are its text. -/
theorem number?_of_writeInt {token : String} {n : Int64} (h : token.toList = writeInt n.toInt) :
    number? token = some (ofInt64 n) := by
  simp only [number?, h, readInt64?_writeInt, if_true]

theorem isNumberText_ofInt64 {token : String} {n : Int64} (h : token.toList = writeInt n.toInt) :
    IsNumberText token (ofInt64 n) := by
  by_cases hwide : IsWide n
  · rw [ofInt64_of_isWide hwide]
    exact IsNumberText.int64 h hwide
  · rw [ofInt64_of_not_isWide hwide]
    apply IsNumberText.int32
    rw [toInt_toInt32_of_not_isWide hwide]
    exact h

theorem isFinite_of_read? {cs : List Char} {x : Binary64} (h : Binary64.read? cs = some x) :
    x.isFinite = true := by
  obtain ⟨⟨negative, d⟩, -, hnearest⟩ := Option.bind_eq_some_iff.mp h
  simp only [Binary64.nearest?] at hnearest
  split at hnearest
  · rename_i hrank
    cases hnearest
    exact decide_eq_true hrank
  · cases hnearest

theorem count_point_of_read? {cs : List Char} {x : Binary64} (h : Binary64.read? cs = some x) :
    cs.count '.' ≤ 1 := by
  obtain ⟨r, hr, -⟩ := Option.bind_eq_some_iff.mp h
  exact count_point_of_readDecimal? hr

/-- **The texts of numbers** are the tokens that are read as numbers. -/
theorem number?_eq_some_iff {token : String} {v : Value} :
    number? token = some v ↔ IsNumberText token v := by
  constructor
  · intro h
    simp only [number?] at h
    split at h
    · rename_i n hn
      split at h
      · rename_i htext
        cases h
        exact isNumberText_ofInt64 htext.symm
      · cases h
    · rename_i hnone
      split at h
      · rename_i x canonical hread htrim
        split at h
        · rename_i hplain
          cases h
          rw [← hplain] at htrim
          refine IsNumberText.double (isFinite_of_read? hread)
            (isPadded_of_trimFraction? (count_point_of_read? hread) htrim) hread ?_
          intro n hn
          rw [readInt64?_eq_some_iff.mpr hn] at hnone
          cases hnone
        · cases h
      · cases h
  · intro h
    cases h with
    | @int32 n htext =>
      have hword : token.toList = writeInt n.toInt64.toInt := by rw [htext, Int32.toInt_toInt64]
      rw [number?_of_writeInt hword, ofInt64_of_not_isWide (not_isWide_toInt64 n),
        Int32.toInt32_toInt64]
    | int64 htext hwide => rw [number?_of_writeInt htext, ofInt64_of_isWide hwide]
    | double hfinite htext hread hword =>
      have hnone : readInt64? token.toList = none := by
        cases h : readInt64? token.toList with
        | none => rfl
        | some n => exact absurd (readInt64?_eq_some_iff.mp h) (hword n)
      have htrim := trimFraction?_of_isPadded (isTrim_plain _) htext
      simp only [number?, hnone, hread, htrim, if_true]

/-- The text of a number starts as a numeral does. -/
theorem isNumeralStart_of_number? {token : String} {c : Char} {cs : List Char}
    (htoken : token.toList = c :: cs) {v : Value} (h : number? token = some v) :
    IsNumeralStart c := by
  simp only [number?, htoken] at h
  split at h
  · rename_i n hn
    exact isNumeralStart_of_isNumeral (readInt64?_eq_some_iff.mp hn)
  · split at h
    · rename_i x canonical hread htrim
      obtain ⟨r, hr, -⟩ := Option.bind_eq_some_iff.mp hread
      exact isNumeralStart_of_readDecimal? hr
    · cases h

/-! ### What tokens denote -/

/-- What a token denotes: a boolean, a number or the text between quotes, and otherwise its own text. -/
inductive Denotes (token : String) : Value → Prop
  | isTrue (htext : token = "true") : Denotes token (.bool true)
  | isFalse (htext : token = "false") : Denotes token (.bool false)
  | number {v : Value} (htext : IsNumberText token v) : Denotes token v
  | quoted {s : String} (hne : s ≠ "") (htext : token = "'" ++ s ++ "'") : Denotes token (.string s)
  | bare (htrue : token ≠ "true") (hfalse : token ≠ "false")
    (hnumber : ∀ v, ¬ IsNumberText token v) (hquoted : ¬ IsQuoted token) :
    Denotes token (.string token)

theorem not_isNumberText_of_start {token : String} (c : Char) (rest : List Char)
    (htoken : token.toList = c :: rest) (hc : ¬ IsNumeralStart c) (v : Value) :
    ¬ IsNumberText token v :=
  fun h => hc (isNumeralStart_of_number? htoken (number?_eq_some_iff.mpr h))

theorem number?_eq_none_iff {token : String} :
    number? token = none ↔ ∀ v, ¬ IsNumberText token v := by
  simp only [← number?_eq_some_iff, ← Option.eq_none_iff_forall_ne_some]

/-- No text of a number is one of the words that denote booleans, a reference or quoted. -/
theorem isNumberText_excludes {token : String} {v : Value} (h : IsNumberText token v) :
    token ≠ "true" ∧ token ≠ "false" ∧ isReference token = false ∧ ¬ IsQuoted token := by
  refine ⟨?_, ?_, ?_, ?_⟩
  · rintro rfl
    exact not_isNumberText_of_start 't' _ rfl (by decide) v h
  · rintro rfl
    exact not_isNumberText_of_start 'f' _ rfl (by decide) v h
  · rw [Bool.eq_false_iff]
    intro hreference
    obtain ⟨rest, rfl⟩ := Text.startsWith_iff.mp hreference
    exact not_isNumberText_of_start '$' rest.toList (by simp) (by decide) v h
  · rintro ⟨s, -, rfl⟩
    exact not_isNumberText_of_start '\'' (s.toList ++ ['\'']) (by simp) (by decide) v h

theorem not_isReference_of_isQuoted {token : String} (h : IsQuoted token) :
    isReference token = false := by
  obtain ⟨s, -, rfl⟩ := h
  rw [isReference, Text.startsWith]
  simp

theorem coerce_of_isNumberText {token : String} {v : Value} (h : IsNumberText token v) :
    coerce token = v := by
  obtain ⟨htrue, hfalse, hreference, hquoted⟩ := isNumberText_excludes h
  rw [coerce, if_neg htrue, if_neg hfalse, hreference, if_neg (by decide),
    quoted?_eq_none_iff.mpr hquoted, number?_eq_some_iff.mpr h]
  rfl

theorem coerce_of_quoted {token s : String} (hne : s ≠ "") (h : token = "'" ++ s ++ "'") :
    coerce token = .string s := by
  have hword : ∀ word : String, word.toList.head? ≠ some '\'' → token ≠ word := by
    intro word hhead he
    apply hhead
    rw [← he, h]
    simp
  rw [coerce, if_neg (hword "true" (by decide)), if_neg (hword "false" (by decide)),
    not_isReference_of_isQuoted ⟨s, hne, h⟩, if_neg (by decide), quoted?_eq_some_iff.mpr ⟨hne, h⟩]

theorem coerce_of_bare {token : String} (htrue : token ≠ "true") (hfalse : token ≠ "false")
    (hnumber : ∀ v, ¬ IsNumberText token v) (hquoted : ¬ IsQuoted token) :
    coerce token = .string token := by
  rw [coerce, if_neg htrue, if_neg hfalse, quoted?_eq_none_iff.mpr hquoted,
    number?_eq_none_iff.mpr hnumber, Option.getD_none, ite_self]

/-- A token denotes something. -/
theorem exists_denotes (token : String) : ∃ v, Denotes token v := by
  by_cases htrue : token = "true"
  · exact ⟨_, Denotes.isTrue htrue⟩
  by_cases hfalse : token = "false"
  · exact ⟨_, Denotes.isFalse hfalse⟩
  by_cases hquoted : IsQuoted token
  · obtain ⟨s, hne, htext⟩ := hquoted
    exact ⟨_, Denotes.quoted hne htext⟩
  cases hnumber : number? token with
  | some v => exact ⟨v, Denotes.number (number?_eq_some_iff.mp hnumber)⟩
  | none => exact ⟨_, Denotes.bare htrue hfalse (number?_eq_none_iff.mp hnumber) hquoted⟩

theorem coerce_of_denotes {token : String} {v : Value} (h : Denotes token v) : coerce token = v := by
  cases h with
  | isTrue htext => rw [coerce, if_pos htext]
  | isFalse htext =>
    rw [htext]
    rfl
  | number htext => exact coerce_of_isNumberText htext
  | quoted hne htext => exact coerce_of_quoted hne htext
  | bare htrue hfalse hnumber hquoted => exact coerce_of_bare htrue hfalse hnumber hquoted

/-- **What a token denotes can be read back.** -/
theorem coerce_eq_iff_denotes (token : String) (v : Value) : coerce token = v ↔ Denotes token v := by
  constructor
  · rintro rfl
    obtain ⟨v, hv⟩ := exists_denotes token
    rwa [coerce_of_denotes hv]
  · exact coerce_of_denotes

/-- Zeros count for nothing behind a fraction, but they do in front of a number. -/
example : coerce "10.50" = .double ⟨false, 4622100592565682176⟩ ∧ coerce "0010" = .string "0010" := by
  decide +kernel

end QueryPipeline.Literal
