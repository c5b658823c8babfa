import QueryPipeline.Proofs.FiniteRange
import QueryPipeline.Proofs.NumbersAsTokens

/-!
# Whole numbers beyond 64 bits

The digits of a whole number that no word of 64 bits holds are tried as a floating-point number next.  They
denote one exactly if they are its text, which is a matter of the digits and not of how many there are: at
most seventeen of them followed by zeros, and those that the number reads back from.

* `Decimal.exists_readDecimal?_of_isNumeral` — a run of digits read with a point in mind;
* `Binary64.exists_digits_zeros` — the text of a number without a fraction;
* `Binary64.read?_of_whole` — such a text is read back;
* **`Literal.coerce_of_beyond_int64`** — what the digits of a larger whole number denote.
-/

namespace QueryPipeline

/-! ### Runs of digits -/

namespace Decimal

/-- A text is the numeral of one number only. -/
theorem IsNumeral.unique {cs : List Char} {m n : Int} (h : IsNumeral cs m) (h' : IsNumeral cs n) :
    m = n :=
  Option.some.inj ((readInt?_eq_some_iff.mpr h).symm.trans (readInt?_eq_some_iff.mpr h'))

/-- Digits are a numeral without a fraction and without an exponent. -/
theorem isUnsigned_of_isDigits {digits : List Char} (h : IsDigits digits) :
    IsUnsigned digits digits [] [] := by
  refine ⟨Or.inr ⟨(List.append_nil _).symm, rfl⟩, h.2, fun c hc => absurd hc List.not_mem_nil, ?_,
    0, rfl⟩
  rw [List.append_nil]
  exact h.1

theorem readUnsigned?_of_isDigits {digits : List Char} (h : IsDigits digits) :
    readUnsigned? digits = some ⟨Nat.ofDigitChars 10 digits 0, 0⟩ := by
  have hread := readUnsigned?_of_isUnsigned (isUnsigned_of_isDigits h) rfl (by decide) (by decide)
  rwa [List.append_nil] at hread

/-- The numeral of a whole number is read as its digits, whatever its length is. -/
theorem exists_readDecimal?_of_isNumeral {cs : List Char} {n : Int} (h : IsNumeral cs n) :
    ∃ negative, readDecimal? cs = some (negative, ⟨n.natAbs, 0⟩) := by
  cases h with
  | unsigned hdigits =>
    refine ⟨false, ?_⟩
    rw [readDecimal?, splitSign_of_isDigits hdigits]
    simp only [readUnsigned?_of_isDigits hdigits, Option.map_some, Int.natAbs_natCast]
  | plus hdigits =>
    refine ⟨false, ?_⟩
    rw [readDecimal?, splitSign]
    simp only [readUnsigned?_of_isDigits hdigits, Option.map_some, Int.natAbs_natCast]
  | minus hdigits =>
    refine ⟨true, ?_⟩
    rw [readDecimal?, splitSign]
    simp only [readUnsigned?_of_isDigits hdigits, Option.map_some, Int.natAbs_neg, Int.natAbs_natCast]

end Decimal

/-! ### Numbers without a fraction -/

namespace Binary64

open Decimal

variable {x : Binary64}

/-- The text of a finite number without a fraction is a row of at most seventeen digits and zeros behind
them. -/
theorem exists_digits_zeros (hfinite : x.isFinite = true) (hpoint : '.' ∉ x.plain) :
    ∃ digits k, x.plain = x.sign ++ (digits ++ List.replicate k '0') ∧ IsDigits digits
      ∧ digits.length ≤ 17 ∧ Decimal.rank ⟨Nat.ofDigitChars 10 digits 0, k⟩ = x.rank := by
  obtain ⟨digits, point, htext, hdigits, hlength, hrank⟩ := exists_positional hfinite
  have hpositive : 0 < digits.length := List.length_pos_iff.mpr hdigits.1
  have hnone : '.' ∉ positional digits point := by
    intro hmem
    rw [htext] at hpoint
    exact hpoint (List.mem_append_right _ hmem)
  have hwhole : (digits.length : Int) ≤ point := by
    rw [mem_positional_iff hdigits.2 hdigits.1] at hnone
    omega
  have hexponent : ((point.toNat - digits.length : Nat) : Int) = point - digits.length := by
    omega
  refine ⟨digits, point.toNat - digits.length, ?_, hdigits, hlength, ?_⟩
  · rw [htext, positional, if_neg (by omega), if_pos hwhole]
  · rw [hexponent]
    exact hrank

/-- **A number without a fraction** is read back from its text, although that shows no point. -/
theorem read?_of_whole (hfinite : x.isFinite = true) (hpoint : '.' ∉ x.plain) :
    read? x.plain = some x := by
  obtain ⟨digits, k, htext, hdigits, -, hrank⟩ := exists_digits_zeros hfinite hpoint
  have hrow : IsDigits (digits ++ List.replicate k '0') := by
    refine ⟨List.append_ne_nil_of_left_ne_nil hdigits.1 _, fun c hc => ?_⟩
    exact (List.mem_append.mp hc).elim (hdigits.2 c) (isDigit_of_mem_replicate k c)
  rw [htext]
  refine read?_sign_append_of_isUnsigned hfinite (isUnsigned_of_isDigits hrow) hrow.1 rfl (by decide)
    (by decide) ?_
  rw [List.append_nil, List.length_nil, Int.natCast_zero, Int.sub_zero, ofDigitChars_append_zeros,
    rank_mul_pow, Int.zero_add]
  exact hrank

/-- A whole number that is read as a finite number is less than what is rounded to infinity. -/
theorem natAbs_lt_overflow {cs : List Char} {n : Int} (hnumeral : IsNumeral cs n)
    (hread : read? cs = some x) : n.natAbs < overflow := by
  obtain ⟨negative, hdecimal⟩ := exists_readDecimal?_of_isNumeral hnumeral
  rw [read?, hdecimal, Option.bind_some] at hread
  simp only [nearest?] at hread
  split at hread
  · rename_i hfits
    have hplaces : ∀ m : Nat, m * 10 ^ 0 = m := Nat.mul_one
    have hbound := (rank_lt_infinityRank_iff n.natAbs 0).mp hfits
    rwa [hplaces] at hbound
  · cases hread

end Binary64

/-! ### What the digits denote -/

namespace Literal

open Decimal

section

variable {token : String} {n : Int}

/-- Digits of a number that no word holds are the text of no word. -/
theorem not_isNumeral_of_beyond (hnumeral : IsNumeral token.toList n)
    (hbeyond : n < Int64.minValue.toInt ∨ Int64.maxValue.toInt < n) (m : Int64) :
    ¬ IsNumeral token.toList m.toInt := by
  intro hm
  have hsame := hnumeral.unique hm
  have hlow : Int64.minValue.toInt ≤ m.toInt := Int64.minValue_le_toInt m
  have hhigh : m.toInt ≤ Int64.maxValue.toInt := Int64.toInt_le m
  omega

/-- Digits are the text of a floating-point number exactly if they are written for it as they stand. -/
theorem isNumberText_iff_of_beyond (hnumeral : IsNumeral token.toList n)
    (hbeyond : n < Int64.minValue.toInt ∨ Int64.maxValue.toInt < n) (v : Value) :
    IsNumberText token v ↔ ∃ x, v = .double x ∧ x.isFinite = true ∧ token.toList = x.plain := by
  have hpoint : '.' ∉ token.toList := not_mem_of_isNumeral hnumeral
  have hword := not_isNumeral_of_beyond hnumeral hbeyond
  constructor
  · intro h
    cases h with
    | @int32 m htext =>
      refine absurd ?_ (hword m.toInt64)
      rw [htext, Int32.toInt_toInt64]
      exact readInt?_eq_some_iff.mp (readInt?_writeInt m.toInt)
    | @int64 m htext hwide =>
      refine absurd ?_ (hword m)
      rw [htext]
      exact readInt?_eq_some_iff.mp (readInt?_writeInt m.toInt)
    | @double x hfinite htext hread =>
      refine ⟨x, rfl, hfinite, ?_⟩
      generalize token.toList = cs at *
      cases htext with
      | whole => rfl
      | fraction hmem k => exact absurd (List.mem_append_left _ hmem) hpoint
      | zeros hnone k => exact absurd (List.mem_append_right _ List.mem_cons_self) hpoint
  · rintro ⟨x, rfl, hfinite, htext⟩
    rw [htext] at hpoint
    refine IsNumberText.double hfinite ?_ ?_ hword
    · rw [htext]
      exact IsPadded.whole hpoint
    · rw [htext]
      exact Binary64.read?_of_whole hfinite hpoint

/-- Digits that are the text of no number denote themselves. -/
theorem coerce_of_isNumeral (hnumeral : IsNumeral token.toList n)
    (hnumber : ∀ v, ¬ IsNumberText token v) : coerce token = .string token := by
  have hstart : ∀ c cs, token.toList = c :: cs → IsNumeralStart c := by
    intro c cs htoken
    rw [htoken] at hnumeral
    exact isNumeralStart_of_isNumeral hnumeral
  apply coerce_of_bare _ _ hnumber
  · rintro ⟨s, -, rfl⟩
    exact absurd (hstart '\'' (s.toList ++ ['\'']) (by simp)) (by decide)
  · rintro rfl
    exact absurd (hstart 't' _ rfl) (by decide)
  · rintro rfl
    exact absurd (hstart 'f' _ rfl) (by decide)

end

/-- **Whole numbers beyond 64 bits.**  The digits of a whole number that no word of 64 bits holds denote a
floating-point number exactly if they are its text as they stand, and otherwise they are a string.  Those
that do stay below the least number that is rounded to infinity, and are at most seventeen digits with zeros
behind them. -/
theorem coerce_of_beyond_int64 {token : String} {n : Int} (hnumeral : IsNumeral token.toList n)
    (hbeyond : n < Int64.minValue.toInt ∨ Int64.maxValue.toInt < n) :
    (∀ x, coerce token = .double x ↔ x.isFinite = true ∧ token.toList = x.plain)
      ∧ (coerce token = .string token
        ↔ ∀ x : Binary64, x.isFinite = true → token.toList ≠ x.plain)
      ∧ ∀ x, coerce token = .double x → n.natAbs < Binary64.overflow
        ∧ ∃ digits k, token.toList = x.sign ++ (digits ++ List.replicate k '0') ∧ IsDigits digits
          ∧ digits.length ≤ 17 := by
  have htext := isNumberText_iff_of_beyond hnumeral hbeyond
  have hdouble : ∀ x, coerce token = .double x ↔ x.isFinite = true ∧ token.toList = x.plain := by
    intro x
    constructor
    · intro h
      cases (coerce_eq_iff_denotes token _).mp h with
      | number hnumber =>
        obtain ⟨y, hy, hplain⟩ := (htext _).mp hnumber
        cases hy
        exact hplain
    · intro h
      exact coerce_of_isNumberText ((htext _).mpr ⟨x, rfl, h⟩)
  refine ⟨hdouble, ⟨fun h x hfinite hplain => ?_, fun h => ?_⟩, fun x h => ?_⟩
  · rw [(hdouble x).mpr ⟨hfinite, hplain⟩] at h
    cases h
  · apply coerce_of_isNumeral hnumeral
    intro v hv
    obtain ⟨x, -, hfinite, hplain⟩ := (htext v).mp hv
    exact h x hfinite hplain
  · obtain ⟨hfinite, hplain⟩ := (hdouble x).mp h
    have hpoint : '.' ∉ x.plain := by
      rw [← hplain]
      exact not_mem_of_isNumeral hnumeral
    have hread := Binary64.read?_of_whole hfinite hpoint
    obtain ⟨digits, k, hdigits, hrow, hlength, -⟩ := Binary64.exists_digits_zeros hfinite hpoint
    rw [hplain] at hnumeral ⊢
    exact ⟨Binary64.natAbs_lt_overflow hnumeral hread, digits, k, hdigits, hrow, hlength⟩

/-- The least whole number beyond 64 bits is a string, because it has nineteen digits that count; the text
of the number of the same rank has sixteen. -/
theorem coerce_of_beyond_int64_least :
    coerce "9223372036854775808" = .string "9223372036854775808"
      ∧ coerce "9223372036854776000" = .double ⟨false, 4890909195324358656⟩ := by
  have hleast : IsNumeral "9223372036854775808".toList 9223372036854775808 :=
    readInt?_eq_some_iff.mp (by decide +kernel)
  have hround : IsNumeral "9223372036854776000".toList 9223372036854776000 :=
    readInt?_eq_some_iff.mp (by decide +kernel)
  constructor
  · obtain ⟨hdouble, hstring, hdigits⟩ := coerce_of_beyond_int64 hleast (Or.inr (by decide))
    refine hstring.mpr fun x hfinite hplain => ?_
    obtain ⟨-, digits, k, htext, -, hlength⟩ := hdigits x ((hdouble x).mpr ⟨hfinite, hplain⟩)
    have hsign : x.sign.length ≤ 1 := by
      rw [Binary64.sign]
      split <;> decide
    cases k with
    | zero =>
      have hsize := congrArg List.length htext
      rw [List.length_append, List.length_append, List.length_replicate] at hsize
      have hnineteen : "9223372036854775808".toList.length = 19 := by decide
      omega
    | succ k =>
      rw [List.replicate_succ', ← List.append_assoc, ← List.append_assoc] at htext
      have hlast := congrArg List.getLast? htext
      rw [List.getLast?_concat] at hlast
      exact absurd hlast (by decide)
  · apply ((coerce_of_beyond_int64 hround (Or.inr (by decide))).1 _).mpr
    decide +kernel

/-- Two whole numbers of 21 digits: one denotes a floating-point number, and its neighbour a string. -/
theorem coerce_beyond_int64_by_digits :
    IsNumeral "100000000000000000000".toList 100000000000000000000
      ∧ Int64.maxValue.toInt < 100000000000000000000
      ∧ coerce "100000000000000000000" ≠ .string "100000000000000000000"
      ∧ coerce "100000000000000000001" = .string "100000000000000000001" := by
  refine ⟨readInt?_eq_some_iff.mp ?_, ?_, ?_, ?_⟩
  · decide +kernel
  · decide
  · decide +kernel
  · decide +kernel

end Literal

end QueryPipeline
