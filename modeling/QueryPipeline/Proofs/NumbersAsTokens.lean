import QueryPipeline.Proofs.Tokens
import QueryPipeline.Proofs.SeventeenDigits

/-!
# Every number has a token

Each whole number of 64 bits and each finite floating-point number is denoted by some token, so that
every one of them can be written in a query.  The token of a floating-point number is its text with
zeros behind the fraction, or with a fraction of zeros if it has none, and any number of zeros will do.

* `Binary64.exists_positional` — the text of a finite number is a row of digits with a point in it;
* `Decimal.mem_positional_iff`, `positional_append_zeros` — when such a row shows its point, and what
  zeros at its end are;
* **`Binary64.read?_of_isPadded`** — a text that is filled up reads as the number it was written for;
* **`Literal.coerce_of_written`** — every number, in every such text.
-/

namespace QueryPipeline

/-! ### Zeros at the end of a row of digits -/

namespace Decimal

section

variable {digits : List Char} {point : Int}

/-- Zeros at the end of the digits do not count, as long as the point stays where it is. -/
theorem rank_ofPoint_append_zeros (digits : List Char) (point : Int) (k : Nat) :
    (ofPoint (digits ++ List.replicate k '0') point).rank = (ofPoint digits point).rank := by
  have hexponent : point - (digits ++ List.replicate k '0').length + k = point - digits.length := by
    rw [List.length_append, List.length_replicate]
    omega
  rw [ofPoint, ofDigitChars_append_zeros, rank_mul_pow, hexponent, ofPoint]

/-- Zeros behind the last digit stand at the end of the text if the point is in front of that digit. -/
theorem positional_append_zeros (hpoint : point < digits.length) (k : Nat) :
    positional (digits ++ List.replicate k '0') point
      = positional digits point ++ List.replicate k '0' := by
  have hlonger : ¬ ((digits ++ List.replicate k '0').length : Int) ≤ point := by
    rw [List.length_append]
    omega
  rw [positional, positional]
  by_cases hfront : point ≤ 0
  · rw [if_pos hfront, if_pos hfront]
    simp only [List.cons_append, List.append_assoc]
  · have hinside : point.toNat ≤ digits.length := by omega
    rw [if_neg hfront, if_neg hfront, if_neg hlonger, if_neg (by omega),
      List.take_append_of_le_length hinside, List.drop_append_of_le_length hinside]
    simp only [List.cons_append, List.append_assoc]

/-- The text of digits shows its point exactly if a digit stands behind it. -/
theorem mem_positional_iff (hdigits : ∀ c ∈ digits, c.isDigit = true) (hne : digits ≠ []) :
    '.' ∈ positional digits point ↔ point < digits.length := by
  have hlength : 0 < digits.length := List.length_pos_iff.mpr hne
  rw [positional]
  split
  · refine ⟨fun _ => by omega, fun _ => ?_⟩
    exact List.mem_cons_of_mem _ List.mem_cons_self
  · split
    · refine ⟨fun hmem => ?_, fun hshort => by omega⟩
      rcases List.mem_append.mp hmem with hmem | hmem
      · exact absurd hmem (not_mem_of_isDigits hdigits)
      · exact absurd (List.eq_of_mem_replicate hmem) (by decide)
    · refine ⟨fun _ => by omega, fun _ => ?_⟩
      exact List.mem_append_right _ List.mem_cons_self

end

end Decimal

/-! ### Texts that are filled up -/

namespace Binary64

open Decimal

variable {x : Binary64}

/-- The text of a finite number is a row of at most seventeen digits with the point somewhere, behind its
sign; zero is the row of one zero. -/
theorem exists_positional (hfinite : x.isFinite = true) :
    ∃ digits point, x.plain = x.sign ++ positional digits point ∧ IsDigits digits
      ∧ digits.length ≤ 17 ∧ (ofPoint digits point).rank = x.rank := by
  have hfits : x.rank < infinityRank := of_decide_eq_true hfinite
  have hnumber : ¬ x.isNaN = true := by
    intro hnan
    have hbeyond : infinityRank < x.rank := of_decide_eq_true hnan
    omega
  rw [plain, if_neg hnumber, if_neg (not_not.mpr hfinite)]
  by_cases hzero : x.rank.val = 0
  · refine ⟨['0'], 1, ?_, ⟨by simp, isDigit_of_mem_replicate 1⟩, by simp, ?_⟩
    · rw [if_pos hzero]
      rfl
    · rw [hzero]
      exact rank_of_digits_eq_zero rfl
  · have hne := significantDigits_ne_nil (digits_shortest_ne_zero .up hzero)
    refine ⟨(shortest .up x.rank).significantDigits, (shortest .up x.rank).point, ?_,
      ⟨hne, isDigit_of_mem_significantDigits⟩, length_significantDigits_shortest_le .up hzero hfits, ?_⟩
    · rw [if_neg hzero]
    · rw [rank_ofPoint, rank_shortest]

/-- **A text that is filled up** with zeros, and shows a point, reads as the number it was written
for. -/
theorem read?_of_isPadded (hfinite : x.isFinite = true) {cs : List Char}
    (hpadded : IsPadded x.plain cs) (hpoint : '.' ∈ cs) : read? cs = some x := by
  obtain ⟨digits, point, htext, ⟨hne, hdigits⟩, -, hrank⟩ := exists_positional hfinite
  have hshows : '.' ∈ x.plain ↔ point < digits.length := by
    rw [htext, List.mem_append, mem_positional_iff hdigits hne]
    exact ⟨fun h => h.resolve_left (point_not_mem_sign x), Or.inr⟩
  cases hpadded with
  | whole hnone => exact absurd hpoint hnone
  | fraction hmem k =>
    -- the zeros are further digits of the row
    have hinside := hshows.mp hmem
    have hmore : ∀ c ∈ digits ++ List.replicate k '0', c.isDigit = true := by
      intro c hc
      exact (List.mem_append.mp hc).elim (hdigits c) (isDigit_of_mem_replicate k c)
    have hreal : IsReal x.rank (positional (digits ++ List.replicate k '0') point) := by
      rw [← hrank, ← rank_ofPoint_append_zeros digits point k]
      apply isReal_positional hmore
      rw [List.length_append]
      omega
    rw [htext, List.append_assoc, ← positional_append_zeros hinside]
    exact read?_sign_append hfinite hreal
  | zeros hnone k =>
    have hwhole : (digits.length : Int) ≤ point := by
      have := mt hshows.mpr hnone
      omega
    rw [htext, List.append_assoc]
    apply read?_sign_append hfinite
    rw [← hrank]
    exact isReal_positional_zeros hdigits hne hwhole (k + 1)

end Binary64

/-! ### Tokens of numbers -/

namespace Literal

open Decimal

/-- A text of a floating-point number that shows a point is no whole number, and denotes the number it
was written for. -/
theorem coerce_of_isPadded {x : Binary64} (hfinite : x.isFinite = true) {token : String}
    (hpadded : IsPadded x.plain token.toList) (hpoint : '.' ∈ token.toList) :
    coerce token = .double x := by
  apply coerce_of_isNumberText
  apply IsNumberText.double hfinite hpadded (Binary64.read?_of_isPadded hfinite hpadded hpoint)
  intro n hn
  exact not_mem_of_isNumeral hn hpoint

/-- The digits of a whole number denote it, in 32 bits if it fits in them. -/
theorem coerce_of_writeInt {token : String} {n : Int64} (h : token.toList = writeInt n.toInt) :
    coerce token = ofInt64 n :=
  coerce_of_isNumberText (isNumberText_ofInt64 h)

theorem ofInt64_of_toInt_eq {n : Int64} {m : Int32} (h : m.toInt = n.toInt) :
    ofInt64 n = .int32 m := by
  have hn : n = m.toInt64 := by
    apply Int64.toInt_inj.mp
    rw [Int32.toInt_toInt64, h]
  rw [hn, ofInt64_of_not_isWide (not_isWide_toInt64 m), Int32.toInt32_toInt64]

/-- **Every number can be written.**  The digits of a whole number of 64 bits denote that number, in 32
bits exactly if some number of 32 bits has its value.  The text of a finite floating-point number, with
any zeros behind its fraction or else with a point and at least one zero, denotes that number, bit for
bit. -/
theorem coerce_of_written :
    (∀ n : Int64,
      (∀ m : Int32, m.toInt = n.toInt → coerce (String.ofList (writeInt n.toInt)) = .int32 m)
        ∧ ((∀ m : Int32, m.toInt ≠ n.toInt) →
          coerce (String.ofList (writeInt n.toInt)) = .int64 n))
      ∧ ∀ x : Binary64, x.isFinite = true → ∀ k,
        ('.' ∈ x.plain →
          coerce (String.ofList (x.plain ++ List.replicate k '0')) = .double x)
        ∧ ('.' ∉ x.plain →
          coerce (String.ofList (x.plain ++ '.' :: List.replicate (k + 1) '0')) = .double x) := by
  refine ⟨fun n => ⟨fun m hm => ?_, fun hwide => ?_⟩, fun x hfinite k => ⟨fun hpoint => ?_,
    fun hpoint => ?_⟩⟩
  · rw [coerce_of_writeInt String.toList_ofList, ofInt64_of_toInt_eq hm]
  · rw [coerce_of_writeInt String.toList_ofList, ofInt64_of_isWide]
    by_contra hnarrow
    exact hwide _ (toInt_toInt32_of_not_isWide hnarrow)
  · apply coerce_of_isPadded hfinite
    · rw [String.toList_ofList]
      exact IsPadded.fraction hpoint k
    · rw [String.toList_ofList]
      exact List.mem_append_left _ hpoint
  · apply coerce_of_isPadded hfinite
    · rw [String.toList_ofList]
      exact IsPadded.zeros hpoint k
    · rw [String.toList_ofList]
      exact List.mem_append_right _ List.mem_cons_self

/-- The least whole number, negative zero, the least number above zero and the greatest finite number. -/
theorem coerce_of_written_extremes :
    coerce (String.ofList "-9223372036854775808".toList) = .int64 Int64.minValue
      ∧ coerce (String.ofList "-2147483648".toList) = .int32 Int32.minValue
      ∧ coerce (String.ofList ("-0".toList ++ '.' :: List.replicate 2 '0')) = .double ⟨true, 0⟩
      ∧ coerce (String.ofList ("0.".toList ++ List.replicate 323 '0' ++ ['5'] ++ List.replicate 7 '0'))
        = .double ⟨false, 1⟩
      ∧ coerce (String.ofList ("17976931348623157".toList ++ List.replicate 292 '0'
          ++ '.' :: List.replicate 1 '0'))
        = .double ⟨false, 9218868437227405311⟩ := by
  obtain ⟨hwhole, hreal⟩ := coerce_of_written
  have hleast : writeInt Int64.minValue.toInt = "-9223372036854775808".toList := by decide +kernel
  have hnarrow : writeInt (-2147483648 : Int64).toInt = "-2147483648".toList := by decide +kernel
  have hzero : Binary64.plain ⟨true, 0⟩ = "-0".toList := by decide +kernel
  have htiny : Binary64.plain ⟨false, 1⟩ = "0.".toList ++ List.replicate 323 '0' ++ ['5'] := by
    decide +kernel
  have hhuge : Binary64.plain ⟨false, 9218868437227405311⟩
      = "17976931348623157".toList ++ List.replicate 292 '0' := by
    decide +kernel
  refine ⟨?_, ?_, ?_, ?_, ?_⟩
  · rw [← hleast]
    refine (hwhole Int64.minValue).2 fun m hm => ?_
    have hbound : Int32.minValue.toInt ≤ m.toInt := Int32.minValue_le_toInt m
    rw [hm] at hbound
    exact absurd hbound (by decide)
  · rw [← hnarrow]
    exact (hwhole (-2147483648)).1 Int32.minValue (by decide)
  · rw [← hzero]
    exact (hreal ⟨true, 0⟩ (by decide) 1).2 (by rw [hzero]; decide)
  · rw [← htiny]
    exact (hreal ⟨false, 1⟩ (by decide) 7).1 (by rw [htiny]; decide)
  · rw [← hhuge]
    exact (hreal ⟨false, 9218868437227405311⟩ (by decide) 0).2 (by rw [hhuge]; decide)

end Literal

end QueryPipeline
