import QueryPipeline.Decimal.Numeral

/-!
# The texts of whole numbers

Which texts are read as whole numbers of 64 bits, and as which: an optional sign and at least one digit,
of any length, as long as the number fits.

* `Decimal.IsDigits`, **`Decimal.IsNumeral`** — the grammar of whole numbers;
* **`Decimal.readInt64?_eq_some_iff`** — a word is read exactly from the numerals of its value.
-/

namespace QueryPipeline.Decimal

/-! ### The grammar -/

/-- A run of ASCII digits, at least one. -/
def IsDigits (cs : List Char) : Prop :=
  cs ≠ [] ∧ ∀ c ∈ cs, c.isDigit = true

instance (cs : List Char) : Decidable (IsDigits cs) :=
  decidable_of_iff ((! cs.isEmpty && cs.all Char.isDigit) = true) (by simp [IsDigits])

/-- A numeral of a whole number: digits, behind at most one sign. -/
inductive IsNumeral : List Char → Int → Prop
  | unsigned {digits : List Char} (h : IsDigits digits) :
    IsNumeral digits (Nat.ofDigitChars 10 digits 0)
  | plus {digits : List Char} (h : IsDigits digits) :
    IsNumeral ('+' :: digits) (Nat.ofDigitChars 10 digits 0)
  | minus {digits : List Char} (h : IsDigits digits) :
    IsNumeral ('-' :: digits) (-(Nat.ofDigitChars 10 digits 0 : Int))

/-! ### Reading numerals -/

theorem readNat?_eq_some_iff {cs : List Char} {n : Nat} :
    readNat? cs = some n ↔ IsDigits cs ∧ Nat.ofDigitChars 10 cs 0 = n := by
  have hdigits : (cs ≠ [] ∧ cs.all Char.isDigit) ↔ IsDigits cs := by
    rw [IsDigits, List.all_eq_true]
  rw [readNat?, ← hdigits]
  by_cases h : cs ≠ [] ∧ cs.all Char.isDigit
  · rw [if_pos h, Option.some.injEq]
    exact ⟨fun hn => ⟨h, hn⟩, fun hn => hn.2⟩
  · rw [if_neg h]
    exact ⟨fun hn => absurd hn (Option.some_ne_none n).symm, fun hn => absurd hn.1 h⟩

/-- Digits have no sign in front of them. -/
theorem splitSign_of_isDigits {digits : List Char} (h : IsDigits digits) :
    splitSign digits = (false, digits) := by
  obtain ⟨hne, hdigits⟩ := h
  cases digits with
  | nil => exact absurd rfl hne
  | cons c rest => exact splitSign_of_isDigit (hdigits c List.mem_cons_self)

/-- Taking a sign off leaves the text behind a minus, behind a plus, or the text as it is. -/
theorem splitSign_cases (cs : List Char) :
    (∃ rest, cs = '-' :: rest ∧ splitSign cs = (true, rest))
      ∨ (∃ rest, cs = '+' :: rest ∧ splitSign cs = (false, rest))
      ∨ splitSign cs = (false, cs) := by
  rw [splitSign.eq_def]
  split
  · exact Or.inl ⟨_, rfl, rfl⟩
  · exact Or.inr (Or.inl ⟨_, rfl, rfl⟩)
  · exact Or.inr (Or.inr rfl)

/-- Once the sign is off, digits have to be left, and the sign decides about their number. -/
theorem readInt?_eq_some_iff_of_splitSign {cs digits : List Char} {negative : Bool} {n : Int}
    (h : splitSign cs = (negative, digits)) :
    readInt? cs = some n
      ↔ IsDigits digits ∧ n = if negative then -(Nat.ofDigitChars 10 digits 0 : Int)
          else (Nat.ofDigitChars 10 digits 0 : Int) := by
  rw [readInt?, h]
  show (readNat? digits).map _ = some n ↔ _
  rw [Option.map_eq_some_iff]
  refine ⟨fun hn => ?_, fun hn => ?_⟩
  · obtain ⟨m, hm, rfl⟩ := hn
    obtain ⟨hdigits, rfl⟩ := readNat?_eq_some_iff.mp hm
    exact ⟨hdigits, rfl⟩
  · exact ⟨_, readNat?_eq_some_iff.mpr ⟨hn.1, rfl⟩, hn.2.symm⟩

/-- A whole number is read exactly from its numerals. -/
theorem readInt?_eq_some_iff {cs : List Char} {n : Int} :
    readInt? cs = some n ↔ IsNumeral cs n := by
  refine ⟨fun h => ?_, fun h => ?_⟩
  · obtain ⟨rest, rfl, hsign⟩ | ⟨rest, rfl, hsign⟩ | hsign := splitSign_cases cs
    · obtain ⟨hdigits, rfl⟩ := (readInt?_eq_some_iff_of_splitSign hsign).mp h
      exact IsNumeral.minus hdigits
    · obtain ⟨hdigits, rfl⟩ := (readInt?_eq_some_iff_of_splitSign hsign).mp h
      exact IsNumeral.plus hdigits
    · obtain ⟨hdigits, rfl⟩ := (readInt?_eq_some_iff_of_splitSign hsign).mp h
      exact IsNumeral.unsigned hdigits
  · cases h with
    | unsigned hdigits =>
      exact (readInt?_eq_some_iff_of_splitSign (splitSign_of_isDigits hdigits)).mpr ⟨hdigits, rfl⟩
    | plus hdigits => exact (readInt?_eq_some_iff_of_splitSign rfl).mpr ⟨hdigits, rfl⟩
    | minus hdigits => exact (readInt?_eq_some_iff_of_splitSign rfl).mpr ⟨hdigits, rfl⟩

/-- A whole number fits in 64 bits exactly if some word has its value. -/
theorem int64?_eq_some_iff {n : Int} {word : Int64} : int64? n = some word ↔ word.toInt = n := by
  rw [int64?]
  by_cases h : Int64.minValue.toInt ≤ n ∧ n ≤ Int64.maxValue.toInt
  · rw [if_pos h, Option.some.injEq]
    refine ⟨fun hword => ?_, fun hword => ?_⟩
    · rw [← hword]
      exact Int64.toInt_ofInt_of_le h.1 (Int.lt_add_one_of_le h.2)
    · rw [← hword, Int64.ofInt_toInt]
  · rw [if_neg h]
    refine ⟨fun hword => ?_, fun hword => ?_⟩
    · cases hword
    · rw [← hword] at h
      exact absurd ⟨Int64.minValue_le_toInt word, Int64.toInt_le word⟩ h

/-- **A word is read exactly from the numerals of its value.** -/
theorem readInt64?_eq_some_iff {cs : List Char} {word : Int64} :
    readInt64? cs = some word ↔ IsNumeral cs word.toInt := by
  rw [readInt64?, Option.bind_eq_some_iff]
  refine ⟨fun h => ?_, fun h => ?_⟩
  · obtain ⟨n, hread, hword⟩ := h
    rw [int64?_eq_some_iff.mp hword]
    exact readInt?_eq_some_iff.mp hread
  · exact ⟨word.toInt, readInt?_eq_some_iff.mpr h, int64?_eq_some_iff.mpr rfl⟩

/-- Some word of at least `least` is read exactly from the numerals of the numbers between `least` and
the greatest word. -/
theorem exists_readInt64?_iff {cs : List Char} {least : Int} (hleast : 0 ≤ least) :
    (∃ word, readInt64? cs = some word ∧ least ≤ word.toInt)
      ↔ ∃ n, IsNumeral cs n ∧ least ≤ n ∧ n ≤ 9223372036854775807 := by
  refine ⟨fun h => ?_, fun h => ?_⟩
  · obtain ⟨word, hread, hword⟩ := h
    exact ⟨word.toInt, readInt64?_eq_some_iff.mp hread, hword, Int64.toInt_le word⟩
  · obtain ⟨n, hn, hlow, hhigh⟩ := h
    have hfits : (Int64.ofInt n).toInt = n := by
      apply Int64.toInt_ofInt_of_le
      · omega
      · omega
    refine ⟨Int64.ofInt n, readInt64?_eq_some_iff.mpr ?_, ?_⟩
    · rw [hfits]
      exact hn
    · rw [hfits]
      exact hlow

end QueryPipeline.Decimal
