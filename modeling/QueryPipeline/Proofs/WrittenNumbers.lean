import Mathlib.Data.List.TakeWhile
import Mathlib.Tactic.Ring
import QueryPipeline.Proofs.DecimalTexts

/-!
# Numbers that are written are read back

The text of a finite number always has a point or an exponent, and a reader of numerals finds exactly
that number in it, with its sign, although the text has only as many digits as it needs.

* `Decimal.rank_ofPoint` — the digits without the zeros at their end, and the place of the point, are all
  that counts for the rank of a decimal;
* `Decimal.RealParts`, `Decimal.IsReal` — the texts of a rank, by their parts;
* `Decimal.isReal_positional`, `isReal_positional_zeros`, `isReal_scientific` — the three layouts are such
  texts;
* `Binary64.point_shortest`, `expansionLength_bounds` — the exponent of a shortest decimal is one that is
  never cut short;
* **`Binary64.read?_json`** — what is written is read back.
-/

namespace QueryPipeline

/-! ### The front of a text -/

section

variable {p : Char → Bool} {front rest : List Char}

theorem takeWhile_append_of_head? (hfront : ∀ c ∈ front, p c = true)
    (hrest : ∀ c ∈ rest.head?, p c = false) : (front ++ rest).takeWhile p = front := by
  rw [List.takeWhile_append_of_pos hfront]
  cases rest with
  | nil => exact List.append_nil _
  | cons c rest =>
    have hc : ¬ p c = true := by simpa using hrest c rfl
    rw [List.takeWhile_cons_of_neg hc, List.append_nil]

theorem dropWhile_append_of_head? (hfront : ∀ c ∈ front, p c = true)
    (hrest : ∀ c ∈ rest.head?, p c = false) : (front ++ rest).dropWhile p = rest := by
  rw [List.dropWhile_append_of_pos hfront]
  cases rest with
  | nil => rfl
  | cons c rest =>
    have hc : ¬ p c = true := by simpa using hrest c rfl
    rw [List.dropWhile_cons_of_neg hc]

end

/-! ### Decimals of one value -/

/-- Quotients of one value have one nearest rank. -/
theorem Binary64.nearestRank_of_mul_eq {n d n' d' : Nat} (hd : 0 < d) (hd' : 0 < d')
    (h : n * d' = n' * d) : nearestRank n d = nearestRank n' d' := by
  rw [← nearestRank_mul n d d' hd', ← nearestRank_mul n' d' d hd, h, Nat.mul_comm d d']

namespace Decimal

/-- Zeros behind the digits count for nothing, once the exponent makes up for them. -/
theorem rank_mul_pow (m k : Nat) (e : Int) :
    Decimal.rank ⟨m * Nat.pow 10 k, e⟩ = Decimal.rank ⟨m, e + k⟩ := by
  have hpow : Nat.pow 10 k * Nat.pow 10 e.toNat * Nat.pow 10 (-(e + k)).toNat
      = Nat.pow 10 (e + k).toNat * Nat.pow 10 (-e).toNat := by
    simp only [Nat.pow_eq, ← Nat.pow_add]
    congr 1
    omega
  -- either exponent may be negative, and then its power stands in the denominator
  rw [Decimal.rank, Decimal.rank]
  apply Binary64.nearestRank_of_mul_eq (Nat.pow_pos (by decide)) (Nat.pow_pos (by decide))
  rw [Nat.shiftLeft_eq, Nat.shiftLeft_eq]
  generalize 2 ^ Binary64.unitPlaces = unit
  calc m * Nat.pow 10 k * Nat.pow 10 e.toNat * unit * Nat.pow 10 (-(e + k)).toNat
      = m * unit * (Nat.pow 10 k * Nat.pow 10 e.toNat * Nat.pow 10 (-(e + k)).toNat) := by ring
    _ = m * unit * (Nat.pow 10 (e + k).toNat * Nat.pow 10 (-e).toNat) := by rw [hpow]
    _ = m * Nat.pow 10 (e + k).toNat * unit * Nat.pow 10 (-e).toNat := by ring

/-- The number of digits with the point behind the first `point` of them. -/
def ofPoint (digits : List Char) (point : Int) : Decimal :=
  ⟨Nat.ofDigitChars 10 digits 0, point - digits.length⟩

theorem ofDigitChars_append_zeros (digits : List Char) (k : Nat) :
    Nat.ofDigitChars 10 (digits ++ List.replicate k '0') 0
      = Nat.ofDigitChars 10 digits 0 * Nat.pow 10 k := by
  rw [Nat.ofDigitChars_append, Nat.ofDigitChars_eq_ofDigitChars_zero, ofDigitChars_replicate_zero,
    List.length_replicate, Nat.add_zero, Nat.mul_comm]
  rfl

theorem ofDigitChars_zeros_append (k : Nat) (digits : List Char) :
    Nat.ofDigitChars 10 (List.replicate k '0' ++ digits) 0 = Nat.ofDigitChars 10 digits 0 := by
  rw [Nat.ofDigitChars_append, ofDigitChars_replicate_zero]

/-- The digits without the zeros at their end, and the place of the point, are all that counts. -/
theorem rank_ofPoint (d : Decimal) : (ofPoint d.significantDigits d.point).rank = d.rank := by
  obtain ⟨k, hk⟩ := Literal.exists_append_replicate '0' (Nat.toDigits 10 d.digits)
  replace hk : Nat.toDigits 10 d.digits = d.significantDigits ++ List.replicate k '0' := hk
  have hdigits : d.digits = Nat.ofDigitChars 10 d.significantDigits 0 * Nat.pow 10 k := by
    rw [← ofDigitChars_append_zeros, ← hk, Nat.ofDigitChars_ten_toDigits]
  have hlength : (Nat.toDigits 10 d.digits).length = d.significantDigits.length + k := by
    rw [hk, List.length_append, List.length_replicate]
  have hexponent : d.point - d.significantDigits.length = d.exponent + k := by
    rw [point, hlength]
    omega
  obtain ⟨digits, exponent⟩ := d
  rw [ofPoint, hexponent, ← rank_mul_pow, ← hdigits]

/-! ### Numerals by their parts -/

/-- The parts of a numeral are found again, if its exponent is not cut short. -/
theorem readUnsigned?_of_isUnsigned {cs whole fraction tail : List Char}
    (h : IsUnsigned cs whole fraction tail) {e : Int} (he : readExponent? tail = some e)
    (hlow : -400 ≤ e) (hhigh : e ≤ 400) :
    readUnsigned? cs
      = some ⟨Nat.ofDigitChars 10 (whole ++ fraction) 0, e - fraction.length⟩ := by
  have htail : ∀ c ∈ tail.head?, c.isDigit = false ∧ c ≠ '.' := by
    intro c hc
    obtain rfl | ⟨mark, rest, rfl, rfl | rfl, -⟩ := readExponent?_cases he
    · cases hc
    · cases hc
      decide
    · cases hc
      decide
  have hdigit : ∀ c ∈ tail.head?, c.isDigit = false := fun c hc => (htail c hc).1
  have hwhole : cs.takeWhile Char.isDigit = whole := by
    obtain hcs | ⟨hcs, -⟩ := h.parts
    · rw [hcs, takeWhile_append_of_head? h.whole_isDigit (by simp)]
    · rw [hcs, takeWhile_append_of_head? h.whole_isDigit hdigit]
  have hcut : max (-((whole ++ fraction).length + 400 : Int))
      (min ((whole ++ fraction).length + 400 : Int) e) = e := by omega
  rw [readUnsigned?.eq_def]
  split
  rename_i fraction' tail' hparts
  have hsame : fraction' = fraction ∧ tail' = tail := by
    obtain hcs | ⟨hcs, hnone⟩ := h.parts
    · rw [hcs, dropWhile_append_of_head? h.whole_isDigit (by simp)] at hparts
      simp only [takeWhile_append_of_head? h.fraction_isDigit hdigit,
        dropWhile_append_of_head? h.fraction_isDigit hdigit, Prod.mk.injEq] at hparts
      exact ⟨hparts.1.symm, hparts.2.symm⟩
    · rw [hcs, dropWhile_append_of_head? h.whole_isDigit hdigit] at hparts
      split at hparts
      · exact absurd rfl (htail '.' rfl).2
      · cases hparts
        exact ⟨hnone.symm, rfl⟩
  obtain ⟨rfl, rfl⟩ := hsame
  simp only [hwhole, h.digits_ne_nil, if_false, he, Option.map_some]
  rw [hcut]

/-! ### Texts of a rank -/

/-- The parts of a numeral without a sign that starts with a digit, has a point or an exponent, and has a
value of the given rank.  Its exponent is small enough to be read as it is. -/
structure RealParts (rank : Nat) (cs whole fraction tail : List Char) (e : Int) : Prop where
  parts : IsUnsigned cs whole fraction tail
  whole_ne_nil : whole ≠ []
  marked : '.' ∈ cs ∨ tail ≠ []
  exponent : readExponent? tail = some e
  exponent_ge : -400 ≤ e
  exponent_le : e ≤ 400
  rank_eq : Decimal.rank ⟨Nat.ofDigitChars 10 (whole ++ fraction) 0, e - fraction.length⟩ = rank

/-- A text of a rank that no whole number has. -/
def IsReal (rank : Nat) (cs : List Char) : Prop :=
  ∃ whole fraction tail e, RealParts rank cs whole fraction tail e

/-- A numeral with a point and without an exponent. -/
theorem isReal_fraction {whole fraction : List Char} (hwhole : ∀ c ∈ whole, c.isDigit = true)
    (hne : whole ≠ []) (hfraction : ∀ c ∈ fraction, c.isDigit = true) :
    IsReal (Decimal.rank ⟨Nat.ofDigitChars 10 (whole ++ fraction) 0, -fraction.length⟩)
      (whole ++ '.' :: fraction) := by
  refine ⟨whole, fraction, [], 0, ⟨?_, hwhole, hfraction, ?_, 0, rfl⟩, hne, ?_, rfl, by decide,
    by decide, ?_⟩
  · rw [List.append_nil]
    exact Or.inl rfl
  · simp [hne]
  · exact Or.inl (List.mem_append_right _ List.mem_cons_self)
  · rw [Int.zero_sub]

/-- A numeral with digits in front of its point starts with one of them. -/
theorem IsUnsigned.exists_cons {cs whole fraction tail : List Char}
    (h : IsUnsigned cs whole fraction tail) (hne : whole ≠ []) :
    ∃ c rest, cs = c :: rest ∧ c.isDigit = true := by
  obtain ⟨c, more, rfl⟩ := List.exists_cons_of_ne_nil hne
  have hc : c.isDigit = true := h.whole_isDigit c List.mem_cons_self
  obtain hcs | ⟨hcs, -⟩ := h.parts
  · exact ⟨c, _, hcs, hc⟩
  · exact ⟨c, _, hcs, hc⟩

section

variable {digits : List Char} {point : Int}

theorem isDigit_of_mem_replicate (k : Nat) : ∀ c ∈ List.replicate k '0', c.isDigit = true :=
  fun _ hc => List.eq_of_mem_replicate hc ▸ rfl

/-- A text with digits behind its point. -/
theorem isReal_positional (hdigits : ∀ c ∈ digits, c.isDigit = true)
    (hpoint : point < digits.length) :
    IsReal (ofPoint digits point).rank (positional digits point) := by
  rw [positional]
  split
  · have hfraction : ∀ c ∈ List.replicate (-point).toNat '0' ++ digits, c.isDigit = true := by
      intro c hc
      exact (List.mem_append.mp hc).elim (isDigit_of_mem_replicate _ c) (hdigits c)
    have hnumeral := isReal_fraction (isDigit_of_mem_replicate 1) (by decide) hfraction
    have hvalue : Nat.ofDigitChars 10
          (List.replicate 1 '0' ++ (List.replicate (-point).toNat '0' ++ digits)) 0
        = Nat.ofDigitChars 10 digits 0 := by
      rw [ofDigitChars_zeros_append, ofDigitChars_zeros_append]
    have hexponent : -((List.replicate (-point).toNat '0' ++ digits).length : Int)
        = point - digits.length := by
      rw [List.length_append, List.length_replicate]
      omega
    rwa [hvalue, hexponent] at hnumeral
  · rename_i hpositive
    rw [if_neg (by omega)]
    have htake : ∀ c ∈ digits.take point.toNat, c.isDigit = true :=
      fun c hc => hdigits c (List.mem_of_mem_take hc)
    have hdrop : ∀ c ∈ digits.drop point.toNat, c.isDigit = true :=
      fun c hc => hdigits c (List.mem_of_mem_drop hc)
    have hne : digits.take point.toNat ≠ [] := by
      intro hnil
      have hlength := congrArg List.length hnil
      rw [List.length_take, List.length_nil] at hlength
      omega
    have hnumeral := isReal_fraction htake hne hdrop
    have hexponent : -((digits.drop point.toNat).length : Int) = point - digits.length := by
      rw [List.length_drop]
      omega
    rwa [List.take_append_drop, hexponent] at hnumeral

/-- A whole number in front of a point and zeros. -/
theorem isReal_positional_zeros (hdigits : ∀ c ∈ digits, c.isDigit = true) (hne : digits ≠ [])
    (hpoint : digits.length ≤ point) (k : Nat) :
    IsReal (ofPoint digits point).rank
      (positional digits point ++ '.' :: List.replicate k '0') := by
  have hpositive : ¬ point ≤ 0 := by
    have := List.length_pos_iff.mpr hne
    omega
  rw [positional, if_neg hpositive, if_pos hpoint]
  have hwhole : ∀ c ∈ digits ++ List.replicate (point.toNat - digits.length) '0', c.isDigit = true := by
    intro c hc
    exact (List.mem_append.mp hc).elim (hdigits c) (isDigit_of_mem_replicate _ c)
  have hnumeral := isReal_fraction hwhole (by simp [hne]) (isDigit_of_mem_replicate k)
  have hexponent : -((List.replicate k '0').length : Int) + k
      + ((point.toNat - digits.length : Nat) : Int) = point - digits.length := by
    rw [List.length_replicate]
    omega
  rwa [ofDigitChars_append_zeros, rank_mul_pow, ofDigitChars_append_zeros, rank_mul_pow,
    hexponent] at hnumeral

theorem readExponent?_of_int (e : Int) :
    readExponent? ('e' :: (if e < 0 then '-' else '+') :: Nat.toDigits 10 e.natAbs) = some e := by
  rw [readExponent?, if_pos (Or.inl rfl), readInt?_eq_some_iff]
  have hdigits : IsDigits (Nat.toDigits 10 e.natAbs) :=
    ⟨Nat.toDigits_ne_nil, List.all_eq_true.mp (all_isDigit_toDigits _)⟩
  split
  · have hvalue : e = -(Nat.ofDigitChars 10 (Nat.toDigits 10 e.natAbs) 0 : Int) := by
      rw [Nat.ofDigitChars_ten_toDigits]
      omega
    have hminus := IsNumeral.minus hdigits
    rwa [← hvalue] at hminus
  · have hvalue : e = (Nat.ofDigitChars 10 (Nat.toDigits 10 e.natAbs) 0 : Int) := by
      rw [Nat.ofDigitChars_ten_toDigits]
      omega
    have hplus := IsNumeral.plus hdigits
    rwa [← hvalue] at hplus

/-- A text with a power of ten behind its first digits. -/
theorem isReal_scientific (hdigits : ∀ c ∈ digits, c.isDigit = true) (hne : digits ≠ [])
    (hlow : -399 ≤ point) (hhigh : point ≤ 401) :
    IsReal (ofPoint digits point).rank (scientific digits point) := by
  have hexponent := readExponent?_of_int (point - 1)
  match digits, hne with
  | [first], _ =>
    refine ⟨[first], [], _, point - 1, ⟨Or.inr ⟨rfl, rfl⟩, hdigits, ?_, by simp, _, hexponent⟩, by simp,
      Or.inr (List.cons_ne_nil _ _), hexponent, by omega, by omega, ?_⟩
    · exact fun c hc => absurd hc List.not_mem_nil
    · rw [List.append_nil, List.length_nil, Int.natCast_zero, Int.sub_zero]
      rfl
  | first :: second :: rest, _ =>
    refine ⟨[first], second :: rest, _, point - 1, ⟨Or.inl rfl, ?_, ?_, by simp, _, hexponent⟩, by simp,
      Or.inr (List.cons_ne_nil _ _), hexponent, by omega, by omega, ?_⟩
    · exact fun c hc => hdigits c (List.mem_cons.mpr (Or.inl (List.mem_singleton.mp hc)))
    · exact fun c hc => hdigits c (List.mem_cons_of_mem _ hc)
    · have hlength : point - 1 - ((second :: rest).length : Int)
          = point - ((first :: second :: rest).length : Int) := by
        simp only [List.length_cons]
        omega
      rw [ofPoint, ← hlength, List.singleton_append]

end

end Decimal

/-! ### Where the point of a shortest decimal stands -/

namespace Binary64

/-- A number that drops some of its digits is left with the others. -/
theorem div_pow_lt_of_length {n places : Nat} (hplaces : places < (Nat.toDigits 10 n).length) :
    n / Nat.pow 10 places < 10 ^ ((Nat.toDigits 10 n).length - places) := by
  generalize hlength : (Nat.toDigits 10 n).length = length at *
  have hn : n < 10 ^ length :=
    (Nat.length_toDigits_le_iff (by decide) (Nat.zero_lt_of_lt hplaces)).mp (Nat.le_of_eq hlength)
  have hpow : 10 ^ length = 10 ^ places * 10 ^ (length - places) := by
    rw [← Nat.pow_add]
    congr 1
    omega
  rw [hpow] at hn
  exact Nat.div_lt_of_lt_mul hn

/-- A decimal near an exact one has as many digits in front of its point, give or take one. -/
theorem length_toDigits_neighbour_le {n m places : Nat} (hplaces : places < (Nat.toDigits 10 n).length)
    (hm : m ≤ n / Nat.pow 10 places + 1) :
    (Nat.toDigits 10 m).length + places ≤ (Nat.toDigits 10 n).length + 1 := by
  have hquotient := div_pow_lt_of_length hplaces
  generalize (Nat.toDigits 10 n).length = length at *
  have hmore : 10 ^ (length - places) < 10 ^ (length - places + 1) :=
    Nat.pow_lt_pow_succ (by decide)
  have hdigits : (Nat.toDigits 10 m).length ≤ length - places + 1 :=
    (Nat.length_toDigits_le_iff (by decide) (Nat.succ_pos _)).mpr (by omega)
  omega

/-- The candidates for a number of digits are the neighbours of the exact decimal. -/
theorem neighbour_of_shorten? {tie : Tie} {rank : Nat} {exact d : Decimal} {places : Nat}
    (h : shorten? tie rank exact places = some d) :
    d.digits ≤ exact.digits / Nat.pow 10 places + 1 ∧ d.exponent = exact.exponent + places := by
  have hmem := List.mem_of_find?_eq_some h
  split at hmem
  all_goals
    simp only [List.mem_cons, List.not_mem_nil, or_false] at hmem
    obtain rfl | rfl := hmem
  · exact ⟨Nat.le_succ _, rfl⟩
  · exact ⟨Nat.le_refl _, rfl⟩
  · exact ⟨Nat.le_refl _, rfl⟩
  · exact ⟨Nat.le_succ _, rfl⟩

/-- The number of digits of the exact value of a rank. -/
def expansionLength (rank : Nat) : Nat :=
  (Nat.toDigits 10 (expansion rank).digits).length

/-- The shortest decimal is a candidate for some number of digits, or else the exact value, if there is
none. -/
theorem shortest_cases (tie : Tie) (rank : Nat) :
    (∃ n < 17, shorten? tie rank (expansion rank) (expansionLength rank - (n + 1))
        = some (shortest tie rank))
      ∨ (∀ n < 17, shorten? tie rank (expansion rank) (expansionLength rank - (n + 1)) = none)
        ∧ shortest tie rank = expansion rank := by
  rw [shortest.eq_def]
  simp only
  rw [← expansionLength]
  cases hfound : (List.range 17).findSome? fun n =>
      shorten? tie rank (expansion rank) (expansionLength rank - (n + 1)) with
  | none =>
    exact Or.inr ⟨fun n hn => List.findSome?_eq_none_iff.mp hfound n (List.mem_range.mpr hn), rfl⟩
  | some d =>
    obtain ⟨n, hn, hshorten⟩ := List.exists_of_findSome?_eq_some hfound
    exact Or.inl ⟨n, List.mem_range.mp hn, hshorten⟩

/-- The point of a shortest decimal stands where that of the exact value stands, but for the digits that
are kept and for a carry into a new one. -/
theorem point_shortest (tie : Tie) (rank : Nat) :
    expansionLength rank ≤ (shortest tie rank).point + 1090
      ∧ (shortest tie rank).point + 1073 ≤ expansionLength rank := by
  have hlength : ∀ n, 0 < (Nat.toDigits 10 n).length :=
    fun n => List.length_pos_iff.mpr Nat.toDigits_ne_nil
  obtain ⟨n, hn, hshorten⟩ | ⟨-, hexact⟩ := shortest_cases tie rank
  · obtain ⟨hdigits, hexponent⟩ := neighbour_of_shorten? hshorten
    have hunit : (expansion rank).exponent = -1074 := rfl
    have hpositive : 0 < expansionLength rank := hlength _
    have hkept := hlength (shortest tie rank).digits
    have hbound : (Nat.toDigits 10 (shortest tie rank).digits).length
        + (expansionLength rank - (n + 1)) ≤ expansionLength rank + 1 :=
      length_toDigits_neighbour_le (Nat.sub_lt hpositive (Nat.succ_pos n)) hdigits
    rw [Decimal.point, hexponent, hunit]
    omega
  · have hpoint : (expansion rank).point = expansionLength rank + -1074 := rfl
    rw [hexact, hpoint]
    omega

theorem significand_lt (rank : Nat) : significand rank < 2 ^ 53 := by
  have hbinade : 2 ^ 53 = 2 * binade := rfl
  have hmod : rank % binade < binade := Nat.mod_lt rank (by decide)
  rw [significand, hbinade]
  split
  · omega
  · omega

theorem magnitude_lt {rank places : Nat} (h : scale rank ≤ places) :
    magnitude rank < 2 ^ (53 + places) := by
  calc magnitude rank = significand rank * 2 ^ scale rank := Nat.shiftLeft_eq _ _
    _ < 2 ^ 53 * 2 ^ scale rank := Nat.mul_lt_mul_of_pos_right (significand_lt rank) (Nat.two_pow_pos _)
    _ ≤ 2 ^ 53 * 2 ^ places := Nat.mul_le_mul_left _ (Nat.pow_le_pow_right (by decide) h)
    _ = 2 ^ (53 + places) := (Nat.pow_add 2 53 places).symm

theorem magnitude_pos {rank : Nat} (h : rank ≠ 0) : 0 < magnitude rank := by
  rw [magnitude, Nat.shiftLeft_eq]
  apply Nat.mul_pos _ (Nat.two_pow_pos _)
  rw [significand]
  split
  · exact Nat.pos_of_ne_zero h
  · exact Nat.lt_of_lt_of_le (by decide) (Nat.le_add_right binade _)

theorem scale_le {rank : Nat} (h : rank < infinityRank) : scale rank ≤ 2045 := by
  rw [infinityRank, Nat.mul_comm] at h
  have hquotient : rank / binade < 2047 := Nat.div_lt_of_lt_mul h
  rw [scale]
  omega

/-- How long a product is, from bounds for its factors. -/
theorem length_toDigits_mul_bounds {m factor bound low high : Nat} (hpos : 0 < m) (hlt : m < bound)
    (hlow : 10 ^ low ≤ factor) (hhigh : bound * factor ≤ 10 ^ high) (hl : 0 < low) (hh : 0 < high) :
    low < (Nat.toDigits 10 (m * factor)).length ∧ (Nat.toDigits 10 (m * factor)).length ≤ high := by
  have hfactor : 0 < factor := Nat.lt_of_lt_of_le (Nat.pow_pos (by decide)) hlow
  constructor
  · apply Nat.lt_of_not_le
    intro hshort
    have hsmall := (Nat.length_toDigits_le_iff (by decide) hl).mp hshort
    have hlarge : factor ≤ m * factor := Nat.le_mul_of_pos_left factor hpos
    omega
  · exact (Nat.length_toDigits_le_iff (by decide) hh).mpr
      (Nat.lt_of_lt_of_le (Nat.mul_lt_mul_of_pos_right hlt hfactor) hhigh)

theorem ten_pow_le_five_pow : 10 ^ 700 ≤ Nat.pow 5 unitPlaces := by
  decide +kernel

theorem two_pow_mul_five_pow_le : 2 ^ (53 + 2045) * Nat.pow 5 unitPlaces ≤ 10 ^ 1400 := by
  decide +kernel

/-- How long the exact value of a finite number is.  Its point stands 1074 places from its end, so that no
exponent comes near the 400 places at which it would be cut short. -/
theorem expansionLength_bounds {rank : Nat} (hne : rank ≠ 0) (h : rank < infinityRank) :
    700 < expansionLength rank ∧ expansionLength rank ≤ 1400 :=
  length_toDigits_mul_bounds (magnitude_pos hne) (magnitude_lt (scale_le h)) ten_pow_le_five_pow
    two_pow_mul_five_pow_le (by decide) (by decide)

/-! ### Reading numbers back -/

/-- A decimal of a rank that is finite rounds to the number of that rank. -/
theorem nearest?_of_rank_eq {x : Binary64} (hfinite : x.isFinite = true) {d : Decimal}
    (h : d.rank = x.rank) : nearest? x.negative d = some x := by
  have hfits : d.rank < infinityRank := h ▸ of_decide_eq_true hfinite
  rw [nearest?, dif_pos hfits, Option.some.injEq]
  obtain ⟨negative, rank⟩ := x
  simp only [h]

/-- A numeral of the rank is read as the number, with the sign that stands in front of it. -/
theorem read?_sign_append_of_isUnsigned {x : Binary64} (hfinite : x.isFinite = true)
    {cs whole fraction tail : List Char} (hparts : Decimal.IsUnsigned cs whole fraction tail)
    (hne : whole ≠ []) {e : Int} (he : Decimal.readExponent? tail = some e) (hlow : -400 ≤ e)
    (hhigh : e ≤ 400)
    (hrank : Decimal.rank ⟨Nat.ofDigitChars 10 (whole ++ fraction) 0, e - fraction.length⟩ = x.rank) :
    read? (x.sign ++ cs) = some x := by
  have hread := Decimal.readUnsigned?_of_isUnsigned hparts he hlow hhigh
  have hsplit : Decimal.splitSign (x.sign ++ cs) = (x.negative, cs) := by
    obtain ⟨c, rest, hcs, hc⟩ := hparts.exists_cons hne
    rw [sign, hcs]
    cases x.negative with
    | true => rfl
    | false => exact Decimal.splitSign_of_isDigit hc
  have hdecimal : Decimal.readDecimal? (x.sign ++ cs)
      = some (x.negative, ⟨Nat.ofDigitChars 10 (whole ++ fraction) 0, e - fraction.length⟩) := by
    rw [Decimal.readDecimal?, hsplit]
    simp only [hread, Option.map_some]
  rw [read?, hdecimal, Option.bind_some]
  exact nearest?_of_rank_eq hfinite hrank

/-- A text of the rank is read as the number, with the sign that stands in front of it. -/
theorem read?_sign_append {x : Binary64} (hfinite : x.isFinite = true) {cs : List Char}
    (h : Decimal.IsReal x.rank cs) : read? (x.sign ++ cs) = some x := by
  obtain ⟨whole, fraction, tail, e, h⟩ := h
  exact read?_sign_append_of_isUnsigned hfinite h.parts h.whole_ne_nil h.exponent h.exponent_ge
    h.exponent_le h.rank_eq

/-- The text of a finite number is a text of its rank behind its sign. -/
theorem isReal_json {x : Binary64} (hfinite : x.isFinite = true) :
    ∃ cs, x.json = x.sign ++ cs ∧ Decimal.IsReal x.rank cs := by
  have hfits : x.rank < infinityRank := of_decide_eq_true hfinite
  rw [json]
  split
  · rename_i hzero
    refine ⟨"0.0".toList, rfl, ?_⟩
    have hdigit := Decimal.isDigit_of_mem_replicate 1
    have hreal := Decimal.isReal_fraction hdigit (List.cons_ne_nil _ _) hdigit
    rwa [Decimal.rank_of_digits_eq_zero rfl, ← hzero] at hreal
  · rename_i hne
    have hdigits := Decimal.isDigit_of_mem_significantDigits (d := shortest .even x.rank)
    have hnonempty := Decimal.significantDigits_ne_nil (Decimal.digits_shortest_ne_zero .even hne)
    obtain ⟨hlow, hhigh⟩ := expansionLength_bounds hne hfits
    obtain ⟨hpoint, hpoint'⟩ := point_shortest .even x.rank
    have hrank := Decimal.rank_ofPoint (shortest .even x.rank)
    rw [rank_shortest] at hrank
    simp only
    -- the rank stands in the shortest decimal too, where it must stay
    generalize shortest .even x.rank = d at *
    rw [← hrank]
    split
    · split
      · rename_i hwhole
        rw [List.append_assoc]
        exact ⟨_, rfl, Decimal.isReal_positional_zeros hdigits hnonempty hwhole 1⟩
      · exact ⟨_, rfl, Decimal.isReal_positional hdigits (by omega)⟩
    · exact ⟨_, rfl, Decimal.isReal_scientific hdigits hnonempty (by omega) (by omega)⟩

/-- **Reading a number that is written.**  The text of a finite number is read as that number, with its
sign. -/
theorem read?_json {x : Binary64} (hfinite : x.isFinite = true) : read? x.json = some x := by
  obtain ⟨cs, hjson, hreal⟩ := isReal_json hfinite
  rw [hjson]
  exact read?_sign_append hfinite hreal

end Binary64

end QueryPipeline
