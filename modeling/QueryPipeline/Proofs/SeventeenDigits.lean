import QueryPipeline.Proofs.WrittenNumbers

/-!
# Seventeen digits are enough

The shortest decimal of a floating-point number is found among those of at most seventeen digits, so that
its exact value, which has hundreds of them, is never written.  A decimal of seventeen digits is nearer to
the number than one part in `2⁵⁴`, and nothing that is so near is rounded to another number.

* `Binary64.divideHalfEven_of_near` — a quotient near a whole number is rounded to it;
* **`Binary64.nearestRank_of_near`** — a quotient near a magnitude is rounded to its rank;
* `Binary64.exists_shorten?` — seventeen digits of the exact value find the rank again;
* **`Binary64.length_significantDigits_shortest_le`** — a shortest decimal has no more digits.
-/

namespace QueryPipeline

/-! ### The nearer neighbour -/

namespace Tie

variable {tie : Tie} {n d : Nat}

theorem mod_le_of_isDown (h : tie.isDown n d = true) : 2 * (n % d) ≤ d := by
  unfold isDown at h
  split at h
  · rename_i hcompare
    exact Nat.le_of_lt (Nat.compare_eq_lt.mp hcompare)
  · cases h
  · cases h
  · rename_i hcompare
    exact Nat.le_of_eq (Nat.compare_eq_eq.mp hcompare)

theorem le_mod_of_not_isDown (h : ¬ tie.isDown n d = true) : d ≤ 2 * (n % d) := by
  unfold isDown at h
  split at h
  · exact absurd rfl h
  · rename_i hcompare
    exact Nat.le_of_lt (Nat.compare_eq_gt.mp hcompare)
  · rename_i hcompare
    exact Nat.le_of_eq (Nat.compare_eq_eq.mp hcompare).symm
  · rename_i hcompare
    exact Nat.le_of_eq (Nat.compare_eq_eq.mp hcompare).symm

end Tie

namespace Binary64

/-! ### Rounding what is near -/

/-- A quotient that is less than a half away from a whole number is rounded to it. -/
theorem divideHalfEven_of_near {n d m : Nat} (hlow : 2 * (m * d) < 2 * n + d)
    (hhigh : 2 * n < 2 * (m * d) + d) : divideHalfEven n d = m := by
  have hn : d * (n / d) + n % d = n := Nat.div_add_mod n d
  have hrest : n % d < d := Nat.mod_lt n (by omega)
  have hcomm : d * (n / d) = n / d * d := Nat.mul_comm d (n / d)
  rcases Nat.lt_trichotomy (n / d) m with hless | heq | hmore
  · rcases Nat.eq_or_lt_of_le (Nat.succ_le_of_lt hless) with heq | hless'
    · have hnext : m * d = n / d * d + d := by rw [← heq, Nat.succ_mul]
      rw [divideHalfEven, if_neg (by omega), ← heq]
    · have hstep : (n / d + 2) * d ≤ m * d := Nat.mul_le_mul_right d hless'
      rw [Nat.add_mul] at hstep
      omega
  · rw [heq] at hn hcomm
    rw [divideHalfEven, if_pos (Or.inl (by omega)), heq]
  · have hstep : (m + 1) * d ≤ n / d * d := Nat.mul_le_mul_right d hmore
    rw [Nat.succ_mul] at hstep
    omega

/-- A significand has all its bits, unless it counts single units. -/
theorem le_significand {rank : Nat} (h : scale rank ≠ 0) : binade ≤ significand rank := by
  rw [significand, if_neg]
  · exact Nat.le_add_right _ _
  · intro hlt
    rw [scale, Nat.div_eq_of_lt hlt] at h
    exact h rfl

/-- A quotient a little below a power of two is rounded up to that power. -/
theorem nearestRank_of_near_below {n d places : Nat} (hd : 0 < d)
    (hlow : 2 ^ 53 * (d <<< places) * (2 ^ 54 - 1) < n * 2 ^ 54)
    (hhigh : n * 2 ^ 54 < 2 ^ 53 * (d <<< places) * (2 ^ 54 + 1))
    (hbelow : n / d < 2 ^ (53 + places)) : nearestRank n d = places * binade + 2 ^ 53 := by
  have hleast : 2 ^ (52 + places) ≤ n / d := by
    rw [Nat.le_div_iff_mul_le hd, Nat.pow_add, Nat.mul_assoc, Nat.mul_comm _ d, ← Nat.shiftLeft_eq]
    omega
  have hne : n / d ≠ 0 := by
    have := Nat.two_pow_pos (52 + places)
    omega
  have hlog : (n / d).log2 - 52 = places := by
    have hupper := (Nat.log2_lt hne).mpr hbelow
    have hlower := (Nat.le_log2 hne).mpr hleast
    omega
  have hround : divideHalfEven n (d <<< places) = 2 ^ 53 :=
    divideHalfEven_of_near (by omega) (by omega)
  rw [nearestRank, hlog, hround]

/-- **Numbers near a magnitude.**  A quotient that differs from the magnitude of a rank by less than one
part in `2⁵⁴` is rounded to that rank. -/
theorem nearestRank_of_near {n d rank : Nat} (hd : 0 < d)
    (hlow : magnitude rank * d * (2 ^ 54 - 1) < n * 2 ^ 54)
    (hhigh : n * 2 ^ 54 < magnitude rank * d * (2 ^ 54 + 1)) : nearestRank n d = rank := by
  have hrank := rank_eq rank
  have hsignificand := significand_lt rank
  have hfull := @le_significand rank
  have hproduct : magnitude rank * d = significand rank * (d <<< scale rank) := by
    rw [magnitude, Nat.shiftLeft_eq, Nat.mul_assoc, Nat.mul_comm _ d, ← Nat.shiftLeft_eq]
  rw [hproduct] at hlow hhigh
  clear hproduct
  generalize scale rank = places at *
  generalize significand rank = m at *
  have hless : ∀ unit, m * unit ≤ (2 ^ 53 - 1) * unit := fun unit =>
    Nat.mul_le_mul_right unit (by omega)
  have hshift : (n / d).log2 - 52 ≤ places := by
    have hquotient : n / d < 2 ^ (53 + places) := by
      have hupper := hless (d <<< places)
      rw [Nat.div_lt_iff_lt_mul hd, Nat.pow_add, Nat.mul_assoc, Nat.mul_comm _ d, ← Nat.shiftLeft_eq]
      omega
    by_cases hzero : n / d = 0
    · rw [hzero, Nat.log2_zero]
      exact Nat.zero_le _
    · have hlog := (Nat.log2_lt hzero).mpr hquotient
      omega
  rcases Nat.eq_or_lt_of_le hshift with heq | hlower
  · have hupper := hless (d <<< places)
    have hround : divideHalfEven n (d <<< places) = m := divideHalfEven_of_near (by omega) (by omega)
    rw [nearestRank, heq, hround, hrank]
  · -- the quotient stands below a power of two, where the units are finer
    obtain ⟨finer, rfl⟩ : ∃ finer, places = finer + 1 := ⟨places - 1, by omega⟩
    have hbelow : n / d < 2 ^ (53 + finer) := by
      by_cases hzero : n / d = 0
      · rw [hzero]
        exact Nat.two_pow_pos _
      · exact (Nat.log2_lt hzero).mp (by omega)
    have hm : m = 2 ^ 52 := by
      have hleast : 2 ^ 52 ≤ m := hfull (Nat.succ_ne_zero finer)
      rw [Nat.div_lt_iff_lt_mul hd, Nat.pow_add, Nat.mul_assoc, Nat.mul_comm _ d, ← Nat.shiftLeft_eq]
        at hbelow
      rw [Nat.shiftLeft_succ] at hlow
      by_contra hne
      have hmore : (2 ^ 52 + 1) * (2 * (d <<< finer)) ≤ m * (2 * (d <<< finer)) :=
        Nat.mul_le_mul_right _ (by omega)
      omega
    have hunit : 2 ^ 52 * (2 * (d <<< finer)) = 2 ^ 53 * (d <<< finer) := by ring
    have hbinade : (2 : Nat) ^ 53 = binade + 2 ^ 52 := rfl
    rw [hm, Nat.shiftLeft_succ, hunit] at hlow hhigh
    rw [nearestRank_of_near_below hd hlow hhigh hbelow, ← hrank, hm, hbinade, Nat.succ_mul,
      Nat.add_assoc]

/-! ### Digits that find a rank again -/

/-- A decimal of the places of the exact value that differs from it by less than one part in `2⁵⁴` is
rounded to the rank that it is the value of. -/
theorem rank_of_near {rank digits : Nat}
    (hlow : (expansion rank).digits * (2 ^ 54 - 1) < digits * 2 ^ 54)
    (hhigh : digits * 2 ^ 54 < (expansion rank).digits * (2 ^ 54 + 1)) :
    Decimal.rank ⟨digits, -unitPlaces⟩ = rank := by
  have hneg : (-(-(unitPlaces : Int))).toNat = unitPlaces := by omega
  have hpos : (-(unitPlaces : Int)).toNat = 0 := by omega
  have hone : Nat.pow 10 0 = 1 := rfl
  have hexact : magnitude rank * Nat.pow 10 unitPlaces
      = (expansion rank).digits * 2 ^ unitPlaces := by
    rw [← mul_five_pow_shiftLeft, Nat.shiftLeft_eq, expansion]
  have hunit : 0 < 2 ^ unitPlaces := Nat.two_pow_pos unitPlaces
  show nearestRank ((digits * Nat.pow 10 (-(unitPlaces : Int)).toNat) <<< unitPlaces)
      (Nat.pow 10 (-(-(unitPlaces : Int))).toNat) = rank
  rw [hneg, hpos, hone, Nat.mul_one]
  have hpow : ∀ k, 0 < Nat.pow 10 k := fun k => Nat.pow_pos (by decide)
  apply nearestRank_of_near (hpow unitPlaces)
  · rw [hexact, Nat.shiftLeft_eq, Nat.mul_right_comm, Nat.mul_right_comm digits]
    exact Nat.mul_lt_mul_of_pos_right hlow hunit
  · rw [hexact, Nat.shiftLeft_eq, Nat.mul_right_comm digits, Nat.mul_right_comm (expansion rank).digits]
    exact Nat.mul_lt_mul_of_pos_right hhigh hunit

/-- Seventeen digits of the exact value are enough to find its rank again. -/
theorem exists_shorten? (tie : Tie) {rank places : Nat}
    (hplaces : 10 ^ 16 * Nat.pow 10 places ≤ (expansion rank).digits) :
    ∃ d, shorten? tie rank (expansion rank) places = some d := by
  have hrank : ∀ digits : Nat,
      2 * (expansion rank).digits ≤ 2 * (digits * Nat.pow 10 places) + Nat.pow 10 places →
      2 * (digits * Nat.pow 10 places) ≤ 2 * (expansion rank).digits + Nat.pow 10 places →
      Decimal.rank ⟨digits, (expansion rank).exponent + places⟩ = rank := by
    intro digits hlow hhigh
    have hunit : 0 < Nat.pow 10 places := Nat.pow_pos (by decide)
    rw [← Decimal.rank_mul_pow]
    exact rank_of_near (by omega) (by omega)
  have hexact := Nat.div_add_mod (expansion rank).digits (Nat.pow 10 places)
  have hunit : 0 < Nat.pow 10 places := Nat.pow_pos (by decide)
  have hrest := Nat.mod_lt (expansion rank).digits hunit
  rw [Nat.mul_comm] at hexact
  rw [shorten?.eq_def]
  simp only
  -- the candidate that is tried first is the nearer one
  split
  · rename_i hdown
    have hnear := Tie.mod_le_of_isDown hdown
    refine ⟨_, List.find?_cons_of_pos ?_⟩
    rw [beq_iff_eq]
    exact hrank _ (by omega) (by omega)
  · rename_i hup
    have hnear := Tie.le_mod_of_not_isDown hup
    have hnext : ((expansion rank).digits / Nat.pow 10 places + 1) * Nat.pow 10 places
        = (expansion rank).digits / Nat.pow 10 places * Nat.pow 10 places + Nat.pow 10 places :=
      Nat.succ_mul _ _
    refine ⟨_, List.find?_cons_of_pos ?_⟩
    rw [beq_iff_eq]
    exact hrank _ (by omega) (by omega)

/-- The shortest decimal of a finite number is a candidate for some number of digits. -/
theorem exists_shorten?_eq_shortest (tie : Tie) {rank : Nat} (hne : rank ≠ 0)
    (h : rank < infinityRank) :
    ∃ n < 17, shorten? tie rank (expansion rank) (expansionLength rank - (n + 1))
      = some (shortest tie rank) := by
  have hlong := (expansionLength_bounds hne h).1
  have hdigits : 10 ^ 16 * 10 ^ (expansionLength rank - 17) ≤ (expansion rank).digits := by
    apply Nat.le_of_not_lt
    intro hless
    rw [← Nat.pow_add, ← Nat.length_toDigits_le_iff (by decide) (by omega), ← expansionLength] at hless
    omega
  obtain ⟨d, hd⟩ := exists_shorten? tie hdigits
  obtain hfound | ⟨hnone, -⟩ := shortest_cases tie rank
  · exact hfound
  · rw [hnone 16 (by decide)] at hd
    cases hd

end Binary64

namespace Decimal

theorem significantDigits_mul_ten {m : Nat} (hm : m ≠ 0) (e e' : Int) :
    significantDigits ⟨m * 10, e⟩ = significantDigits ⟨m, e'⟩ := by
  have hdigits : Nat.toDigits 10 (m * 10) = Nat.toDigits 10 m ++ ['0'] := by
    rw [Nat.toDigits_of_base_le (by decide) (by omega), Nat.mul_div_cancel _ (by decide), Nat.mul_mod_left]
    rfl
  rw [significantDigits, significantDigits, hdigits, List.reverse_append]
  rfl

/-- A power of ten has one digit that counts. -/
theorem length_significantDigits_ten_pow (k : Nat) (e : Int) :
    (significantDigits ⟨10 ^ k, e⟩).length = 1 := by
  induction k with
  | zero =>
    have hone : Nat.toDigits 10 (10 ^ 0) = ['1'] := by decide
    rw [significantDigits, hone]
    rfl
  | succ k ih =>
    rw [Nat.pow_succ, significantDigits_mul_ten (Nat.pow_pos (by decide)).ne' e e, ih]

/-- A decimal that is less than a power of ten has no more digits that count; the power has one. -/
theorem length_significantDigits_le {d : Decimal} {k : Nat} (hk : 0 < k) (h : d.digits ≤ 10 ^ k) :
    d.significantDigits.length ≤ k := by
  obtain ⟨m, e⟩ := d
  rcases Nat.eq_or_lt_of_le h with rfl | hless
  · rw [length_significantDigits_ten_pow]
    exact hk
  · have hlength := (Nat.length_toDigits_le_iff (by decide) hk).mpr hless
    rw [significantDigits, List.length_reverse]
    have hdrop := (List.dropWhile_suffix (· == '0') (l := (Nat.toDigits 10 m).reverse)).length_le
    rw [List.length_reverse] at hdrop
    exact Nat.le_trans hdrop hlength

end Decimal

namespace Binary64

/-- **Seventeen digits are enough.**  No shortest decimal of a finite number has more digits, without the
zeros at their end. -/
theorem length_significantDigits_shortest_le (tie : Tie) {rank : Nat} (hne : rank ≠ 0)
    (h : rank < infinityRank) : (shortest tie rank).significantDigits.length ≤ 17 := by
  obtain ⟨n, hn, hshorten⟩ := exists_shorten?_eq_shortest tie hne h
  obtain ⟨hdigits, -⟩ := neighbour_of_shorten? hshorten
  have hlong : 700 < expansionLength rank := (expansionLength_bounds hne h).1
  have hkept : (expansion rank).digits / Nat.pow 10 (expansionLength rank - (n + 1))
      < 10 ^ (expansionLength rank - (expansionLength rank - (n + 1))) :=
    div_pow_lt_of_length (Nat.sub_lt (by omega) (Nat.succ_pos n))
  rw [Nat.sub_sub_self (by omega)] at hkept
  have hbound : (shortest tie rank).digits ≤ 10 ^ (n + 1) := by omega
  exact Nat.le_trans (Decimal.length_significantDigits_le (Nat.succ_pos n) hbound) hn

end Binary64

end QueryPipeline
