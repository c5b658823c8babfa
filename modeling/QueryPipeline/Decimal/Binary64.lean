import QueryPipeline.Decimal.Numeral

/-!
# 64-bit floating-point numbers

A `Binary64` is a sign and the rank of its magnitude: the magnitudes `0 < 2⁻¹⁰⁷⁴ < 2·2⁻¹⁰⁷⁴ < …` are
numbered from zero upwards, and the rank is that number.  The finite magnitudes come first, then
infinity, then the values that are not numbers, so the rank is also the bit pattern without its sign.

* `Binary64.magnitude` is the value of a rank in units of `2⁻¹⁰⁷⁴`;
* `Binary64.nearestRank` rounds a quotient of whole numbers, given in those units, to the nearest rank;
* `Decimal.rank` rounds a decimal, and `Binary64.read?` reads a numeral as the nearest finite value.

`nearestRank_magnitude` says that a magnitude rounds to its own rank, and `nearestRank_mul` that only
the value of the quotient counts.
-/

namespace QueryPipeline

namespace Binary64

/-- The weight of the sign in a bit pattern, which is also the number of ranks. -/
abbrev signWeight : Nat :=
  0x8000000000000000

/-- The number of ranks between a power of two and the next. -/
abbrev binade : Nat :=
  0x10000000000000

end Binary64

/-- A 64-bit floating-point number: its sign and the rank of its magnitude. -/
structure Binary64 where
  negative : Bool
  rank : Fin Binary64.signWeight
deriving DecidableEq, Repr

namespace Binary64

/-- The number with the given bit pattern: the highest bit is the sign, the others are the rank. -/
def ofBits (bits : UInt64) : Binary64 :=
  ⟨decide (signWeight ≤ bits.toNat), ⟨bits.toNat % signWeight, Nat.mod_lt _ (by decide)⟩⟩

/-- The bit pattern of a number. -/
def toBits (x : Binary64) : UInt64 :=
  UInt64.ofNat ((if x.negative then signWeight else 0) + x.rank)

/-- How many places behind the binary point the unit stands: the smallest magnitude above zero. -/
def unitPlaces : Nat :=
  1074

/-- The rank of infinity, which follows the finite ranks. -/
def infinityRank : Nat :=
  2047 * binade

/-- Whether a value is a finite number. -/
def isFinite (x : Binary64) : Bool :=
  decide (x.rank < infinityRank)

/-- Whether a value is not a number. -/
def isNaN (x : Binary64) : Bool :=
  decide (infinityRank < x.rank)

/-! ### The value of a rank -/

/-- The significand: ranks up to `2⁵³` count single units, higher ones repeat the upper half. -/
def significand (rank : Nat) : Nat :=
  if rank < binade then rank else binade + rank % binade

/-- How many places the significand is shifted. -/
def scale (rank : Nat) : Nat :=
  rank / binade - 1

/-- The value of a finite rank in units of `2⁻¹⁰⁷⁴`. -/
def magnitude (rank : Nat) : Nat :=
  significand rank <<< scale rank

/-! ### Rounding to the nearest rank -/

/-- The whole number nearest to `n / d`; a half goes to the even neighbour. -/
def divideHalfEven (n d : Nat) : Nat :=
  if 2 * (n % d) < d ∨ (2 * (n % d) = d ∧ n / d % 2 = 0) then n / d else n / d + 1

/--
The rank nearest to `n / d` units.  The significand is cut to 53 bits, which leaves ranks below `2⁵³`
as they are; when rounding carries into a new bit the rank is the next one, as it should be.
-/
def nearestRank (n d : Nat) : Nat :=
  let shift := (n / d).log2 - 52
  shift * binade + divideHalfEven n (d <<< shift)

theorem divideHalfEven_mul_left (q d : Nat) (hd : 0 < d) : divideHalfEven (q * d) d = q := by
  simp [divideHalfEven, Nat.mul_mod_left, hd]

theorem divideHalfEven_mul_mul (n d c : Nat) (hc : 0 < c) :
    divideHalfEven (n * c) (d * c) = divideHalfEven n d := by
  unfold divideHalfEven
  rw [Nat.mul_mod_mul_right, Nat.mul_div_mul_right _ _ hc, ← Nat.mul_assoc]
  simp only [Nat.mul_lt_mul_right hc, Nat.mul_left_inj (Nat.ne_of_gt hc)]

theorem mul_shiftLeft (d c shift : Nat) : (d * c) <<< shift = d <<< shift * c := by
  rw [Nat.shiftLeft_eq, Nat.shiftLeft_eq, Nat.mul_right_comm]

/-- Only the value of the quotient counts, not how it is written. -/
theorem nearestRank_mul (n d c : Nat) (hc : 0 < c) : nearestRank (n * c) (d * c) = nearestRank n d := by
  unfold nearestRank
  simp only [Nat.mul_div_mul_right _ _ hc]
  rw [mul_shiftLeft, divideHalfEven_mul_mul _ _ _ hc]

theorem rank_eq (rank : Nat) : scale rank * binade + significand rank = rank := by
  unfold scale significand binade
  split <;> omega

theorem log2_magnitude (rank : Nat) : (magnitude rank).log2 - 52 = scale rank := by
  by_cases h : rank < binade
  · have hs : scale rank = 0 := by
      unfold scale binade at *
      omega
    have hlog : (magnitude rank).log2 ≤ 52 := by
      rcases Nat.eq_zero_or_pos rank with h0 | h0
      · subst h0
        decide
      · have hm : magnitude rank = rank := by
          rw [magnitude, significand, if_pos h, hs, Nat.shiftLeft_zero]
        rw [hm]
        exact Nat.le_of_lt ((Nat.log2_lt (by omega)).mpr h)
    omega
  · have hsig : 2 ^ 52 ≤ significand rank ∧ significand rank < 2 ^ 53 := by
      unfold significand
      rw [if_neg h]
      unfold binade
      omega
    have hlog : (magnitude rank).log2 = 52 + scale rank := by
      have hpos : magnitude rank ≠ 0 := by
        rw [magnitude, Nat.shiftLeft_eq]
        exact Nat.mul_ne_zero (by omega) (Nat.ne_of_gt (Nat.two_pow_pos _))
      rw [Nat.log2_eq_iff hpos]
      rw [magnitude, Nat.shiftLeft_eq]
      constructor
      · rw [Nat.pow_add]
        exact Nat.mul_le_mul_right _ hsig.1
      · rw [show 52 + scale rank + 1 = 53 + scale rank by omega, Nat.pow_add]
        exact Nat.mul_lt_mul_of_pos_right hsig.2 (Nat.two_pow_pos _)
    omega

/-- A magnitude rounds to its own rank. -/
theorem nearestRank_magnitude (rank : Nat) : nearestRank (magnitude rank) 1 = rank := by
  unfold nearestRank
  simp only [Nat.div_one, log2_magnitude]
  rw [magnitude, Nat.shiftLeft_eq, Nat.shiftLeft_eq, Nat.one_mul,
    divideHalfEven_mul_left _ _ (Nat.two_pow_pos _), rank_eq]

end Binary64

/-! ### Reading numerals -/

/-- The rank nearest to a decimal. -/
def Decimal.rank (d : Decimal) : Nat :=
  Binary64.nearestRank ((d.digits * Nat.pow 10 d.exponent.toNat) <<< Binary64.unitPlaces)
    (Nat.pow 10 (-d.exponent).toNat)

namespace Binary64

/-- The finite number nearest to a decimal with a sign, unless the decimal rounds to infinity. -/
def nearest? (negative : Bool) (d : Decimal) : Option Binary64 :=
  if h : d.rank < infinityRank then
    some ⟨negative, ⟨d.rank, Nat.lt_trans h (by decide)⟩⟩
  else none

/-- The finite number nearest to what a numeral denotes. -/
def read? (cs : List Char) : Option Binary64 :=
  (Decimal.readDecimal? cs).bind fun (negative, d) => nearest? negative d

end Binary64

end QueryPipeline
