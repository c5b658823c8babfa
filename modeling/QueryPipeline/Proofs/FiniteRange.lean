import QueryPipeline.Proofs.WrittenNumbers

/-!
# The range of finite numbers

A quotient rounds to a finite number exactly if it is less than the one that stands halfway between the
greatest finite number and the power of two above it; that one itself goes up, because the power of two
is even.

* `Binary64.divideHalfEven_lt_iff` — what is divided stays below an even bound exactly if the quotient is
  more than a half below it;
* **`Binary64.nearestRank_lt_iff`** — the quotients that are rounded to a rank below a power of two;
* **`Decimal.rank_lt_infinityRank_iff`** — the decimals that are rounded to a finite number.
-/

namespace QueryPipeline

namespace Binary64

/-! ### Dividing to the nearest -/

theorem div_le_divideHalfEven (n d : Nat) : n / d ≤ divideHalfEven n d := by
  rw [divideHalfEven]
  split <;> omega

theorem divideHalfEven_le (n d : Nat) : divideHalfEven n d ≤ n / d + 1 := by
  rw [divideHalfEven]
  split <;> omega

/-- A quotient is rounded to less than an even bound exactly if it is more than a half below it. -/
theorem divideHalfEven_lt_iff {n d bound : Nat} (hd : 0 < d) (heven : bound % 2 = 0)
    (hbound : 0 < bound) : divideHalfEven n d < bound ↔ 2 * n < (2 * bound - 1) * d := by
  have hn : d * (n / d) + n % d = n := Nat.div_add_mod n d
  have hrest : n % d < d := Nat.mod_lt n hd
  have hproduct : (2 * bound - 1) * d + d = 2 * (bound * d) := by
    rw [← Nat.succ_mul, Nat.succ_eq_add_one, Nat.sub_add_cancel (by omega), Nat.mul_assoc]
  have hcomm : d * (n / d) = n / d * d := Nat.mul_comm d (n / d)
  rcases Nat.lt_trichotomy (n / d + 1) bound with hless | heq | hmore
  · -- the quotient is a whole unit and more below the bound
    have hstep : (n / d + 2) * d ≤ bound * d := Nat.mul_le_mul_right d hless
    rw [Nat.add_mul] at hstep
    have hle := divideHalfEven_le n d
    refine ⟨fun _ => by omega, fun _ => by omega⟩
  · -- the bound is the upper neighbour, and it takes the half because the lower one is odd
    have hstep : bound * d = n / d * d + d := by rw [← heq, Nat.succ_mul]
    have hodd : n / d % 2 = 1 := by omega
    rw [divideHalfEven]
    split
    · refine ⟨fun _ => ?_, fun _ => by omega⟩
      omega
    · refine ⟨fun hlt => by omega, fun hlt => ?_⟩
      omega
  · have hstep : bound * d ≤ n / d * d := Nat.mul_le_mul_right d (by omega)
    have hle := div_le_divideHalfEven n d
    refine ⟨fun hlt => by omega, fun hlt => ?_⟩
    omega

/-! ### Rounding below a power of two -/

theorem div_shiftLeft (n d shift : Nat) : n / d <<< shift = n / d / 2 ^ shift := by
  rw [Nat.shiftLeft_eq, Nat.div_div_eq_div_mul]

/-- A quotient that needs fewer than the given places is rounded to a rank below them. -/
theorem nearestRank_lt_of_log2_lt {n d places : Nat} (hd : 0 < d)
    (hlog : (n / d).log2 - 52 < places) :
    nearestRank n d < (places + 2) * binade ∧ 2 * n < (2 * 2 ^ 53 - 1) * (d <<< places) := by
  generalize hshift : (n / d).log2 - 52 = shift at hlog
  have hquotient : n / d < 2 ^ (53 + shift) := by
    have hsize : n / d < 2 ^ ((n / d).log2 + 1) := Nat.lt_log2_self
    exact Nat.lt_of_lt_of_le hsize (Nat.pow_le_pow_right (by decide) (by omega))
  constructor
  · have hcut : n / d <<< shift < 2 ^ 53 := by
      rw [div_shiftLeft]
      apply Nat.div_lt_of_lt_mul
      rwa [Nat.mul_comm, ← Nat.pow_add]
    have hround := divideHalfEven_le n (d <<< shift)
    have hbinade : (2 : Nat) ^ 53 = 2 * binade := rfl
    have hmul : (shift + 1) * binade ≤ places * binade := Nat.mul_le_mul_right binade hlog
    rw [Nat.add_mul] at hmul
    rw [nearestRank, Nat.add_mul]
    simp only [hshift]
    omega
  · have hn : n < 2 ^ (53 + shift) * d := (Nat.div_lt_iff_lt_mul hd).mp hquotient
    have hpow : 2 * 2 ^ (53 + shift) ≤ 2 ^ 53 * 2 ^ places := by
      rw [← Nat.pow_add, Nat.mul_comm, ← Nat.pow_succ]
      exact Nat.pow_le_pow_right (by decide) (by omega)
    calc 2 * n < 2 * (2 ^ (53 + shift) * d) := Nat.mul_lt_mul_of_pos_left hn (by decide)
      _ = 2 * 2 ^ (53 + shift) * d := (Nat.mul_assoc _ _ _).symm
      _ ≤ 2 ^ 53 * 2 ^ places * d := Nat.mul_le_mul_right d hpow
      _ = 2 ^ 53 * (d <<< places) := by rw [Nat.shiftLeft_eq, Nat.mul_assoc, Nat.mul_comm d]
      _ ≤ (2 * 2 ^ 53 - 1) * (d <<< places) := Nat.mul_le_mul_right _ (by decide)

/-- A quotient that needs more than the given places is rounded to a rank that is not below them. -/
theorem not_nearestRank_lt_of_lt_log2 {n d places : Nat}
    (hlog : places < (n / d).log2 - 52) :
    ¬ nearestRank n d < (places + 2) * binade ∧ ¬ 2 * n < (2 * 2 ^ 53 - 1) * (d <<< places) := by
  generalize hshift : (n / d).log2 - 52 = shift at hlog
  have hquotient : 2 ^ (52 + shift) ≤ n / d := by
    have hne : n / d ≠ 0 := by
      intro hzero
      rw [hzero, Nat.log2_zero] at hshift
      omega
    rw [← (by omega : (n / d).log2 = 52 + shift)]
    exact Nat.log2_self_le hne
  constructor
  · have hcut : 2 ^ 52 ≤ n / d <<< shift := by
      rw [div_shiftLeft]
      apply (Nat.le_div_iff_mul_le (Nat.two_pow_pos shift)).mpr
      rwa [← Nat.pow_add]
    have hround := div_le_divideHalfEven n (d <<< shift)
    have hbinade : (2 : Nat) ^ 52 = binade := rfl
    have hmul : (places + 1) * binade ≤ shift * binade := Nat.mul_le_mul_right binade hlog
    rw [Nat.add_mul] at hmul
    rw [nearestRank, Nat.add_mul]
    simp only [hshift]
    omega
  · have hn : 2 ^ (52 + shift) * d ≤ n := Nat.le_trans (Nat.mul_le_mul_right d hquotient)
      (Nat.div_mul_le_self n d)
    have hpow : 2 ^ 53 * 2 ^ places ≤ 2 ^ (52 + shift) := by
      rw [← Nat.pow_add]
      exact Nat.pow_le_pow_right (by decide) (by omega)
    have hbound : 2 ^ 53 * (d <<< places) ≤ n := by
      rw [Nat.shiftLeft_eq, Nat.mul_comm d, ← Nat.mul_assoc]
      exact Nat.le_trans (Nat.mul_le_mul_right d hpow) hn
    generalize d <<< places = unit at hbound
    omega

/-- **Rounding below a power of two.**  A quotient is rounded to a rank below the given power of two
exactly if it is below the number that stands halfway between it and the rank before it. -/
theorem nearestRank_lt_iff {n d : Nat} (hd : 0 < d) (places : Nat) :
    nearestRank n d < (places + 2) * binade ↔ 2 * n < (2 * 2 ^ 53 - 1) * (d <<< places) := by
  rcases Nat.lt_trichotomy ((n / d).log2 - 52) places with hless | heq | hmore
  · obtain ⟨hrank, hbelow⟩ := nearestRank_lt_of_log2_lt hd hless
    exact ⟨fun _ => hbelow, fun _ => hrank⟩
  · have hunit : 0 < d <<< places := by
      rw [Nat.shiftLeft_eq]
      exact Nat.mul_pos hd (Nat.two_pow_pos places)
    have hround : divideHalfEven n (d <<< places) < 2 ^ 53 ↔ _ :=
      divideHalfEven_lt_iff hunit (by decide) (by decide)
    have hbinade : (2 : Nat) ^ 53 = 2 * binade := rfl
    rw [← hround, nearestRank, heq, Nat.add_mul]
    simp only [hbinade]
    omega
  · obtain ⟨hrank, hbelow⟩ := not_nearestRank_lt_of_lt_log2 hmore
    exact ⟨fun h => absurd h hrank, fun h => absurd h hbelow⟩

/-- The least number that is rounded to infinity: it stands halfway between the greatest finite number
and the power of two above it. -/
def overflow : Nat :=
  (2 ^ 54 - 1) * 2 ^ 970

end Binary64

namespace Decimal

open Binary64

/-- A decimal with some places behind its point is rounded to a rank below a power of two exactly if it
is below the number halfway in front of it. -/
theorem rank_lt_iff (digits places power : Nat) :
    Decimal.rank ⟨digits, -places⟩ < (power + 1 + unitPlaces + 2) * binade
      ↔ digits < (2 ^ 54 - 1) * 2 ^ power * 10 ^ places := by
  have hplaces : (-(-(places : Int))).toNat = places := by omega
  have hnone : (-(places : Int)).toNat = 0 := by omega
  have hone : Nat.pow 10 0 = 1 := rfl
  have hten : 0 < Nat.pow 10 places := Nat.pow_pos (by decide)
  show nearestRank ((digits * Nat.pow 10 (-(places : Int)).toNat) <<< unitPlaces)
      (Nat.pow 10 (-(-(places : Int))).toNat) < _ ↔ _
  rw [hplaces, hnone, hone, Nat.mul_one, nearestRank_lt_iff hten, Nat.shiftLeft_eq, Nat.shiftLeft_eq,
    Nat.pow_add]
  -- both sides count in the same units
  have hunit : 0 < 2 ^ unitPlaces := Nat.two_pow_pos unitPlaces
  generalize 2 ^ unitPlaces = unit at *
  have hleft : 2 * (digits * unit) = digits * (2 * unit) := by ring
  have hright : (2 * 2 ^ 53 - 1) * (Nat.pow 10 places * (2 ^ (power + 1) * unit))
      = (2 ^ 54 - 1) * 2 ^ power * 10 ^ places * (2 * unit) := by
    rw [Nat.pow_eq]
    ring
  rw [hleft, hright]
  exact Nat.mul_lt_mul_right (by omega)

/-- **The range of finite numbers.**  A decimal with some places behind its point is rounded to a finite
number exactly if it is less than `Binary64.overflow`. -/
theorem rank_lt_infinityRank_iff (digits places : Nat) :
    Decimal.rank ⟨digits, -places⟩ < infinityRank ↔ digits < overflow * 10 ^ places :=
  rank_lt_iff digits places 970

end Decimal

end QueryPipeline
