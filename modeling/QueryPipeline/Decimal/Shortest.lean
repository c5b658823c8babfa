import QueryPipeline.Decimal.Binary64

/-!
# The fewest digits that read back

The text of a floating-point number has as few digits as possible among those that round to the
number, and among these it is the nearest to it.  Two candidates can be equally near; which of them is
taken is left to the format, as a `Tie`.

* `Binary64.expansion` is the exact decimal value of a rank, with all its digits;
* `Binary64.shorten?` tries one number of digits;
* `Binary64.shortest` is the first success, and `rank_shortest` says that it reads back.
-/

namespace QueryPipeline

/-- Which of two neighbours that are equally near is taken. -/
inductive Tie where
  | up
  | even
deriving DecidableEq, Repr

/-- Whether `n / d` is taken down to a whole number rather than up. -/
def Tie.isDown (tie : Tie) (n d : Nat) : Bool :=
  match compare (2 * (n % d)) d, tie with
  | .lt, _ => true
  | .gt, _ => false
  | .eq, .up => false
  | .eq, .even => n / d % 2 == 0

namespace Binary64

/-- The exact value of a rank: a power of five turns units of `2⁻¹⁰⁷⁴` into units of `10⁻¹⁰⁷⁴`. -/
def expansion (rank : Nat) : Decimal :=
  ⟨magnitude rank * Nat.pow 5 unitPlaces, -unitPlaces⟩

/--
The decimal nearest to `exact` that drops its last `places` digits and still rounds to `rank`.  The
candidates are the two neighbours, the preferred one first.
-/
def shorten? (tie : Tie) (rank : Nat) (exact : Decimal) (places : Nat) : Option Decimal :=
  let unit := Nat.pow 10 places
  let below : Decimal := ⟨exact.digits / unit, exact.exponent + places⟩
  let above : Decimal := ⟨exact.digits / unit + 1, exact.exponent + places⟩
  let candidates := if tie.isDown exact.digits unit then [below, above] else [above, below]
  candidates.find? fun d => d.rank == rank

/-- The decimal of the fewest digits that rounds to `rank`; no more than 17 are ever needed. -/
def shortest (tie : Tie) (rank : Nat) : Decimal :=
  let exact := expansion rank
  let length := (Nat.toDigits 10 exact.digits).length
  ((List.range 17).findSome? fun n => shorten? tie rank exact (length - (n + 1))).getD exact

/-- A power of five and the same power of two make a power of ten. -/
theorem mul_five_pow_shiftLeft (m k : Nat) : (m * Nat.pow 5 k) <<< k = m * Nat.pow 10 k := by
  rw [Nat.shiftLeft_eq, Nat.pow_eq, Nat.pow_eq, Nat.mul_assoc, ← Nat.mul_pow]

theorem nearestRank_mul_pow (m k : Nat) :
    nearestRank (m * Nat.pow 10 k) (Nat.pow 10 k) = nearestRank m 1 := by
  have h := nearestRank_mul m 1 (Nat.pow 10 k) (Nat.pow_pos (by decide))
  rwa [Nat.one_mul] at h

/-- The exact value rounds to the rank it is the value of. -/
theorem rank_expansion (rank : Nat) : (expansion rank).rank = rank := by
  have hneg : (-(-(unitPlaces : Int))).toNat = unitPlaces := by omega
  have hpos : (-(unitPlaces : Int)).toNat = 0 := by omega
  have hone : Nat.pow 10 0 = 1 := rfl
  unfold Decimal.rank expansion
  simp only [hneg, hpos]
  rw [hone, Nat.mul_one, mul_five_pow_shiftLeft, nearestRank_mul_pow,
    nearestRank_magnitude]

theorem rank_of_shorten? {tie : Tie} {rank : Nat} {exact d : Decimal} {places : Nat}
    (h : shorten? tie rank exact places = some d) : d.rank = rank := by
  unfold shorten? at h
  simpa using List.find?_some h

/-- The shortest decimal reads back. -/
theorem rank_shortest (tie : Tie) (rank : Nat) : (shortest tie rank).rank = rank := by
  unfold shortest
  cases h : (List.range 17).findSome? fun n =>
      shorten? tie rank (expansion rank) ((Nat.toDigits 10 (expansion rank).digits).length - (n + 1)) with
  | none => simpa [h] using rank_expansion rank
  | some d =>
    obtain ⟨n, _, hn⟩ := List.exists_of_findSome?_eq_some h
    simpa [h] using rank_of_shorten? hn

end Binary64

end QueryPipeline
