/-!
This file orders the non-negative doubles by rank: the rank of a double is the number of
non-negative doubles below it. Exact values are counted in units of the least positive
double, and a quotient of units is rounded to the nearest rank. A magnitude that a double
has exactly is rounded to that double.
-/

namespace PriceFormula.Number

/-- All finite magnitudes lie below this rank, which belongs to infinity. -/
def infiniteRank : Nat :=
  2047 <<< 52

/-- One is this many units. -/
def unitsPerOne : Nat :=
  1 <<< 1074

/-- The magnitude of a rank in units; the rank of infinity counts as the next power of two. -/
def units (rank : Nat) : Nat :=
  let shift := rank >>> 52 - 1
  (rank - shift <<< 52) <<< shift

/-- The last rank whose magnitude is at most `amount` units, if the scale had no end. -/
def rankBelow (amount : Nat) : Nat :=
  let shift := amount.log2 - 52
  shift <<< 52 + amount >>> shift

/-- The rank nearest to a quotient of units; a tie goes to the even rank. -/
def nearestRank (numerator denominator : Nat) : Nat :=
  let below := rankBelow (numerator / denominator)
  let nearest :=
    match compare (2 * numerator) (denominator * (units below + units (below + 1))) with
    | .lt => below
    | .eq => below + below % 2
    | .gt => below + 1
  min nearest infiniteRank

/-- The double of the given sign and rank. -/
def ofRank (negative : Bool) (rank : Nat) : Float :=
  Float.ofBits (UInt64.ofNat (rank + if negative then 1 <<< 63 else 0))

def isNegative (value : Float) : Bool :=
  1 <<< 63 ≤ value.toBits.toNat

/-- The rank of a magnitude; ranks above that of infinity do not belong to numbers. -/
def rank (value : Float) : Nat :=
  value.toBits.toNat % 1 <<< 63

/-- The double that is not a number. -/
def notANumber : Float :=
  Float.ofBits 0x7FF8000000000000

/-- The lowest ranks are their own magnitudes. -/
theorem units_of_lt {rank : Nat} (small : rank < 1 <<< 53) : units rank = rank := by
  have shift : rank >>> 52 - 1 = 0 := by omega
  simp only [units, shift, Nat.zero_shiftLeft, Nat.sub_zero, Nat.shiftLeft_zero]

/-- A mantissa of full length shows its shift in the logarithm. -/
theorem log2_shiftLeft {mantissa : Nat} (shift : Nat) (low : 1 <<< 52 ≤ mantissa)
    (high : mantissa < 1 <<< 53) : (mantissa <<< shift).log2 = 52 + shift := by
  have positive : 0 < 2 ^ shift := Nat.two_pow_pos shift
  rw [Nat.shiftLeft_eq, Nat.log2_eq_iff (Nat.ne_of_gt (Nat.mul_pos (by omega) positive))]
  constructor
  · rw [Nat.pow_add]
    exact Nat.mul_le_mul_right _ low
  · rw [Nat.add_right_comm, Nat.pow_add]
    exact Nat.mul_lt_mul_of_pos_right high positive

/-- Every rank is the last one that is not above its own magnitude. -/
theorem rankBelow_units (rank : Nat) : rankBelow (units rank) = rank := by
  by_cases small : rank < 1 <<< 53
  · rw [units_of_lt small]
    have shift : rank.log2 - 52 = 0 := by
      by_cases zero : rank = 0
      · simp [zero]
      · have bound : rank.log2 < 53 := (Nat.log2_lt zero).2 (by omega)
        omega
    simp only [rankBelow, shift, Nat.zero_shiftLeft, Nat.shiftRight_zero, Nat.zero_add]
  · have low : 1 <<< 52 ≤ rank - (rank >>> 52 - 1) <<< 52 := by omega
    have high : rank - (rank >>> 52 - 1) <<< 52 < 1 <<< 53 := by omega
    have log := log2_shiftLeft (rank >>> 52 - 1) low high
    simp only [rankBelow, units, log, Nat.add_sub_cancel_left, Nat.shiftLeft_shiftRight]
    omega

/-- The magnitudes grow with the ranks. -/
theorem units_lt_units_succ (rank : Nat) : units rank < units (rank + 1) := by
  have positive : 0 < 2 ^ (rank >>> 52 - 1) := Nat.two_pow_pos _
  by_cases same : (rank + 1) >>> 52 - 1 = rank >>> 52 - 1
  · simp only [units, same, Nat.shiftLeft_eq _ (rank >>> 52 - 1)]
    exact Nat.mul_lt_mul_of_pos_right (by omega) positive
  · have next : (rank + 1) >>> 52 - 1 = rank >>> 52 - 1 + 1 := by omega
    simp only [units, next, Nat.shiftLeft_succ_inside, Nat.shiftLeft_eq _ (rank >>> 52 - 1)]
    exact Nat.mul_lt_mul_of_pos_right (by omega) positive

/-- A magnitude that a double has exactly is rounded to that double. -/
theorem nearestRank_units {rank denominator : Nat} (finite : rank ≤ infiniteRank)
    (positive : 0 < denominator) : nearestRank (units rank * denominator) denominator = rank := by
  have above := Nat.mul_lt_mul_of_pos_left (units_lt_units_succ rank) positive
  have below : compare (2 * (units rank * denominator))
      (denominator * (units rank + units (rank + 1))) = .lt := by
    rw [Nat.compare_eq_lt, Nat.mul_comm (units rank) denominator, Nat.mul_add]
    omega
  simp only [nearestRank, Nat.mul_div_cancel _ positive, rankBelow_units, below]
  exact Nat.min_eq_left finite

end PriceFormula.Number
