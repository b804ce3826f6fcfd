import PriceFormula.Number.Decimal

/-!
This file finds the decimal with the fewest digits that reads back as a given double.
The candidates with one number of digits are the two neighbours of the double on that
decimal grid. The nearer one is tried first, and of two equally near ones the larger.
Whatever is found, rounding it gives the double again.
-/

namespace PriceFormula.Number.Shortest

/-- A power of ten above a positive finite magnitude and at most a hundred times as large. It
follows from the power of two above the magnitude, as 0.30103 is nearly the logarithm of two. -/
def powerAbove (rank : Nat) : Int :=
  (((units rank).log2 : Int) - 1073) * 30103 / 100000 + 1

/-- The neighbours of `numerator / denominator` among the multiples of a power of ten. -/
def neighbours (numerator denominator : Nat) (exponent : Int) : List Decimal :=
  let below := numerator / denominator
  if 2 * numerator < (2 * below + 1) * denominator then
    [⟨below, exponent⟩, ⟨below + 1, exponent⟩]
  else [⟨below + 1, exponent⟩, ⟨below, exponent⟩]

/-- The neighbours of a magnitude among the multiples of `10 ^ exponent`. -/
def grid (rank : Nat) (exponent : Int) : List Decimal :=
  match exponent with
  | .ofNat power => neighbours (units rank) (unitsPerOne * Nat.pow 10 power) exponent
  | .negSucc power => neighbours (units rank * Nat.pow 10 (power + 1)) unitsPerOne exponent

/-- The first neighbour that reads back, from the coarsest grid to that of seventeen digits. -/
def find? (rank : Nat) : Option Decimal :=
  let power := powerAbove rank
  (List.range 19).findSome? fun (digits : Nat) =>
    (grid rank (power - digits)).find? fun decimal => decimal.nearestRank == rank

/-- The magnitude itself with all its digits. -/
def exact (rank : Nat) : Decimal :=
  ⟨units rank * Nat.pow 5 1074, .negSucc 1073⟩

/-- Powers of ten are those of five, shifted. -/
theorem five_pow_mul_shiftLeft (power : Nat) :
    Nat.pow 5 power * 1 <<< power = Nat.pow 10 power := by
  rw [Nat.shiftLeft_eq, Nat.one_mul]
  exact (Nat.mul_pow 5 2 power).symm

/-- Units that are scaled up and down by the same power of ten keep their rank. -/
theorem nearestRank_scaled {rank : Nat} (finite : rank ≤ infiniteRank) (power : Nat) :
    Number.nearestRank (units rank * Nat.pow 5 power * 1 <<< power) (Nat.pow 10 power) = rank := by
  have positive : 0 < Nat.pow 10 power := Nat.pow_pos (by decide)
  rw [Nat.mul_assoc, five_pow_mul_shiftLeft]
  exact nearestRank_units finite positive

/-- All digits of a magnitude together round to it. -/
theorem nearestRank_exact {rank : Nat} (finite : rank ≤ infiniteRank) :
    (exact rank).nearestRank = rank := by
  have places : 1073 + 1 = 1074 := rfl
  rw [exact, Decimal.nearestRank_negSucc, unitsPerOne, places]
  -- Nothing depends on the power, and computing with it would take a thousand digits.
  generalize 1074 = power
  exact nearestRank_scaled finite power

/-- A neighbour is found only if it reads back. -/
theorem nearestRank_of_find? {rank : Nat} {decimal : Decimal} (found : find? rank = some decimal) :
    decimal.nearestRank = rank := by
  obtain ⟨digits, _, hit⟩ := List.exists_of_findSome?_eq_some found
  have reads := List.find?_some hit
  exact beq_iff_eq.1 reads

end Shortest

/-- The decimal with the fewest digits that reads back as the rank. -/
def shortest (rank : Nat) : Decimal :=
  if rank = 0 then ⟨0, 0⟩ else (Shortest.find? rank).getD (Shortest.exact rank)

/-- What is written for a double is rounded to that double. -/
theorem nearestRank_shortest {rank : Nat} (finite : rank ≤ infiniteRank) :
    (shortest rank).nearestRank = rank := by
  unfold shortest
  split
  · next zero =>
    subst zero
    decide +kernel
  · cases found : Shortest.find? rank with
    | none => exact Shortest.nearestRank_exact finite
    | some decimal => exact Shortest.nearestRank_of_find? found

end PriceFormula.Number
