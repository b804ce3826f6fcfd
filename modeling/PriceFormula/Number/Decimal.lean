import PriceFormula.Number.Rank

/-!
This file holds exact decimals. A decimal is rounded to the nearest double, and it is
written with all its places, never with a power of ten.
-/

namespace PriceFormula.Number

/-- The value is `coefficient * 10 ^ exponent`. -/
structure Decimal where
  coefficient : Nat
  exponent : Int

namespace Decimal

/-- The rank of the double nearest to a decimal. -/
def nearestRank (decimal : Decimal) : Nat :=
  match decimal.exponent with
  | .ofNat power => Number.nearestRank (decimal.coefficient * Nat.pow 10 power * unitsPerOne) 1
  | .negSucc power =>
    Number.nearestRank (decimal.coefficient * unitsPerOne) (Nat.pow 10 (power + 1))

/-- At least one digit stands before the point, and a point only before further digits. -/
def text (decimal : Decimal) : List Char :=
  match decimal.exponent with
  | .ofNat power => Nat.toDigits 10 (decimal.coefficient * Nat.pow 10 power)
  | .negSucc power =>
    let digits := Nat.toDigits 10 decimal.coefficient
    let padded := List.replicate (power + 2 - digits.length) '0' ++ digits
    let whole := padded.length - (power + 1)
    padded.take whole ++ '.' :: padded.drop whole

/-- A decimal without places is a whole number of units. -/
theorem nearestRank_ofNat (coefficient power : Nat) :
    nearestRank ⟨coefficient, .ofNat power⟩ =
      Number.nearestRank (coefficient * Nat.pow 10 power * unitsPerOne) 1 := rfl

/-- A decimal with places is a quotient of units. -/
theorem nearestRank_negSucc (coefficient power : Nat) :
    nearestRank ⟨coefficient, .negSucc power⟩ =
      Number.nearestRank (coefficient * unitsPerOne) (Nat.pow 10 (power + 1)) := rfl

end Decimal

end PriceFormula.Number
