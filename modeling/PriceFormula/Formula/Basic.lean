import PriceFormula.Operator

/-!
This file holds the tree of a formula, its depth, and its equality.
-/

namespace PriceFormula

inductive Formula where
  | literal (value : Float)
  | named (name : String)
  | binary (operator : Operator) (left right : Formula)

namespace Formula

/-- The number of formulas on the longest way from the root to a leaf. -/
def depth : Formula → Nat
  | .literal _ | .named _ => 1
  | .binary _ left right => 1 + max left.depth right.depth

/-- Literals are compared as numbers: zeros of both signs are equal, and what is not a
number differs from itself. -/
def equal : Formula → Formula → Bool
  | .literal left, .literal right => left == right
  | .named left, .named right => left == right
  | .binary operator left right, .binary other first second =>
    operator == other && left.equal first && right.equal second
  | _, _ => false

instance : BEq Formula := ⟨equal⟩

theorem depth_pos (formula : Formula) : 0 < formula.depth := by
  cases formula <;> simp only [depth] <;> omega

end Formula

end PriceFormula
