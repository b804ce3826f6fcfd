import PriceFormula.Formula.Basic
import PriceFormula.Number.Text

/-!
This file writes formulas with every operator in front of its operands.
-/

namespace PriceFormula.Formula

def text : Formula → String
  | .literal value => Number.text value
  | .named name => name
  | .binary operator left right =>
    "(" ++ operator.text ++ " " ++ left.text ++ " " ++ right.text ++ ")"

end PriceFormula.Formula
