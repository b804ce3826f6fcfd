import PriceFormula.Diagnostic
import PriceFormula.Operator

/-!
This file lists what can be wrong with the text of a formula, and how it is worded.
-/

namespace PriceFormula

inductive Fault where
  | invalidToken (word : String)
  | missingLeft (operator : Operator)
  | missingRight (operator : Operator)
  | missingOperator
  | emptyExpression
  deriving DecidableEq

namespace Fault

def message : Fault → String
  | .invalidToken word => "Invalid token '" ++ word ++ "'"
  | .missingLeft operator => "Expected operand before '" ++ operator.text ++ "'"
  | .missingRight operator => "Expected operand after '" ++ operator.text ++ "'"
  | .missingOperator => "Expected operator between operands"
  | .emptyExpression => "Empty expression"

instance : ToString Fault := ⟨message⟩

end Fault

end PriceFormula
