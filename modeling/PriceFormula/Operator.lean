/-!
This file holds the four operators and their two classes. Factors bind tighter than terms.
-/

namespace PriceFormula

inductive Operator where
  | add
  | subtract
  | multiply
  | divide
  deriving DecidableEq

namespace Operator

def symbol : Operator → Char
  | .add => '+'
  | .subtract => '-'
  | .multiply => '*'
  | .divide => '/'

def text (operator : Operator) : String :=
  String.singleton operator.symbol

/-- An operator is read from its symbol alone. -/
def ofWord? : List Char → Option Operator
  | ['+'] => some .add
  | ['-'] => some .subtract
  | ['*'] => some .multiply
  | ['/'] => some .divide
  | _ => none

def isFactor : Operator → Bool
  | .multiply | .divide => true
  | .add | .subtract => false

def isTerm : Operator → Bool
  | .add | .subtract => true
  | .multiply | .divide => false

/-- An operator is read back from its symbol. -/
theorem ofWord?_symbol (operator : Operator) : ofWord? [operator.symbol] = some operator := by
  cases operator <;> rfl

/-- No two operators share a symbol. -/
theorem eq_of_symbol_eq {operator other : Operator} (same : operator.symbol = other.symbol) :
    operator = other := by
  have read := ofWord?_symbol operator
  rw [same, ofWord?_symbol] at read
  exact (Option.some.inj read).symm

/-- Every operator belongs to exactly one class. -/
theorem isTerm_eq_not_isFactor (operator : Operator) : operator.isTerm = !operator.isFactor := by
  cases operator <;> rfl

end Operator

end PriceFormula
