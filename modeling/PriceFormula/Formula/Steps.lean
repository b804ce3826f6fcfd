import PriceFormula.Formula.Basic

/-!
This file lists a formula in the order in which it is calculated: the left operand, the right
operand, then the operator. Such a list builds the formula again on a stack.
-/

namespace PriceFormula

inductive Step where
  | literal (value : Float)
  | named (name : String)
  | operate (operator : Operator)

namespace Formula

def steps : Formula → List Step
  | .literal value => [.literal value]
  | .named name => [.named name]
  | .binary operator left right => left.steps ++ right.steps ++ [.operate operator]

/-- Builds formulas on a stack, the latest on top. -/
def stack? : List Formula → List Step → Option (List Formula)
  | stack, [] => some stack
  | stack, .literal value :: rest => stack? (.literal value :: stack) rest
  | stack, .named name :: rest => stack? (.named name :: stack) rest
  | right :: left :: stack, .operate operator :: rest =>
    stack? (.binary operator left right :: stack) rest
  | _, .operate _ :: _ => none

/-- The one formula that the steps leave on the stack. -/
def ofSteps? (steps : List Step) : Option Formula :=
  match stack? [] steps with
  | some [formula] => some formula
  | _ => none

/-- The steps of a formula put it on top of any stack. -/
theorem stack?_steps_append (formula : Formula) (stack : List Formula) (rest : List Step) :
    stack? stack (formula.steps ++ rest) = stack? (formula :: stack) rest := by
  induction formula generalizing stack rest with
  | literal value => rfl
  | named name => rfl
  | binary operator left right leftHypothesis rightHypothesis =>
      simp only [steps, List.append_assoc]
      rw [leftHypothesis, rightHypothesis]
      rfl

/-- A formula is built again from its steps. -/
theorem ofSteps?_steps (formula : Formula) : ofSteps? formula.steps = some formula := by
  have built := stack?_steps_append formula [] []
  rw [List.append_nil] at built
  rw [ofSteps?, built]
  rfl

end Formula

end PriceFormula
