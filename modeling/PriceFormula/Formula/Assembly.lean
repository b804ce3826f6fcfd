import PriceFormula.Formula.Basic
import PriceFormula.Token

/-!
This file assembles a formula from operands and operators of one class. Operands wait on a
stack, and an operator joins the top of the stack with the operand behind it, so that
operators group to the left.
-/

namespace PriceFormula

/-- An operand that is built already or an operator, at the column where it starts. -/
inductive Item where
  | operand (formula : Formula) (column : Nat)
  | operator (operator : Operator) (column : Nat)

def Item.column : Item → Nat
  | .operand _ column | .operator _ column => column

def Item.ofToken (token : Token) : Item :=
  match token.kind with
  | .operator found => .operator found token.column
  | .number value => .operand (.literal value) token.column
  | .identifier name => .operand (.named name) token.column

namespace Assembly

/-- A waiting operand and the column where it starts. -/
structure Entry where
  formula : Formula
  column : Nat

/-- Works through the items; an operator without an operand on either side is a fault. -/
def reduce (endColumn : Nat) :
    List Entry → List Item → Except (Diagnostic Fault) (List Entry)
  | stack, [] => .ok stack
  | stack, .operand formula column :: rest => reduce endColumn (⟨formula, column⟩ :: stack) rest
  | [], .operator operator column :: _ => .error ⟨column, .missingLeft operator⟩
  | left :: stack, .operator operator _ :: .operand right _ :: rest =>
    reduce endColumn (⟨.binary operator left.formula right, left.column⟩ :: stack) rest
  | _ :: _, .operator operator _ :: .operator _ column :: _ =>
    .error ⟨column, .missingRight operator⟩
  | _ :: _, [.operator operator _] => .error ⟨endColumn, .missingRight operator⟩

/-- Takes the only entry of a stack; the lowest entry comes first. -/
def finish (endColumn : Nat) : List Entry → Except (Diagnostic Fault) Formula
  | [] => .error ⟨endColumn, .emptyExpression⟩
  | [entry] => .ok entry.formula
  | _ :: surplus :: _ => .error ⟨surplus.column, .missingOperator⟩

end Assembly

/-- Assembles the items into one formula; `endColumn` is where a further item would start. -/
def assemble (items : List Item) (endColumn : Nat) : Except (Diagnostic Fault) Formula :=
  match Assembly.reduce endColumn [] items with
  | .ok stack => Assembly.finish endColumn stack.reverse
  | .error diagnostic => .error diagnostic

end PriceFormula
