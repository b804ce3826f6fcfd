import PriceFormula.Proofs.Outcome
import PriceFormula.Proofs.Parsing

/-!
This file calculates formulas from left to right over their words, without a tree. A formula is
cut into terms at its term operators, and a term into operands at its factors. The main statement
is that a text has the value that this calculation finds, or its first failure.
-/

namespace PriceFormula.Calculator

open Form Text

variable (policy : Policy) (bindings : Bindings)

/-- An operand is a number or a name that is valued over the bindings. -/
def operandValue (word : List Char) : Except Failure Float :=
  match Token.readNumber? word with
  | some value => .ok value
  | none => (Formula.named (String.ofList word)).evaluate policy bindings

/-- The total behind an operator and its right operand. There is none behind a division by zero of
either sign. -/
def advance (total : Float) : Operator → Float → Except Failure Float
  | .add, right => .ok (total + right)
  | .subtract, right => .ok (total - right)
  | .multiply, right => .ok (total * right)
  | .divide, right => if right == 0 then .error .divisionByZero else .ok (total / right)

/-- Values the first part and then advances the total by every operator and the part behind it. -/
def foldParts (value : List (List Char) → Except Failure Float)
    (parts : List (List Char) × List (Operator × List (List Char))) : Except Failure Float := do
  let start ← value parts.1
  parts.2.foldlM (fun total part => do advance total part.1 (← value part.2)) start

/-- The parts of a term are single operands; other parts do not occur in formulas. -/
def partValue : List (List Char) → Except Failure Float
  | [word] => operandValue policy bindings word
  | _ => .error (.malformed [])

/-- The value of a term that is given by its words. -/
def termValue (run : List (List Char)) : Except Failure Float :=
  foldParts (partValue policy bindings) (cutAt Operator.ofWord? run)

/-- The operator at which a formula is cut, if the word is one. -/
def termSymbol? (word : List Char) : Option Operator :=
  (Operator.ofWord? word).filter Operator.isTerm

/-- The value of a formula that is given by its words. -/
def calculate (words : List (List Char)) : Except Failure Float :=
  foldParts (termValue policy bindings) (cutAt termSymbol? words)

variable {policy bindings}

/-- A step of the calculator is what a formula makes of its operator and two values. -/
theorem advance_eq_apply (total right : Float) (operator : Operator) :
    advance total operator right = operator.apply total right := by
  cases operator <;> rfl

/-- The last part is valued after all others, and its operator is the last to be applied. -/
theorem foldParts_concat (value : List (List Char) → Except Failure Float)
    (first : List (List Char)) (others : List (Operator × List (List Char))) (operator : Operator)
    (run : List (List Char)) :
    foldParts value (first, others ++ [(operator, run)]) =
      (do
        let total ← foldParts value (first, others)
        let right ← value run
        operator.apply total right) := by
  simp [foldParts, List.foldlM_append, advance_eq_apply]

/-- Single operands are valued alike with and without a tree. -/
theorem operandValue_eq_evaluate {word : List Char} {formula : Formula}
    (operand : Grammar.IsOperand word formula) :
    operandValue policy bindings word = formula.evaluate policy bindings := by
  cases operand with
  | number read => rw [operandValue, read, Formula.evaluate_literal]
  | identifier named => rw [operandValue, Token.readNumber?_of_isIdentifier named]

/-- An operand is no operator, so nothing is cut. -/
theorem cutAt_operand {word : List Char} {formula : Formula}
    (operand : Grammar.IsOperand word formula) :
    cutAt Operator.ofWord? [word] = ([word], []) := by
  apply cutAt_of_none
  simpa using operand.ofWord?

/-- A term is calculated factor by factor, as its formula groups to the left. -/
theorem termValue_eq_evaluate {words : List (List Char)} {formula : Formula}
    (product : Grammar.IsProduct words formula) :
    termValue policy bindings words = formula.evaluate policy bindings := by
  induction product with
  | operand operand =>
      rw [termValue, cutAt_operand operand, ← operandValue_eq_evaluate operand]
      simp [foldParts, partValue]
  | extend _ operator _ operand inductionHypothesis =>
      rw [termValue, cutAt_append operator.ofWord?_symbol, cutAt_operand operand, foldParts_concat,
        Formula.evaluate_binary, ← inductionHypothesis, ← operandValue_eq_evaluate operand]
      rfl

/-- Terms hold no term operators. -/
theorem cutAt_product {words : List (List Char)} {formula : Formula}
    (product : Grammar.IsProduct words formula) : cutAt termSymbol? words = (words, []) := by
  apply cutAt_of_none
  intro word member
  rw [termSymbol?, Option.filter_eq_none_iff]
  intro operator found
  exact product.no_term word member operator found

/-- A term operator is read back from its symbol. -/
theorem termSymbol?_symbol {operator : Operator} (term : operator.isTerm) :
    termSymbol? [operator.symbol] = some operator := by
  rw [termSymbol?, Operator.ofWord?_symbol, Option.filter_some, if_pos term]

/-- A formula is calculated term by term. -/
theorem calculate_eq_evaluate {words : List (List Char)} {formula : Formula}
    (sum : Grammar.IsSum words formula) :
    calculate policy bindings words = formula.evaluate policy bindings := by
  induction sum with
  | product product =>
      rw [calculate, cutAt_product product, ← termValue_eq_evaluate product]
      simp [foldParts]
  | extend _ operator term product inductionHypothesis =>
      rw [calculate, cutAt_append (termSymbol?_symbol term), cutAt_product product,
        foldParts_concat, Formula.evaluate_binary, ← inductionHypothesis,
        ← termValue_eq_evaluate product]
      rfl

/-- A text that cannot be read fails with its faults. Any other has the value that the
calculation over its words finds, or the failure at which that calculation stops. -/
theorem evaluateText_eq_calculate (policy : Policy) (bindings : Bindings) (source : String) :
    evaluateText policy bindings source =
      match Formula.parse source with
      | .error diagnostics => .error (.malformed diagnostics)
      | .ok _ => calculate policy bindings (wordList source.toList) := by
  unfold evaluateText
  cases read : Formula.parse source with
  | error diagnostics => rfl
  | ok formula => exact (calculate_eq_evaluate (Formula.isSum_of_parse_eq_ok read)).symm

end PriceFormula.Calculator
