import PriceFormula.Formula.Steps
import PriceFormula.Proofs.Cycles

/-!
This file compares calculations with a machine that knows no bindings. The bound names of a
formula are replaced until none is left, and the steps of what results run on a stack of values.
The main statement is that a formula without cycles has the value that the machine leaves, or
the failure at which it stops.
-/

namespace PriceFormula

open Relation

namespace Bindings

/-- The second formula is the first with all bound names replaced by their formulas, in which
the bound names are replaced in the same way. -/
inductive Expands (bindings : Bindings) : Formula → Formula → Prop where
  | literal (value : Float) : Expands bindings (.literal value) (.literal value)
  | unbound {name : String} (unbound : bindings.find? name = none) :
      Expands bindings (.named name) (.named name)
  | bound {name : String} {bound expanded : Formula} (found : bindings.find? name = some bound)
      (expands : Expands bindings bound expanded) : Expands bindings (.named name) expanded
  | binary (operator : Operator) {left right first second : Formula}
      (expandsLeft : Expands bindings left first) (expandsRight : Expands bindings right second) :
      Expands bindings (.binary operator left right) (.binary operator first second)

variable {bindings : Bindings}

/-- A formula is expanded in at most one way. -/
theorem Expands.unique {formula first second : Formula} (expands : bindings.Expands formula first)
    (other : bindings.Expands formula second) : second = first := by
  induction expands generalizing second with
  | literal value =>
      cases other
      rfl
  | unbound unbound =>
      cases other with
      | unbound _ => rfl
      | bound found _ =>
          rw [unbound] at found
          cases found
  | bound found _ inductionHypothesis =>
      cases other with
      | unbound unbound =>
          rw [unbound] at found
          cases found
      | bound same expands =>
          rw [found, Option.some.injEq] at same
          exact inductionHypothesis (same ▸ expands)
  | binary operator _ _ leftHypothesis rightHypothesis =>
      cases other with
      | binary _ expandsLeft expandsRight =>
          rw [leftHypothesis expandsLeft, rightHypothesis expandsRight]

/-- Only unbound names remain. -/
theorem Expands.find?_eq_none {formula expanded : Formula}
    (expands : bindings.Expands formula expanded) :
    ∀ name ∈ expanded.names, bindings.find? name = none := by
  induction expands with
  | literal value => exact fun name member => nomatch member
  | unbound unbound => exact List.forall_mem_singleton.2 unbound
  | bound _ _ inductionHypothesis => exact inductionHypothesis
  | binary _ _ _ leftHypothesis rightHypothesis =>
      exact List.forall_mem_append.2 ⟨leftHypothesis, rightHypothesis⟩

variable (bindings) in
/-- No name that the formula reaches is under expansion or refers to itself. -/
def Clear (resolving : List String) (formula : Formula) : Prop :=
  ∀ name, bindings.Reaches formula name →
    name ∉ resolving ∧ ¬ TransGen bindings.Refers name name

/-- A clear name is not under expansion. -/
theorem Clear.fresh {resolving : List String} {name : String}
    (clear : bindings.Clear resolving (.named name)) : name ∉ resolving :=
  (clear name (reaches_named_self name)).1

/-- Without cycles the formula of a name does not reach the name. -/
theorem Clear.expand {resolving : List String} {name : String} {bound : Formula}
    (clear : bindings.Clear resolving (.named name)) (found : bindings.find? name = some bound) :
    bindings.Clear (name :: resolving) bound := by
  intro other reached
  obtain ⟨fresh, acyclic⟩ := clear other ((reaches_named_iff found other).2 (.inr reached))
  refine ⟨fun member => ?_, acyclic⟩
  rcases List.mem_cons.1 member with rfl | earlier
  · exact acyclic ((transGen_refers_iff found other).2 reached)
  · exact fresh earlier

theorem clear_binary_iff {resolving : List String} {operator : Operator} {left right : Formula} :
    bindings.Clear resolving (.binary operator left right) ↔
      bindings.Clear resolving left ∧ bindings.Clear resolving right := by
  unfold Clear
  rw [← forall_and]
  simp only [reaches_binary_iff, or_imp]

/-- The expansion of a clear formula comes to an end. -/
theorem exists_expands {resolving : List String} {formula : Formula}
    (clear : bindings.Clear resolving formula) :
    ∃ expanded, bindings.Expands formula expanded := by
  induction resolving, formula using Evaluation.calculation_induction bindings with
  | literal resolving value => exact ⟨_, .literal value⟩
  | cyclic resolving name inside => exact absurd inside clear.fresh
  | unbound resolving name _ unbound => exact ⟨_, .unbound unbound⟩
  | bound resolving name formula _ found inductionHypothesis =>
      obtain ⟨expanded, expands⟩ := inductionHypothesis (clear.expand found)
      exact ⟨expanded, .bound found expands⟩
  | binary resolving operator left right leftHypothesis rightHypothesis =>
      rw [clear_binary_iff] at clear
      obtain ⟨first, expandsLeft⟩ := leftHypothesis clear.1
      obtain ⟨second, expandsRight⟩ := rightHypothesis clear.2
      exact ⟨_, .binary operator expandsLeft expandsRight⟩

end Bindings

/-- Without bindings the policy decides about every name. -/
theorem Formula.evaluate_named_empty (policy : Policy) (name : String) :
    (named name).evaluate policy .empty = policy.unbound name := by
  rw [evaluate_eq_outcome, Evaluation.outcome_unbound List.not_mem_nil rfl]

/-- What remains of a formula without cycles needs no bindings for its outcome. -/
theorem Bindings.Expands.outcome_eq {bindings : Bindings} {formula expanded : Formula}
    (expands : bindings.Expands formula expanded) {resolving : List String}
    (clear : bindings.Clear resolving formula) (policy : Policy) :
    Evaluation.outcome policy bindings resolving formula = expanded.evaluate policy .empty := by
  induction expands generalizing resolving with
  | literal value => rw [Evaluation.outcome_literal, Formula.evaluate_literal]
  | unbound unbound =>
      rw [Evaluation.outcome_unbound clear.fresh unbound, Formula.evaluate_named_empty]
  | bound found _ inductionHypothesis =>
      rw [Evaluation.outcome_bound clear.fresh found, inductionHypothesis (clear.expand found)]
  | binary operator _ _ leftHypothesis rightHypothesis =>
      rw [Bindings.clear_binary_iff] at clear
      rw [Evaluation.outcome_binary, Formula.evaluate_binary, leftHypothesis clear.1,
        rightHypothesis clear.2]

namespace Machine

/-- One step on a stack of values, the latest on top: the values that it leaves, or the failure
at which it stops. There is no result when an operand is missing. -/
def step? (policy : Policy) : Step → List Float → Option (Except Failure (List Float))
  | .literal value, stack => some (.ok (value :: stack))
  | .named name, stack =>
    match policy with
    | .reject => some (.error (.undefinedVariable name))
    | .zero => some (.ok (0 :: stack))
  | .operate .add, right :: left :: stack => some (.ok ((left + right) :: stack))
  | .operate .subtract, right :: left :: stack => some (.ok ((left - right) :: stack))
  | .operate .multiply, right :: left :: stack => some (.ok ((left * right) :: stack))
  | .operate .divide, right :: left :: stack =>
    if right == 0 then some (.error .divisionByZero)
    else some (.ok ((left / right) :: stack))
  | .operate _, _ => none

/-- Runs the steps in order until one of them fails. -/
def run? (policy : Policy) : List Step → List Float → Option (Except Failure (List Float))
  | [], stack => some (.ok stack)
  | step :: rest, stack =>
    match step? policy step stack with
    | some (.ok after) => run? policy rest after
    | stopped => stopped

/-- What follows a step goes on with its value on the stack, or it is not reached. -/
def proceed (policy : Policy) (rest : List Step) (stack : List Float) :
    Except Failure Float → Option (Except Failure (List Float))
  | .ok value => run? policy rest (value :: stack)
  | .error failure => some (.error failure)

theorem run?_literal (policy : Policy) (value : Float) (rest : List Step) (stack : List Float) :
    run? policy (.literal value :: rest) stack = proceed policy rest stack (.ok value) := rfl

/-- A name that is left over is settled by the policy. -/
theorem run?_named (policy : Policy) (name : String) (rest : List Step) (stack : List Float) :
    run? policy (.named name :: rest) stack =
      proceed policy rest stack (policy.unbound name) := by
  cases policy <;> rfl

/-- An operator takes its operands from the stack, the right one first. -/
theorem run?_operate (policy : Policy) (operator : Operator) (left right : Float)
    (rest : List Step) (stack : List Float) :
    run? policy (.operate operator :: rest) (right :: left :: stack) =
      proceed policy rest stack (operator.apply left right) := by
  cases operator with
  | add | subtract | multiply => rfl
  | divide =>
      by_cases zero : right == 0 <;> simp [run?, step?, proceed, Operator.apply, zero]

/-- The steps of a formula put its value on top of any stack, or stop with its failure. -/
theorem run?_steps_append (policy : Policy) (formula : Formula) (rest : List Step)
    (stack : List Float) :
    run? policy (formula.steps ++ rest) stack =
      proceed policy rest stack (formula.evaluate policy .empty) := by
  induction formula generalizing rest stack with
  | literal value =>
      rw [Formula.evaluate_literal, ← run?_literal]
      rfl
  | named name =>
      rw [Formula.evaluate_named_empty, ← run?_named]
      rfl
  | binary operator left right leftHypothesis rightHypothesis =>
      rw [Formula.steps, List.append_assoc, List.append_assoc, leftHypothesis,
        Formula.evaluate_binary]
      cases left.evaluate policy .empty with
      | error failure => rfl
      | ok leftValue =>
          rw [proceed, rightHypothesis]
          cases right.evaluate policy .empty with
          | error failure => rfl
          | ok rightValue => exact run?_operate policy operator leftValue rightValue rest stack

/-- On an empty stack the value of a formula is all that its steps leave. -/
theorem run?_steps (policy : Policy) (formula : Formula) :
    run? policy formula.steps [] =
      some ((formula.evaluate policy .empty).map fun value => [value]) := by
  have whole := run?_steps_append policy formula [] []
  rw [List.append_nil] at whole
  rw [whole]
  cases formula.evaluate policy .empty <;> rfl

end Machine

/-- A formula that reaches no cycle can be expanded in exactly one way until only literals and
unbound names remain. The machine that runs the steps of the expanded formula never lacks an
operand; it leaves the value of the formula alone on its stack, or stops with its failure. -/
theorem Formula.evaluate_eq_machine {bindings : Bindings} {formula : Formula}
    (acyclic : ∀ name, bindings.Reaches formula name → ¬ TransGen bindings.Refers name name) :
    ∃ expanded, bindings.Expands formula expanded ∧
      (∀ other, bindings.Expands formula other → other = expanded) ∧
      (∀ name ∈ expanded.names, bindings.find? name = none) ∧
      ∀ policy, Machine.run? policy expanded.steps [] =
        some ((formula.evaluate policy bindings).map fun value => [value]) := by
  have clear : bindings.Clear [] formula :=
    fun name reached => ⟨List.not_mem_nil, acyclic name reached⟩
  obtain ⟨expanded, expands⟩ := Bindings.exists_expands clear
  refine ⟨expanded, expands, fun _ => expands.unique, expands.find?_eq_none, fun policy => ?_⟩
  rw [Machine.run?_steps, ← expands.outcome_eq clear, evaluate_eq_outcome]

/-- A name that is used twice is expanded twice, and what is unbound in it decides. -/
theorem Formula.evaluate_name_used_twice :
    (∀ name, (Bindings.ofList [("net", .binary .subtract (.literal 2) (.named "fee"))]).Reaches
      (.binary .multiply (.named "net") (.named "net")) name →
      ¬ TransGen (Bindings.ofList
        [("net", .binary .subtract (.literal 2) (.named "fee"))]).Refers name name) ∧
    ∃ expanded, (Bindings.ofList [("net", .binary .subtract (.literal 2) (.named "fee"))]).Expands
        (.binary .multiply (.named "net") (.named "net")) expanded ∧
      Machine.run? .reject expanded.steps [] = some (.error (.undefinedVariable "fee")) ∧
      Machine.run? .zero expanded.steps [] = some (.ok [(2 - 0) * (2 - 0)]) := by
  have valued : Evaluation.outcome .zero (.ofList [("net", .binary .subtract (.literal 2)
      (.named "fee"))]) [] (.binary .multiply (.named "net") (.named "net")) =
      .ok ((2 - 0) * (2 - 0)) := rfl
  have acyclic := fun (name : String) (reached : Bindings.Reaches _ _ name) =>
    (Evaluation.not_cyclic_of_outcome_eq_ok valued reached).2
  obtain ⟨expanded, expands, _, _, runs⟩ := evaluate_eq_machine acyclic
  exact ⟨acyclic, expanded, expands, runs .reject, runs .zero⟩

end PriceFormula
