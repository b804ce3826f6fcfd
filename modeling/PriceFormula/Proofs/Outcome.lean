import Mathlib.Order.Basic
import PriceFormula.Evaluation

/-!
This file describes calculations without their budget. The outcome of a formula with some names
under expansion follows the formula and, at a bound name, the formula bound to it. Facts about
outcomes are proved along the same steps.
-/

namespace PriceFormula.Evaluation

variable (policy : Policy) (bindings : Bindings)

/-- A budget that suffices for a formula with these names under expansion. -/
def needed (resolving : List String) (formula : Formula) : Nat :=
  formula.depth + reserve resolving bindings.entries

/-- The budget that is named for a calculation suffices for it. -/
theorem run_needed_isSome (resolving : List String) (formula : Formula) :
    (run policy bindings (needed bindings resolving formula) formula resolving).isSome := by
  obtain ⟨outcome, finished⟩ := run_eq_some policy bindings (needed bindings resolving formula)
    formula resolving (Nat.le_refl _)
  rw [finished]
  rfl

/-- What becomes of a formula with these names under expansion. -/
def outcome (resolving : List String) (formula : Formula) : Except Failure Float :=
  ((run policy bindings (needed bindings resolving formula) formula resolving).get
    (run_needed_isSome policy bindings resolving formula)).1

variable {policy bindings}

/-- A larger budget does not change a result. -/
theorem run_mono {budget larger : Nat} (enough : budget ≤ larger) {formula : Formula}
    {resolving : List String} {result : Result}
    (finished : run policy bindings budget formula resolving = some result) :
    run policy bindings larger formula resolving = some result := by
  -- A nested run that comes to its end with the smaller budget has the same result with the larger
  -- one, so both runs take the same branches.
  induction budget generalizing larger formula resolving result with
  | zero => cases finished
  | succ budget inductionHypothesis =>
      have positive : 1 ≤ larger := Nat.le_trans (Nat.le_add_left 1 budget) enough
      obtain ⟨larger, rfl⟩ := Nat.exists_eq_add_of_le' positive
      have tail : budget ≤ larger := Nat.le_of_succ_le_succ enough
      cases formula with
      | literal value => exact finished
      | named name =>
          unfold run at finished ⊢
          split
          · next inside =>
            rwa [if_pos inside] at finished
          · next fresh =>
            rw [if_neg fresh] at finished
            cases found : bindings.find? name with
            | none => rwa [found] at finished
            | some bound =>
                simp only [found] at finished ⊢
                obtain ⟨inner, expanded, same⟩ := Option.map_eq_some_iff.1 finished
                rw [inductionHypothesis tail expanded, ← same]
                rfl
      | binary operator left right =>
          unfold run at finished ⊢
          cases leftRun : run policy bindings budget left resolving with
          | none => simp [leftRun] at finished
          | some leftResult =>
              obtain ⟨leftOutcome, stack⟩ := leftResult
              rw [inductionHypothesis tail leftRun]
              cases leftOutcome with
              | error failure => simpa only [leftRun] using finished
              | ok leftValue =>
                  simp only [leftRun] at finished ⊢
                  cases rightRun : run policy bindings budget right stack with
                  | none => simp [rightRun] at finished
                  | some rightResult =>
                      rw [inductionHypothesis tail rightRun]
                      simpa only [rightRun] using finished

/-- Runs that come to their end agree, whatever their budgets are. -/
theorem run_unique {budget other : Nat} {formula : Formula} {resolving : List String}
    {first second : Result} (finished : run policy bindings budget formula resolving = some first)
    (stopped : run policy bindings other formula resolving = some second) : first = second := by
  have longer := run_mono (Nat.le_max_left budget other) finished
  rw [run_mono (Nat.le_max_right budget other) stopped] at longer
  exact (Option.some.inj longer).symm

/-- Every finished run ends with the outcome. -/
theorem outcome_of_run {budget : Nat} {formula : Formula} {resolving stack : List String}
    {value : Except Failure Float}
    (finished : run policy bindings budget formula resolving = some (value, stack)) :
    outcome policy bindings resolving formula = value := by
  obtain ⟨other, stopped⟩ := run_eq_some policy bindings (needed bindings resolving formula)
    formula resolving (Nat.le_refl _)
  have same : (value, stack) = (other, resolving) := run_unique finished stopped
  simp only [outcome, stopped, Option.get_some, (Prod.mk.inj same).1]

/-- A sufficient budget gives the outcome and leaves the stack as it was. -/
theorem run_eq_outcome (policy : Policy) {budget : Nat} {formula : Formula}
    {resolving : List String} (enough : needed bindings resolving formula ≤ budget) :
    run policy bindings budget formula resolving =
      some (outcome policy bindings resolving formula, resolving) := by
  obtain ⟨value, finished⟩ := run_eq_some policy bindings budget formula resolving enough
  rw [finished, outcome_of_run finished]

/-- Every finished run gives the outcome and leaves the stack as it was. -/
theorem result_of_run {budget : Nat} {formula : Formula} {resolving : List String}
    {result : Result} (finished : run policy bindings budget formula resolving = some result) :
    result = (outcome policy bindings resolving formula, resolving) :=
  run_unique finished (run_eq_outcome policy (Nat.le_refl (needed bindings resolving formula)))

@[simp] theorem outcome_literal (resolving : List String) (value : Float) :
    outcome policy bindings resolving (.literal value) = .ok value :=
  outcome_of_run (show run policy bindings 1 (.literal value) resolving = _ from rfl)

/-- A name that is under expansion is a cycle. -/
theorem outcome_cyclic {resolving : List String} {name : String} (inside : name ∈ resolving) :
    outcome policy bindings resolving (.named name) = .error (.cyclicVariable name) := by
  have finished : run policy bindings 1 (.named name) resolving =
      some (.error (.cyclicVariable name), resolving) := if_pos inside
  exact outcome_of_run finished

/-- The policy decides about a fresh name without a formula. -/
theorem outcome_unbound {resolving : List String} {name : String} (fresh : name ∉ resolving)
    (unbound : bindings.find? name = none) :
    outcome policy bindings resolving (.named name) = policy.unbound name := by
  have finished : run policy bindings 1 (.named name) resolving =
      some (policy.unbound name, resolving) := by
    rw [run, if_neg fresh, unbound]
  exact outcome_of_run finished

/-- A fresh name has the outcome of its formula, in which the name is under expansion. -/
theorem outcome_bound {resolving : List String} {name : String} {bound : Formula}
    (fresh : name ∉ resolving) (found : bindings.find? name = some bound) :
    outcome policy bindings resolving (.named name) =
      outcome policy bindings (name :: resolving) bound := by
  have expanded := run_eq_outcome policy
    (Nat.le_refl (needed bindings (name :: resolving) bound))
  have finished : run policy bindings (needed bindings (name :: resolving) bound + 1) (.named name)
      resolving = some (outcome policy bindings (name :: resolving) bound, resolving) := by
    rw [run, if_neg fresh, found]
    simp only [expanded, Option.map_some, List.tail_cons]
  exact outcome_of_run finished

/-- The left operand comes first, and its failure is the failure of the whole. -/
@[simp] theorem outcome_binary (resolving : List String) (operator : Operator)
    (left right : Formula) :
    outcome policy bindings resolving (.binary operator left right) =
      (do
        let leftValue ← outcome policy bindings resolving left
        let rightValue ← outcome policy bindings resolving right
        operator.apply leftValue rightValue) := by
  let budget := max (needed bindings resolving left) (needed bindings resolving right)
  have leftRun := run_eq_outcome policy
    (show needed bindings resolving left ≤ budget from Nat.le_max_left _ _)
  have rightRun := run_eq_outcome policy
    (show needed bindings resolving right ≤ budget from Nat.le_max_right _ _)
  have finished : run policy bindings (budget + 1) (.binary operator left right) resolving =
      some (do
        let leftValue ← outcome policy bindings resolving left
        let rightValue ← outcome policy bindings resolving right
        operator.apply leftValue rightValue, resolving) := by
    rw [run, leftRun]
    cases outcome policy bindings resolving left with
    | error failure => rfl
    | ok leftValue =>
        dsimp only
        rw [rightRun]
        cases outcome policy bindings resolving right <;> rfl
  exact outcome_of_run finished

/-- Operators fail at zero divisors only. -/
theorem apply_eq_error {operator : Operator} {left right : Float} {failure : Failure}
    (failed : operator.apply left right = .error failure) : failure = .divisionByZero := by
  cases operator with
  | add | subtract | multiply => cases failed
  | divide =>
      unfold Operator.apply at failed
      dsimp only at failed
      split at failed
      · exact (Except.error.inj failed).symm
      · cases failed

/-- Behind a value stand the values of both operands. -/
theorem outcome_binary_eq_ok {resolving : List String} {operator : Operator}
    {left right : Formula} {value : Float}
    (finished : outcome policy bindings resolving (.binary operator left right) = .ok value) :
    (∃ leftValue, outcome policy bindings resolving left = .ok leftValue) ∧
      ∃ rightValue, outcome policy bindings resolving right = .ok rightValue := by
  rw [outcome_binary] at finished
  cases leftOutcome : outcome policy bindings resolving left with
  | error failure =>
      rw [leftOutcome] at finished
      cases finished
  | ok leftValue =>
      cases rightOutcome : outcome policy bindings resolving right with
      | error failure =>
          rw [leftOutcome, rightOutcome] at finished
          cases finished
      | ok rightValue => exact ⟨⟨leftValue, rfl⟩, rightValue, rfl⟩

/-- A failure comes from an operand or from a zero divisor. -/
theorem outcome_binary_eq_error {resolving : List String} {operator : Operator}
    {left right : Formula} {failure : Failure}
    (failed : outcome policy bindings resolving (.binary operator left right) = .error failure) :
    outcome policy bindings resolving left = .error failure ∨
      outcome policy bindings resolving right = .error failure ∨ failure = .divisionByZero := by
  rw [outcome_binary] at failed
  cases leftOutcome : outcome policy bindings resolving left with
  | error first =>
      rw [leftOutcome] at failed
      exact .inl failed
  | ok leftValue =>
      cases rightOutcome : outcome policy bindings resolving right with
      | error second =>
          rw [leftOutcome, rightOutcome] at failed
          exact .inr (.inl failed)
      | ok rightValue =>
          rw [leftOutcome, rightOutcome] at failed
          exact .inr (.inr (apply_eq_error failed))

theorem needed_pos (resolving : List String) (formula : Formula) :
    0 < needed bindings resolving formula :=
  Nat.add_pos_left formula.depth_pos _

/-- Every expansion spends the depth of its formula. -/
theorem needed_expand_lt {resolving : List String} {name : String} {formula : Formula}
    (fresh : name ∉ resolving) (found : bindings.find? name = some formula) :
    needed bindings (name :: resolving) formula < needed bindings resolving (.named name) := by
  have spent := depth_add_reserve_le name resolving formula bindings.entries fresh found
  simp only [needed, Formula.depth]
  omega

theorem needed_left_lt (resolving : List String) (operator : Operator) (left right : Formula) :
    needed bindings resolving left < needed bindings resolving (.binary operator left right) := by
  simp only [needed, Formula.depth]
  omega

theorem needed_right_lt (resolving : List String) (operator : Operator) (left right : Formula) :
    needed bindings resolving right < needed bindings resolving (.binary operator left right) := by
  simp only [needed, Formula.depth]
  omega

/-- A calculation goes to the operands, and at a bound name that is not under expansion to the
bound formula with the name on the stack. It comes to an end, as every step needs less. -/
theorem calculation_induction (bindings : Bindings) {motive : List String → Formula → Prop}
    (literal : ∀ resolving value, motive resolving (.literal value))
    (cyclic : ∀ resolving name, name ∈ resolving → motive resolving (.named name))
    (unbound : ∀ resolving name, name ∉ resolving → bindings.find? name = none →
      motive resolving (.named name))
    (bound : ∀ resolving name formula, name ∉ resolving → bindings.find? name = some formula →
      motive (name :: resolving) formula → motive resolving (.named name))
    (binary : ∀ resolving operator left right, motive resolving left → motive resolving right →
      motive resolving (.binary operator left right))
    (resolving : List String) (formula : Formula) : motive resolving formula := by
  induction size : needed bindings resolving formula using Nat.strongRecOn generalizing
    resolving formula with
  | _ size inductionHypothesis =>
      subst size
      cases formula with
      | literal value => exact literal resolving value
      | named name =>
          by_cases inside : name ∈ resolving
          · exact cyclic resolving name inside
          · cases found : bindings.find? name with
            | none => exact unbound resolving name inside found
            | some formula =>
                exact bound resolving name formula inside found
                  (inductionHypothesis _ (needed_expand_lt inside found) (name :: resolving)
                    formula rfl)
      | binary operator left right =>
          exact binary resolving operator left right
            (inductionHypothesis _ (needed_left_lt resolving operator left right) resolving left
              rfl)
            (inductionHypothesis _ (needed_right_lt resolving operator left right) resolving right
              rfl)

/-- A calculation never fails for the reason that a text is malformed. -/
theorem outcome_ne_malformed (resolving : List String) (formula : Formula)
    (diagnostics : List (Diagnostic Fault)) :
    outcome policy bindings resolving formula ≠ .error (.malformed diagnostics) := by
  induction resolving, formula using calculation_induction bindings with
  | literal resolving value =>
      rw [outcome_literal]
      exact nofun
  | cyclic resolving name inside =>
      rw [outcome_cyclic inside]
      exact nofun
  | unbound resolving name fresh unbound =>
      rw [outcome_unbound fresh unbound]
      cases policy <;> exact nofun
  | bound resolving name formula fresh found inductionHypothesis =>
      rwa [outcome_bound fresh found]
  | binary resolving operator left right leftHypothesis rightHypothesis =>
      intro failed
      rcases outcome_binary_eq_error failed with inLeft | inRight | division
      · exact leftHypothesis inLeft
      · exact rightHypothesis inRight
      · cases division

end Evaluation

namespace Formula

variable (policy : Policy) (bindings : Bindings)

/-- At the start no name is under expansion. -/
theorem evaluate_eq_outcome (formula : Formula) :
    formula.evaluate policy bindings = Evaluation.outcome policy bindings [] formula := by
  have enough : Evaluation.needed bindings [] formula ≤ Evaluation.budgetFor bindings formula := by
    rw [Evaluation.needed, Evaluation.reserve_nil]
    exact Nat.le_refl _
  simp only [evaluate, Evaluation.run_eq_outcome policy enough, Option.get_some]

theorem evaluate_literal (value : Float) :
    (literal value).evaluate policy bindings = .ok value := by
  rw [evaluate_eq_outcome, Evaluation.outcome_literal]

/-- A formula that is there has been read, so it is not malformed. -/
theorem evaluate_ne_malformed (formula : Formula) (diagnostics : List (Diagnostic Fault)) :
    formula.evaluate policy bindings ≠ .error (.malformed diagnostics) := by
  rw [evaluate_eq_outcome]
  exact Evaluation.outcome_ne_malformed [] formula diagnostics

/-- The left operand is calculated first, then the right one, and then the operator is applied. -/
theorem evaluate_binary (operator : Operator) (left right : Formula) :
    (binary operator left right).evaluate policy bindings =
      (do
        let leftValue ← left.evaluate policy bindings
        let rightValue ← right.evaluate policy bindings
        operator.apply leftValue rightValue) := by
  simp only [evaluate_eq_outcome, Evaluation.outcome_binary]

end Formula

end PriceFormula
