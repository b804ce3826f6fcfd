import PriceFormula.Bindings
import PriceFormula.Formula.Reading

/-!
This file calculates formulas over bindings. Bound names are expanded where they occur, and a
name that occurs in its own expansion is a failure. The names under expansion stand on a
stack, innermost first, which every calculation leaves as it found it. The nesting of the
calculation is bounded by the depths of the formula and of all bound formulas.
-/

namespace PriceFormula

/-- The reasons for which a formula has no value. -/
inductive Failure where
  | malformed (diagnostics : List (Diagnostic Fault))
  | undefinedVariable (name : String)
  | cyclicVariable (name : String)
  | divisionByZero
  deriving DecidableEq

/-- The text that is shown for a failure. -/
def Failure.message : Failure → String
  | .malformed diagnostics => Diagnostic.report diagnostics
  | .undefinedVariable name => "Undefined variable: " ++ name
  | .cyclicVariable name => "Variable is defined in terms of itself: " ++ name
  | .divisionByZero => "Tried to divide by zero"

instance : ToString Failure := ⟨Failure.message⟩

/-- What happens at a name without a binding: it is a failure, or it counts as zero. -/
inductive Policy where
  | reject
  | zero
  deriving DecidableEq, Inhabited

/-- A quotient by zero of either sign is a failure. -/
def Operator.apply (operator : Operator) (left right : Float) : Except Failure Float :=
  match operator with
  | .add => .ok (left + right)
  | .subtract => .ok (left - right)
  | .multiply => .ok (left * right)
  | .divide => if right == 0 then .error .divisionByZero else .ok (left / right)

/-- What a name without a binding comes to. -/
def Policy.unbound (policy : Policy) (name : String) : Except Failure Float :=
  match policy with
  | .reject => .error (.undefinedVariable name)
  | .zero => .ok 0

namespace Evaluation

/-- The outcome of a calculation and the stack that it leaves. -/
abbrev Result :=
  Except Failure Float × List String

/-- Calculates a formula with at most `budget` nested calculations; there is no result when
they do not suffice. -/
def run (policy : Policy) (bindings : Bindings) :
    (budget : Nat) → Formula → (resolving : List String) → Option Result
  | 0, _, _ => none
  | _ + 1, .literal value, resolving => some (.ok value, resolving)
  | budget + 1, .named name, resolving =>
    if name ∈ resolving then some (.error (.cyclicVariable name), resolving)
    else
      match bindings.find? name with
      | some bound =>
        (run policy bindings budget bound (name :: resolving)).map fun result =>
          (result.1, result.2.tail)
      | none => some (policy.unbound name, resolving)
  | budget + 1, .binary operator left right, resolving =>
    match run policy bindings budget left resolving with
    | none => none
    | some (.error failure, resolving) => some (.error failure, resolving)
    | some (.ok leftValue, resolving) =>
      match run policy bindings budget right resolving with
      | none => none
      | some (.error failure, resolving) => some (.error failure, resolving)
      | some (.ok rightValue, resolving) => some (operator.apply leftValue rightValue, resolving)

/-- The depths of the bound formulas whose names are not under expansion. -/
def reserve (resolving : List String) : List (String × Formula) → Nat
  | [] => 0
  | (name, formula) :: rest =>
    (if name ∈ resolving then 0 else formula.depth) + reserve resolving rest

/-- At the start the reserve is the depth of all bound formulas. -/
theorem reserve_nil (entries : List (String × Formula)) :
    reserve [] entries = entries.foldr (fun entry total => entry.2.depth + total) 0 := by
  induction entries with
  | nil => rfl
  | cons entry rest inductionHypothesis => simp [reserve, inductionHypothesis]

/-- The reserve does not grow when a further name is expanded. -/
theorem reserve_cons_le (name : String) (resolving : List String)
    (entries : List (String × Formula)) :
    reserve (name :: resolving) entries ≤ reserve resolving entries := by
  induction entries with
  | nil => exact Nat.le_refl _
  | cons entry rest inductionHypothesis =>
      simp only [reserve, List.mem_cons]
      by_cases same : entry.1 = name <;> by_cases inside : entry.1 ∈ resolving <;>
        simp [same, inside] <;> omega

/-- Expanding a name spends the depth of its formula. -/
theorem depth_add_reserve_le (name : String) (resolving : List String) (bound : Formula)
    (entries : List (String × Formula)) (fresh : name ∉ resolving)
    (found : entries.lookup name = some bound) :
    bound.depth + reserve (name :: resolving) entries ≤ reserve resolving entries := by
  induction entries with
  | nil => simp at found
  | cons entry rest inductionHypothesis =>
      rw [List.lookup_cons] at found
      by_cases same : name = entry.1
      · have smaller := reserve_cons_le name resolving rest
        subst same
        simp only [beq_self_eq_true, Option.some.injEq] at found
        subst found
        simp only [reserve, List.mem_cons, true_or, fresh, ↓reduceIte]
        omega
      · have differs : (name == entry.1) = false := by simpa using same
        simp only [differs] at found
        have tail := inductionHypothesis found
        have other : entry.1 ≠ name := fun equality => same equality.symm
        simp only [reserve, List.mem_cons, other, false_or]
        omega

/-- A budget of the formula's depth and the reserve suffices, and the stack is kept. -/
theorem run_eq_some (policy : Policy) (bindings : Bindings) (budget : Nat) (formula : Formula)
    (resolving : List String)
    (enough : formula.depth + reserve resolving bindings.entries ≤ budget) :
    ∃ outcome, run policy bindings budget formula resolving = some (outcome, resolving) := by
  induction budget generalizing formula resolving with
  | zero =>
      have positive := formula.depth_pos
      omega
  | succ budget inductionHypothesis =>
      cases formula with
      | literal value => exact ⟨.ok value, rfl⟩
      | named name =>
          simp only [Formula.depth] at enough
          by_cases inside : name ∈ resolving
          · exact ⟨.error (.cyclicVariable name), by simp [run, inside]⟩
          · cases found : bindings.find? name with
            | none => exact ⟨policy.unbound name, by simp [run, inside, found]⟩
            | some bound =>
                have spent := depth_add_reserve_le name resolving bound bindings.entries inside
                  found
                obtain ⟨outcome, finished⟩ :=
                  inductionHypothesis bound (name :: resolving) (by omega)
                exact ⟨outcome, by simp [run, inside, found, finished]⟩
      | binary operator left right =>
          simp only [Formula.depth] at enough
          obtain ⟨leftOutcome, leftFinished⟩ := inductionHypothesis left resolving (by omega)
          obtain ⟨rightOutcome, rightFinished⟩ := inductionHypothesis right resolving (by omega)
          cases leftOutcome with
          | error failure => exact ⟨.error failure, by simp [run, leftFinished]⟩
          | ok leftValue =>
              cases rightOutcome with
              | error failure => exact ⟨.error failure, by simp [run, leftFinished, rightFinished]⟩
              | ok rightValue =>
                  exact ⟨operator.apply leftValue rightValue,
                    by simp [run, leftFinished, rightFinished]⟩

/-- The budget with which every calculation over the bindings comes to its end. -/
def budgetFor (bindings : Bindings) (formula : Formula) : Nat :=
  formula.depth + bindings.depth

/-- The budget suffices, so there is always a result. -/
theorem run_isSome (policy : Policy) (bindings : Bindings) (formula : Formula) :
    (run policy bindings (budgetFor bindings formula) formula []).isSome := by
  obtain ⟨outcome, finished⟩ := run_eq_some policy bindings (budgetFor bindings formula) formula []
    (by rw [reserve_nil]; exact Nat.le_refl _)
  rw [finished]
  rfl

end Evaluation

/-- The value of a formula over the bindings. -/
def Formula.evaluate (policy : Policy) (bindings : Bindings) (formula : Formula) :
    Except Failure Float :=
  ((Evaluation.run policy bindings (Evaluation.budgetFor bindings formula) formula []).get
    (Evaluation.run_isSome policy bindings formula)).1

/-- The value of the formula that a text holds. -/
def evaluateText (policy : Policy) (bindings : Bindings) (source : String) :
    Except Failure Float :=
  match Formula.parse source with
  | .error diagnostics => .error (.malformed diagnostics)
  | .ok formula => formula.evaluate policy bindings

end PriceFormula
