import PriceFormula.Proofs.Cycles

/-!
This file says how calculations and the names under expansion depend on each other. The main
statement is that every calculation leaves these names as they were, and that only those of them
matter to it which its formula reaches.
-/

namespace PriceFormula.Evaluation

variable {policy : Policy} {bindings : Bindings}

/-- Calculations agree under any names that hold the same names among those that are reached. -/
theorem outcome_of_same_reached {resolving others : List String} {formula : Formula}
    (same : ∀ name, bindings.Reaches formula name → (name ∈ others ↔ name ∈ resolving)) :
    outcome policy bindings others formula = outcome policy bindings resolving formula := by
  induction resolving, formula using calculation_induction bindings generalizing others with
  | literal resolving value => rw [outcome_literal, outcome_literal]
  | cyclic resolving name inside =>
      have alsoInside := (same name (Bindings.reaches_named_self name)).2 inside
      rw [outcome_cyclic inside, outcome_cyclic alsoInside]
  | unbound resolving name fresh unbound =>
      have alsoFresh : name ∉ others :=
        fun inside => fresh ((same name (Bindings.reaches_named_self name)).1 inside)
      rw [outcome_unbound fresh unbound, outcome_unbound alsoFresh unbound]
  | bound resolving name formula fresh found inductionHypothesis =>
      have alsoFresh : name ∉ others :=
        fun inside => fresh ((same name (Bindings.reaches_named_self name)).1 inside)
      rw [outcome_bound fresh found, outcome_bound alsoFresh found]
      refine inductionHypothesis fun other reached => ?_
      rw [List.mem_cons, List.mem_cons,
        same other ((Bindings.reaches_named_iff found other).2 (.inr reached))]
  | binary resolving operator left right leftHypothesis rightHypothesis =>
      simp only [Bindings.reaches_binary_iff, or_imp, forall_and] at same
      rw [outcome_binary, outcome_binary, leftHypothesis same.1, rightHypothesis same.2]

/-- Names under expansion do not matter to a formula that reaches none of them. -/
theorem outcome_of_unreached {resolving : List String} {formula : Formula}
    (unreached : ∀ name ∈ resolving, ¬ bindings.Reaches formula name) :
    outcome policy bindings resolving formula = formula.evaluate policy bindings := by
  rw [Formula.evaluate_eq_outcome]
  refine outcome_of_same_reached fun name reached => ?_
  constructor
  · intro inside
    exact absurd reached (unreached name inside)
  · exact fun none => nomatch none

/-- Every calculation comes to one result and leaves the names under expansion as it found them,
whether it ends with a value or with a failure. If its formula reaches none of these names, the
result is the same as without them. So whatever a left operand has expanded, the right operand
finds the names from before it, and comes to the same result. -/
theorem run_keeps_resolving (policy : Policy) (bindings : Bindings) (resolving : List String) :
    (∀ formula, ∃ outcome,
      (∃ enough, ∀ budget, enough ≤ budget →
        run policy bindings budget formula resolving = some (outcome, resolving)) ∧
      ∀ budget result, run policy bindings budget formula resolving = some result →
        result = (outcome, resolving)) ∧
    (∀ formula, (∀ name ∈ resolving, ¬ bindings.Reaches formula name) →
      ∀ budget result, run policy bindings budget formula resolving = some result →
        result = (formula.evaluate policy bindings, resolving)) ∧
    ∀ left budget result, run policy bindings budget left resolving = some result →
      ∀ right other, run policy bindings other right result.2 =
        run policy bindings other right resolving := by
  refine ⟨fun formula => ?_, fun formula unreached budget result finished => ?_,
    fun left budget result finished right other => ?_⟩
  · exact ⟨outcome policy bindings resolving formula,
      ⟨needed bindings resolving formula, fun _ => run_eq_outcome policy⟩,
      fun _ _ => result_of_run⟩
  · rw [result_of_run finished, outcome_of_unreached unreached]
  · rw [result_of_run finished]

/-- A failure two expansions deep leaves the name that was under expansion before. With unbound
names as zeros the same name is expanded once for either operand. -/
theorem run_keeps_resolving_below_failure :
    let bindings := Bindings.ofList
      [("y", .binary .add (.named "x") (.named "x")), ("x", .named "tax")]
    run .reject bindings 4 (.binary .add (.named "x") (.named "x")) ["y"] =
      some (.error (.undefinedVariable "tax"), ["y"]) ∧
    (Formula.binary .add (.named "x") (.named "x")).evaluate .reject bindings =
      .error (.undefinedVariable "tax") ∧
    ∃ after, run .zero bindings 3 (.named "x") ["y"] = some (.ok 0, after) ∧
      run .zero bindings 3 (.named "x") after = some (.ok 0, ["y"]) := by
  intro bindings
  have unreached : ∀ name ∈ ["y"],
      ¬ bindings.Reaches (.binary .add (.named "x") (.named "x")) name := by
    rw [List.forall_mem_singleton, Bindings.reaches_binary_iff, or_self,
      Bindings.reaches_named_iff (show bindings.find? "x" = some (.named "tax") from rfl),
      Bindings.reaches_unbound_iff (show bindings.find? "tax" = none from rfl)]
    decide
  have failed : run .reject bindings 4 (.binary .add (.named "x") (.named "x")) ["y"] =
      some (.error (.undefinedVariable "tax"), ["y"]) := rfl
  have plain := (run_keeps_resolving .reject bindings ["y"]).2.1 _ unreached 4 _ failed
  have valued : run .zero bindings 3 (.named "x") ["y"] = some (.ok 0, ["y"]) := rfl
  have again := (run_keeps_resolving .zero bindings ["y"]).2.2 _ 3 _ valued (.named "x") 3
  exact ⟨failed, (Prod.mk.inj plain).1.symm, _, valued, again.trans valued⟩

end PriceFormula.Evaluation
