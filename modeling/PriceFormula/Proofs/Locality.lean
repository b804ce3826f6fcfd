import PriceFormula.Proofs.Unbound

/-!
This file compares calculations over two bindings. The main statement is that a calculation reads
the names that its formula reaches and no others: bindings that agree on these names give the same
outcome, whatever else they bind.
-/

namespace PriceFormula

open Relation

namespace Bindings

variable {bindings others : Bindings} {formula : Formula} {definitions : List (String × Formula)}

/-- Every name that the formula reaches has the same formula in both, or no formula in either. -/
def AgreesOn (bindings others : Bindings) (formula : Formula) : Prop :=
  ∀ name, bindings.Reaches formula name → others.find? name = bindings.find? name

/-- Adds the definitions from left to right. -/
def defineAll (bindings : Bindings) (definitions : List (String × Formula)) : Bindings :=
  definitions.foldl (fun defined entry => defined.define entry.1 entry.2) bindings

/-- What a reached name refers to is reached as well. -/
theorem Reaches.step {name other : String} (reached : bindings.Reaches formula name)
    (refers : bindings.Refers name other) : bindings.Reaches formula other := by
  obtain ⟨start, member, path⟩ := reached
  exact ⟨start, member, path.tail refers⟩

/-- Where bindings agree on a name, it refers to the same names. -/
theorem AgreesOn.refers_iff (agrees : bindings.AgreesOn others formula) {name : String}
    (reached : bindings.Reaches formula name) (other : String) :
    others.Refers name other ↔ bindings.Refers name other := by
  unfold Refers
  rw [agrees name reached]

/-- A formula reaches the same names over both. -/
theorem AgreesOn.reaches_iff (agrees : bindings.AgreesOn others formula) (name : String) :
    others.Reaches formula name ↔ bindings.Reaches formula name := by
  constructor
  · rintro ⟨start, member, path⟩
    induction path with
    | refl => exact ⟨start, member, .refl⟩
    | tail _ refers reached => exact reached.step ((agrees.refers_iff reached _).1 refers)
  · rintro ⟨start, member, path⟩
    refine ⟨start, member, ?_⟩
    induction path with
    | refl => exact .refl
    | tail path refers inductionHypothesis =>
        have reached : bindings.Reaches formula _ := ⟨start, member, path⟩
        exact inductionHypothesis.tail ((agrees.refers_iff reached _).2 refers)

/-- Definitions of other names leave a name as it was. -/
theorem find?_defineAll_of_ne {name : String} (other : ∀ entry ∈ definitions, entry.1 ≠ name) :
    (bindings.defineAll definitions).find? name = bindings.find? name := by
  induction definitions generalizing bindings with
  | nil => rfl
  | cons entry rest inductionHypothesis =>
      rw [List.forall_mem_cons] at other
      rw [defineAll, List.foldl_cons, ← defineAll, inductionHypothesis other.2, find?_define,
        if_neg (Ne.symm other.1)]

/-- Definitions of names that are not reached leave all reached names as they are. -/
theorem agreesOn_defineAll
    (unreached : ∀ entry ∈ definitions, ¬ bindings.Reaches formula entry.1) :
    bindings.AgreesOn (bindings.defineAll definitions) formula := by
  intro name reached
  apply find?_defineAll_of_ne
  rintro entry member rfl
  exact unreached entry member reached

end Bindings

/-- Calculations agree if the bindings agree on all that is reached. -/
theorem Evaluation.outcome_of_agreesOn (policy : Policy) {bindings others : Bindings}
    {formula : Formula} (agrees : bindings.AgreesOn others formula) (resolving : List String) :
    outcome policy others resolving formula = outcome policy bindings resolving formula := by
  apply outcome_congr
  · intro name bound reached found
    rw [agrees name reached, found]
  · intro name stack reached unbound fresh
    exact outcome_unbound fresh ((agrees name reached).trans unbound)

/-- Bindings that agree on the names that a formula reaches give it the same value or the same
failure, and they reach the same names. So no definitions of other names matter, in whatever order
they come and whatever they refer to. -/
theorem Formula.evaluate_reads_only_reached (policy : Policy) (bindings : Bindings)
    (formula : Formula) :
    (∀ others, bindings.AgreesOn others formula →
      formula.evaluate policy others = formula.evaluate policy bindings ∧
        ∀ name, others.Reaches formula name ↔ bindings.Reaches formula name) ∧
    ∀ definitions : List (String × Formula),
      (∀ entry ∈ definitions, ¬ bindings.Reaches formula entry.1) →
      formula.evaluate policy (bindings.defineAll definitions) =
        formula.evaluate policy bindings := by
  have outcomes {others : Bindings} (agrees : bindings.AgreesOn others formula) :
      formula.evaluate policy others = formula.evaluate policy bindings := by
    rw [evaluate_eq_outcome, evaluate_eq_outcome]
    exact Evaluation.outcome_of_agreesOn policy agrees []
  constructor
  · intro others agrees
    exact ⟨outcomes agrees, agrees.reaches_iff⟩
  · intro definitions unreached
    exact outcomes (Bindings.agreesOn_defineAll unreached)

/-- A cycle that is defined beside the names of a formula does not hide the unbound name in it. -/
theorem Formula.evaluate_beside_cycle :
    (∀ entry ∈ [("fee", named "rate"), ("rate", named "fee")],
      ¬ (Bindings.ofList [("net", .binary .subtract (.literal 2) (.named "tax")),
        ("fee", .literal 1)]).Reaches (.named "net") entry.1) ∧
    (named "net").evaluate .reject ((Bindings.ofList
      [("net", .binary .subtract (.literal 2) (.named "tax")), ("fee", .literal 1)]).defineAll
        [("fee", .named "rate"), ("rate", .named "fee")]) = .error (.undefinedVariable "tax") := by
  have unreached : ∀ entry ∈ [("fee", named "rate"), ("rate", named "fee")],
      ¬ (Bindings.ofList [("net", .binary .subtract (.literal 2) (.named "tax")),
        ("fee", .literal 1)]).Reaches (.named "net") entry.1 := by
    intro entry member reached
    have known : entry.1 = "net" ∨ entry.1 = "tax" := by
      rw [Bindings.reaches_named_iff rfl, Bindings.reaches_binary_iff,
        Bindings.reaches_unbound_iff rfl] at reached
      rcases reached with same | ⟨_, inLiteral, _⟩ | same
      · exact .inl same
      · cases inLiteral
      · exact .inr same
    simp only [List.mem_cons, List.not_mem_nil, or_false] at member
    rcases member with rfl | rfl
    · exact absurd known (by decide)
    · exact absurd known (by decide)
  refine ⟨unreached, ?_⟩
  rw [(evaluate_reads_only_reached .reject _ _).2 _ unreached]
  rfl

end PriceFormula
