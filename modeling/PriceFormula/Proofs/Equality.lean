import Mathlib
import PriceFormula.Proofs.Outcome

/-!
This file says that equal formulas over equal bindings have equal outcomes. Equality does not see
the sign of a zero, so the two calculations may differ in it at every step. The main statement
holds because no operator makes more of this difference: the quotient by a zero of either sign is
a failure.
-/

namespace PriceFormula

namespace Number

open Float.Model

/-! ### Numbers that are alike -/

/-- The numbers are equal, where zeros of both signs are, or both are not a number. -/
def Alike (left right : Float) : Prop :=
  (left == right) = true ∨ (left.isNaN = true ∧ right.isNaN = true)

/-- Forgets the sign of a zero. -/
def unsigned : UnpackedFloat → UnpackedFloat
  | .zero _ => .zero .positive
  | other => other

/-- The sign of a zero operand decides at most the sign of a zero result. -/
def IgnoresSigns (operation : UnpackedFloat → UnpackedFloat → UnpackedFloat) : Prop :=
  ∀ left right,
    unsigned (operation left right) = unsigned (operation (unsigned left) (unsigned right))

/-- Doubles are alike exactly if they are the same, or zeros of different signs. -/
theorem alike_iff {left right : Float} :
    Alike left right ↔ left = right ∨ (left = 0 ∧ right = -0) ∨ (left = -0 ∧ right = 0) := by
  have zero : (0 : Float) ≠ Float.nan := by decide
  have minusZero : (-0 : Float) ≠ Float.nan := by decide
  simp only [Alike, Float.beq_iff_ne_nan_and_eq, Float.isNaN_eq_decide_eq_nan, decide_eq_true_eq]
  grind

/-- Without signs of zeros, only the zeros coincide. -/
theorem unsigned_eq_iff {left right : UnpackedFloat} :
    unsigned left = unsigned right ↔
      left = right ∨ (∃ sign, left = .zero sign) ∧ ∃ sign, right = .zero sign := by
  cases left <;> cases right <;> simp [unsigned]

/-- What coincides without signs of zeros is packed into doubles that are alike. -/
theorem alike_of_unsigned_eq {left right : UnpackedFloat}
    (same : unsigned left = unsigned right) :
    Alike (.ofModel (pack left)) (.ofModel (pack right)) := by
  rcases unsigned_eq_iff.1 same with rfl | ⟨⟨sign, rfl⟩, other, rfl⟩
  · exact alike_iff.2 (.inl rfl)
  · cases sign <;> cases other <;> exact .inl (by decide)

namespace Alike

variable {left right first second : Float}

/-- Doubles that are alike coincide without signs of zeros. -/
theorem unsigned_eq (alike : Alike left right) :
    unsigned left.toModel.unpack = unsigned right.toModel.unpack := by
  rcases alike_iff.1 alike with rfl | ⟨rfl, rfl⟩ | ⟨rfl, rfl⟩ <;> rfl

/-- The test for zero does not tell zeros apart. -/
theorem beq_zero (alike : Alike left right) : (left == 0) = (right == 0) := by
  rcases alike_iff.1 alike with rfl | ⟨rfl, rfl⟩ | ⟨rfl, rfl⟩ <;> rfl

/-- Doubles that are alike and not zeros are the same. -/
theorem eq_of_beq_zero_eq_false (alike : Alike left right) (nonzero : (left == 0) = false) :
    left = right := by
  rcases alike_iff.1 alike with same | ⟨rfl, rfl⟩ | ⟨rfl, rfl⟩
  · exact same
  · cases nonzero
  · cases nonzero

/-- An operation that ignores signs of zeros keeps doubles alike. -/
theorem operate {operation : UnpackedFloat → UnpackedFloat → UnpackedFloat}
    (ignores : IgnoresSigns operation) (alikeLeft : Alike left first)
    (alikeRight : Alike right second) :
    Alike (.ofModel (pack (operation left.toModel.unpack right.toModel.unpack)))
      (.ofModel (pack (operation first.toModel.unpack second.toModel.unpack))) := by
  refine alike_of_unsigned_eq ?_
  rw [ignores, alikeLeft.unsigned_eq, alikeRight.unsigned_eq, ← ignores]

end Alike

theorem add_ignoresSigns : IgnoresSigns (UnpackedFloat.add .binary64) := by
  intro left right
  cases left with
  | zero sign =>
      cases right with
      | zero other => cases sign <;> cases other <;> rfl
      | _ => rfl
  | _ => cases right <;> rfl

theorem sub_ignoresSigns : IgnoresSigns (UnpackedFloat.sub .binary64) := by
  intro left right
  cases left with
  | zero sign =>
      cases right with
      | zero other => cases sign <;> cases other <;> rfl
      | _ => rfl
  | _ => cases right <;> rfl

theorem mul_ignoresSigns : IgnoresSigns (UnpackedFloat.mul .binary64) := by
  intro left right
  cases left <;> cases right <;> rfl

/-- The sign of a zero divisor does matter. -/
theorem div_ignoresSigns (divisor : UnpackedFloat) :
    IgnoresSigns fun dividend _ => dividend.div .binary64 divisor := by
  intro dividend _
  cases dividend <;> cases divisor <;> rfl

end Number

/-! ### Outcomes of equal formulas -/

namespace Evaluation

open Number

/-- The same failure, or values that are alike. -/
inductive SameOutcome : Except Failure Float → Except Failure Float → Prop where
  | failed (failure : Failure) : SameOutcome (.error failure) (.error failure)
  | valued {value other : Float} (alike : Alike value other) : SameOutcome (.ok value) (.ok other)

/-- What follows keeps outcomes the same if it keeps values alike. -/
theorem SameOutcome.bind {left right : Except Failure Float} (same : SameOutcome left right)
    {first second : Float → Except Failure Float}
    (next : ∀ value other, Alike value other → SameOutcome (first value) (second other)) :
    SameOutcome (left >>= first) (right >>= second) := by
  cases same with
  | failed failure => exact .failed failure
  | valued alike => exact next _ _ alike

/-- Whether a divisor is zero does not depend on its sign, and any other divisor is the same. -/
theorem apply_same (operator : Operator) {left right first second : Float}
    (alikeLeft : Alike left first) (alikeRight : Alike right second) :
    SameOutcome (operator.apply left right) (operator.apply first second) := by
  cases operator with
  | add => exact .valued (alikeLeft.operate add_ignoresSigns alikeRight)
  | subtract => exact .valued (alikeLeft.operate sub_ignoresSigns alikeRight)
  | multiply => exact .valued (alikeLeft.operate mul_ignoresSigns alikeRight)
  | divide =>
      rw [Operator.apply, Operator.apply, ← alikeRight.beq_zero]
      cases zero : right == 0 with
      | true => exact .failed .divisionByZero
      | false =>
          obtain rfl := alikeRight.eq_of_beq_zero_eq_false zero
          have quotient := alikeLeft.operate (div_ignoresSigns right.toModel.unpack) alikeRight
          exact .valued quotient

end Evaluation

namespace Formula

/-- A literal equals only literals. -/
theorem equal_literal {value : Float} {formula : Formula}
    (same : (literal value).equal formula = true) :
    ∃ other, formula = .literal other ∧ (value == other) = true := by
  cases formula with
  | literal other => exact ⟨other, rfl, same⟩
  | named | binary => cases same

theorem equal_named {name : String} {formula : Formula}
    (same : (named name).equal formula = true) : formula = .named name := by
  cases formula with
  | named other => rw [eq_of_beq same]
  | literal | binary => cases same

/-- An operator over operands equals only the same operator over equal operands. -/
theorem equal_binary {operator : Operator} {left right formula : Formula}
    (same : (binary operator left right).equal formula = true) :
    ∃ first second, formula = .binary operator first second ∧ left.equal first = true ∧
      right.equal second = true := by
  cases formula with
  | binary other first second =>
      simp only [equal, Bool.and_eq_true, beq_iff_eq] at same
      obtain ⟨⟨rfl, sameLeft⟩, sameRight⟩ := same
      exact ⟨first, second, rfl, sameLeft, sameRight⟩
  | literal | named => cases same

end Formula

namespace Bindings

variable {left right : Bindings}

/-- Equal bindings bind a name to equal formulas. -/
theorem find?_of_equal (same : left.equal right = true) {name : String} {formula : Formula}
    (found : left.find? name = some formula) :
    ∃ other, right.find? name = some other ∧ formula.equal other = true := by
  simp only [equal, Bool.and_eq_true, List.all_eq_true] at same
  have entry := same.2 (name, formula) (mem_entries_of_find? found)
  cases behind : right.find? name with
  | none => simp [behind] at entry
  | some other => exact ⟨other, rfl, by simpa [behind] using entry⟩

/-- All names on the left are bound on the right, and there are no more of them on the right. -/
theorem find?_eq_none_of_equal (same : left.equal right = true) {name : String}
    (unbound : left.find? name = none) : right.find? name = none := by
  have subset : left.entries.map Prod.fst ⊆ right.entries.map Prod.fst := by
    intro other member
    obtain ⟨formula, found⟩ := Option.isSome_iff_exists.1 (isSome_find?_iff.2 member)
    obtain ⟨_, behind, _⟩ := find?_of_equal same found
    rw [← isSome_find?_iff, behind]
    rfl
  have size : right.entries.length = left.entries.length := by
    simp only [equal, size, Bool.and_eq_true, beq_iff_eq] at same
    exact same.1.symm
  have names := (List.subperm_of_subset left.distinct subset).perm_of_length_le (by simp [size])
  rw [← Option.not_isSome_iff_eq_none, isSome_find?_iff] at unbound ⊢
  exact fun member => unbound (names.mem_iff.2 member)

end Bindings

/-- Step by step the two calculations go the same way. -/
theorem Evaluation.outcome_same (policy : Policy) {bindings others : Bindings}
    (sameBindings : bindings.equal others = true) {resolving : List String}
    {first second : Formula} (same : first.equal second = true) :
    SameOutcome (outcome policy bindings resolving first)
      (outcome policy others resolving second) := by
  induction resolving, first using calculation_induction bindings generalizing second with
  | literal resolving value =>
      obtain ⟨other, rfl, equal⟩ := Formula.equal_literal same
      rw [outcome_literal, outcome_literal]
      exact .valued (.inl equal)
  | cyclic resolving name inside =>
      obtain rfl := Formula.equal_named same
      rw [outcome_cyclic inside, outcome_cyclic inside]
      exact .failed (.cyclicVariable name)
  | unbound resolving name fresh unbound =>
      obtain rfl := Formula.equal_named same
      rw [outcome_unbound fresh unbound,
        outcome_unbound fresh (Bindings.find?_eq_none_of_equal sameBindings unbound)]
      cases policy with
      | reject => exact .failed (.undefinedVariable name)
      | zero => exact .valued (.inl (by decide))
  | bound resolving name formula fresh found inductionHypothesis =>
      obtain rfl := Formula.equal_named same
      obtain ⟨other, behind, equal⟩ := Bindings.find?_of_equal sameBindings found
      rw [outcome_bound fresh found, outcome_bound fresh behind]
      exact inductionHypothesis equal
  | binary resolving operator left right leftHypothesis rightHypothesis =>
      obtain ⟨first, second, rfl, sameLeft, sameRight⟩ := Formula.equal_binary same
      rw [outcome_binary, outcome_binary]
      refine (leftHypothesis sameLeft).bind fun _ _ alikeLeft => ?_
      exact (rightHypothesis sameRight).bind fun _ _ alikeRight =>
        apply_same operator alikeLeft alikeRight

/-- Equal formulas over equal bindings have the same failure, or their values are equal or both
not a number. -/
theorem Formula.evaluate_of_equal (policy : Policy) {first second : Formula}
    {left right : Bindings} (same : (first == second) = true)
    (sameBindings : (left == right) = true) :
    (∃ failure, first.evaluate policy left = .error failure ∧
      second.evaluate policy right = .error failure) ∨
    ∃ value other, first.evaluate policy left = .ok value ∧
      second.evaluate policy right = .ok other ∧
      ((value == other) = true ∨ (value.isNaN = true ∧ other.isNaN = true)) := by
  have outcomes : Evaluation.SameOutcome (first.evaluate policy left)
      (second.evaluate policy right) := by
    rw [evaluate_eq_outcome, evaluate_eq_outcome]
    exact Evaluation.outcome_same policy sameBindings same
  generalize first.evaluate policy left = outcome at outcomes ⊢
  generalize second.evaluate policy right = other at outcomes ⊢
  cases outcomes with
  | failed failure => exact .inl ⟨failure, rfl, rfl⟩
  | valued alike => exact .inr ⟨_, _, rfl, rfl, alike⟩

/-- A divisor that is zero of the other sign, below a name that is defined elsewhere, is zero all
the same. -/
theorem Formula.evaluate_zero_of_other_sign :
    (binary .divide (literal 1) (binary .multiply (literal 0) (named "x")) ==
      binary .divide (literal 1) (binary .multiply (literal (-0)) (named "x"))) = true ∧
    (Bindings.ofList [("x", .literal 5), ("y", .literal 0)] ==
      .ofList [("y", .literal (-0)), ("x", .literal 5)]) = true ∧
    (binary .divide (literal 1) (binary .multiply (literal (-0)) (named "x"))).evaluate .reject
      (.ofList [("y", .literal (-0)), ("x", .literal 5)]) = .error .divisionByZero := by
  have same : (binary .divide (literal 1) (binary .multiply (literal 0) (named "x")) ==
      binary .divide (literal 1) (binary .multiply (literal (-0)) (named "x"))) = true := by decide
  have sameBindings : (Bindings.ofList [("x", .literal 5), ("y", .literal 0)] ==
      .ofList [("y", .literal (-0)), ("x", .literal 5)]) = true := by decide
  have rejected : (binary .divide (literal 1) (binary .multiply (literal 0) (named "x"))).evaluate
      .reject (.ofList [("x", .literal 5), ("y", .literal 0)]) = .error .divisionByZero := rfl
  refine ⟨same, sameBindings, ?_⟩
  rcases evaluate_of_equal .reject same sameBindings with
    ⟨failure, first, second⟩ | ⟨value, _, first, _⟩
  · rw [rejected] at first
    cases first
    exact second
  · rw [rejected] at first
    cases first

end PriceFormula
