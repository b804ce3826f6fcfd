import Mathlib.Logic.Relation
import PriceFormula.Proofs.Outcome

/-!
This file relates cyclic failures to the graph of the bindings, in which a name refers to the
names in its formula. The main statement is that calculations report only names that refer to
themselves, and that no formula has a value which reaches such a name.
-/

namespace PriceFormula

open Relation

/-- The names that occur in a formula. -/
def Formula.names : Formula → List String
  | .literal _ => []
  | .named name => [name]
  | .binary _ left right => left.names ++ right.names

namespace Bindings

variable (bindings : Bindings)

/-- A bound name refers to the names in its formula. -/
def Refers (name other : String) : Prop :=
  ∃ bound, bindings.find? name = some bound ∧ other ∈ bound.names

/-- A formula reaches its own names and all names that these refer to in any number of steps. -/
def Reaches (formula : Formula) (name : String) : Prop :=
  ∃ start ∈ formula.names, ReflTransGen bindings.Refers start name

variable {bindings}

/-- Whatever refers to a name is bound. -/
theorem isSome_find?_of_transGen {name other : String}
    (path : TransGen bindings.Refers name other) : (bindings.find? name).isSome := by
  obtain ⟨_, ⟨bound, found, _⟩, _⟩ := TransGen.head'_iff.1 path
  rw [found]
  rfl

/-- A bound name leads where its formula leads. -/
theorem transGen_refers_iff {name : String} {bound : Formula}
    (found : bindings.find? name = some bound) (other : String) :
    TransGen bindings.Refers name other ↔ bindings.Reaches bound other := by
  rw [TransGen.head'_iff]
  constructor
  · rintro ⟨next, ⟨formula, same, member⟩, path⟩
    rw [found, Option.some.injEq] at same
    exact ⟨next, same ▸ member, path⟩
  · rintro ⟨next, member, path⟩
    exact ⟨next, ⟨bound, found, member⟩, path⟩

theorem reaches_named_self (name : String) : bindings.Reaches (.named name) name :=
  ⟨name, List.mem_singleton_self name, .refl⟩

/-- A bound name reaches itself and what its formula reaches. -/
theorem reaches_named_iff {name : String} {bound : Formula}
    (found : bindings.find? name = some bound) (other : String) :
    bindings.Reaches (.named name) other ↔ other = name ∨ bindings.Reaches bound other := by
  rw [← transGen_refers_iff found, ← reflTransGen_iff_eq_or_transGen]
  constructor
  · rintro ⟨start, member, path⟩
    rwa [List.mem_singleton.1 member] at path
  · intro path
    exact ⟨name, List.mem_singleton_self name, path⟩

/-- An unbound name reaches nothing but itself. -/
theorem reaches_unbound_iff {name : String} (unbound : bindings.find? name = none)
    (other : String) : bindings.Reaches (.named name) other ↔ other = name := by
  constructor
  · rintro ⟨start, member, path⟩
    rw [List.mem_singleton.1 member] at path
    rcases reflTransGen_iff_eq_or_transGen.1 path with same | longer
    · exact same
    · have bound := isSome_find?_of_transGen longer
      rw [unbound] at bound
      cases bound
  · rintro rfl
    exact reaches_named_self other

/-- An operator reaches what its operands reach. -/
theorem reaches_binary_iff {operator : Operator} {left right : Formula} {name : String} :
    bindings.Reaches (.binary operator left right) name ↔
      bindings.Reaches left name ∨ bindings.Reaches right name := by
  constructor
  · rintro ⟨start, member, path⟩
    rcases List.mem_append.1 member with inLeft | inRight
    · exact .inl ⟨start, inLeft, path⟩
    · exact .inr ⟨start, inRight, path⟩
  · rintro (⟨start, member, path⟩ | ⟨start, member, path⟩)
    · exact ⟨start, List.mem_append_left _ member, path⟩
    · exact ⟨start, List.mem_append_right _ member, path⟩

end Bindings

namespace Evaluation

variable {policy : Policy} {bindings : Bindings}

/-- A name that is reported as cyclic is under expansion already, or it refers to itself. -/
theorem outcome_eq_cyclicVariable {resolving : List String} {formula : Formula} {name : String}
    (failed : outcome policy bindings resolving formula = .error (.cyclicVariable name)) :
    bindings.Reaches formula name ∧
      (name ∈ resolving ∨ TransGen bindings.Refers name name) := by
  induction resolving, formula using calculation_induction bindings with
  | literal resolving value =>
      rw [outcome_literal] at failed
      cases failed
  | cyclic resolving other inside =>
      rw [outcome_cyclic inside] at failed
      cases failed
      exact ⟨Bindings.reaches_named_self name, .inl inside⟩
  | unbound resolving other fresh unbound =>
      rw [outcome_unbound fresh unbound] at failed
      cases policy <;> cases failed
  | bound resolving other formula fresh found inductionHypothesis =>
      rw [outcome_bound fresh found] at failed
      obtain ⟨reached, reason⟩ := inductionHypothesis failed
      refine ⟨(Bindings.reaches_named_iff found name).2 (.inr reached), ?_⟩
      rcases reason with inside | cycle
      · rcases List.mem_cons.1 inside with rfl | earlier
        · exact .inr ((Bindings.transGen_refers_iff found name).2 reached)
        · exact .inl earlier
      · exact .inr cycle
  | binary resolving operator left right leftHypothesis rightHypothesis =>
      rw [Bindings.reaches_binary_iff]
      rcases outcome_binary_eq_error failed with inLeft | inRight | division
      · obtain ⟨reached, reason⟩ := leftHypothesis inLeft
        exact ⟨.inl reached, reason⟩
      · obtain ⟨reached, reason⟩ := rightHypothesis inRight
        exact ⟨.inr reached, reason⟩
      · cases division

/-- A formula with a value reaches no name under expansion and no name that refers to itself. -/
theorem not_cyclic_of_outcome_eq_ok {resolving : List String} {formula : Formula} {value : Float}
    (finished : outcome policy bindings resolving formula = .ok value) {name : String}
    (reached : bindings.Reaches formula name) :
    name ∉ resolving ∧ ¬ TransGen bindings.Refers name name := by
  induction resolving, formula using calculation_induction bindings
    generalizing value name with
  | literal resolving literal =>
      obtain ⟨_, member, _⟩ := reached
      cases member
  | cyclic resolving other inside =>
      rw [outcome_cyclic inside] at finished
      cases finished
  | unbound resolving other fresh unbound =>
      obtain rfl := (Bindings.reaches_unbound_iff unbound name).1 reached
      refine ⟨fresh, fun cycle => ?_⟩
      have bound := Bindings.isSome_find?_of_transGen cycle
      rw [unbound] at bound
      cases bound
  | bound resolving other formula fresh found inductionHypothesis =>
      rw [outcome_bound fresh found] at finished
      rcases (Bindings.reaches_named_iff found name).1 reached with rfl | inside
      · refine ⟨fresh, fun cycle => ?_⟩
        have expanded := (Bindings.transGen_refers_iff found name).1 cycle
        exact (inductionHypothesis finished expanded).1 List.mem_cons_self
      · obtain ⟨outside, acyclic⟩ := inductionHypothesis finished inside
        exact ⟨fun member => outside (List.mem_cons_of_mem other member), acyclic⟩
  | binary resolving operator left right leftHypothesis rightHypothesis =>
      obtain ⟨⟨leftValue, leftFinished⟩, rightValue, rightFinished⟩ :=
        outcome_binary_eq_ok finished
      rcases Bindings.reaches_binary_iff.1 reached with inLeft | inRight
      · exact leftHypothesis leftFinished inLeft
      · exact rightHypothesis rightFinished inRight

end Evaluation

/-- A name is reported as cyclic only if it is bound, reached, and refers to itself. A formula that
reaches a name of this kind has no value, and one that reaches none is never reported, however
often and on however many ways it uses its names. -/
theorem Formula.evaluate_reports_exactly_cycles (policy : Policy) (bindings : Bindings)
    (formula : Formula) :
    (∀ name, formula.evaluate policy bindings = .error (.cyclicVariable name) →
      (bindings.find? name).isSome ∧ bindings.Reaches formula name ∧
        TransGen bindings.Refers name name) ∧
    ((∃ name, bindings.Reaches formula name ∧ TransGen bindings.Refers name name) →
      ∀ value, formula.evaluate policy bindings ≠ .ok value) ∧
    ((∀ name, bindings.Reaches formula name → ¬ TransGen bindings.Refers name name) →
      ∀ name, formula.evaluate policy bindings ≠ .error (.cyclicVariable name)) := by
  simp only [evaluate_eq_outcome]
  have sound : ∀ name, Evaluation.outcome policy bindings [] formula =
      .error (.cyclicVariable name) →
      bindings.Reaches formula name ∧ TransGen bindings.Refers name name := by
    intro name failed
    obtain ⟨reached, inside | cycle⟩ := Evaluation.outcome_eq_cyclicVariable failed
    · cases inside
    · exact ⟨reached, cycle⟩
  refine ⟨?_, ?_, ?_⟩
  · intro name failed
    obtain ⟨reached, cycle⟩ := sound name failed
    exact ⟨Bindings.isSome_find?_of_transGen cycle, reached, cycle⟩
  · rintro ⟨name, reached, cycle⟩ value finished
    exact (Evaluation.not_cyclic_of_outcome_eq_ok finished reached).2 cycle
  · intro acyclic name failed
    obtain ⟨reached, cycle⟩ := sound name failed
    exact acyclic name reached cycle

/-- A cycle that is entered from outside is reported at the name where it closes. -/
theorem Formula.evaluate_entered_cycle :
    (named "x").evaluate .zero (.ofList [("x", .named "a"), ("a", .named "b"),
      ("b", .binary .add (.named "a") (.named "y"))]) = .error (.cyclicVariable "a") ∧
    TransGen (Bindings.ofList [("x", .named "a"), ("a", .named "b"),
      ("b", .binary .add (.named "a") (.named "y"))]).Refers "a" "a" := by
  have reported : (named "x").evaluate .zero (.ofList [("x", .named "a"), ("a", .named "b"),
      ("b", .binary .add (.named "a") (.named "y"))]) = .error (.cyclicVariable "a") := rfl
  exact ⟨reported, ((evaluate_reports_exactly_cycles .zero _ _).1 "a" reported).2.2⟩

end PriceFormula
