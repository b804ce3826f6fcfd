import PriceFormula.Proofs.Cycles

/-!
This file says how outcomes depend on the names that are not bound. The main statements are that
counting unbound names as zero is the same as binding them to zero, and that further bindings or
the other policy change no outcome, unless a name without a binding stopped the calculation.
-/

namespace PriceFormula

open Relation

namespace Bindings

variable (bindings : Bindings)

/-- All names of the other bindings have their formulas here as well. -/
def Extends (other : Bindings) : Prop :=
  ∀ name formula, other.find? name = some formula → bindings.find? name = some formula

/-- The names are not bound, and all names of this kind that the formula reaches are among them. -/
structure Missing (formula : Formula) (names : List String) : Prop where
  unbound : ∀ name ∈ names, bindings.find? name = none
  complete : ∀ name, bindings.Reaches formula name → bindings.find? name = none → name ∈ names

/-- Binds all the names to zero. -/
def defineZeros (names : List String) : Bindings :=
  names.foldl (fun defined name => defined.define name (.literal 0)) bindings

/-- The names without a formula among those of a formula and of all bound formulas. -/
def unboundNames (formula : Formula) : List String :=
  (formula.names ++ bindings.entries.flatMap fun entry => entry.2.names).filter fun name =>
    (bindings.find? name).isNone

variable {bindings}

theorem Extends.refl (bindings : Bindings) : bindings.Extends bindings :=
  fun _ _ found => found

/-- Defining an unbound name extends the bindings. -/
theorem extends_define {name : String} (unbound : bindings.find? name = none) (formula : Formula) :
    (bindings.define name formula).Extends bindings := by
  intro other bound found
  have differs : other ≠ name := by
    rintro rfl
    rw [unbound] at found
    cases found
  rwa [find?_define, if_neg differs]

/-- The names are bound to zero, and all others are left as they were. -/
theorem find?_defineZeros (names : List String) (name : String) :
    (bindings.defineZeros names).find? name =
      if name ∈ names then some (.literal 0) else bindings.find? name := by
  induction names generalizing bindings with
  | nil => rfl
  | cons first rest inductionHypothesis =>
      rw [defineZeros, List.foldl_cons, ← defineZeros, inductionHypothesis, find?_define]
      by_cases inside : name ∈ rest <;> by_cases same : name = first <;> simp [inside, same]

/-- A name that is bound to zero refers to nothing, just like one that is not bound. -/
theorem refers_defineZeros_iff {names : List String}
    (unbound : ∀ name ∈ names, bindings.find? name = none) (name other : String) :
    (bindings.defineZeros names).Refers name other ↔ bindings.Refers name other := by
  unfold Refers
  rw [find?_defineZeros]
  by_cases inside : name ∈ names
  · rw [if_pos inside, unbound name inside]
    simp [Formula.names]
  · rw [if_neg inside]

/-- Whatever a name refers to occurs in a bound formula. -/
theorem Refers.mem_entries {name other : String} (refers : bindings.Refers name other) :
    other ∈ bindings.entries.flatMap fun entry => entry.2.names := by
  obtain ⟨bound, found, member⟩ := refers
  exact List.mem_flatMap.2 ⟨(name, bound), mem_entries_of_find? found, member⟩

/-- A reached name without a formula is among those that are listed. -/
theorem Reaches.mem_unboundNames {formula : Formula} {name : String}
    (reached : bindings.Reaches formula name) (unbound : bindings.find? name = none) :
    name ∈ bindings.unboundNames formula := by
  obtain ⟨start, member, path⟩ := reached
  refine List.mem_filter.2 ⟨List.mem_append.2 ?_, Option.isNone_iff_eq_none.2 unbound⟩
  rcases ReflTransGen.cases_tail path with rfl | ⟨_, _, refers⟩
  · exact .inl member
  · exact .inr refers.mem_entries

/-- More unbound names than those that are listed may be given. -/
theorem Missing.of_subset {formula : Formula} {names : List String}
    (unbound : ∀ name ∈ names, bindings.find? name = none)
    (enough : bindings.unboundNames formula ⊆ names) : bindings.Missing formula names :=
  ⟨unbound, fun _ reached free => enough (reached.mem_unboundNames free)⟩

/-- The unbound names that are listed are enough. -/
theorem missing_unboundNames (bindings : Bindings) (formula : Formula) :
    bindings.Missing formula (bindings.unboundNames formula) :=
  .of_subset (fun _ member => Option.isNone_iff_eq_none.1 (List.mem_filter.1 member).2)
    (List.Subset.refl _)

end Bindings

namespace Evaluation

variable {policy : Policy} {bindings : Bindings}

/-- Calculations agree that agree at every name they reach: a bound name has the same formula,
and a name without one comes to the same. -/
theorem outcome_congr {other : Policy} {others : Bindings} {resolving : List String}
    {formula : Formula}
    (sameFormula : ∀ name bound, bindings.Reaches formula name →
      bindings.find? name = some bound → others.find? name = some bound)
    (sameUnbound : ∀ name resolving, bindings.Reaches formula name →
      bindings.find? name = none → name ∉ resolving →
      outcome other others resolving (.named name) = policy.unbound name) :
    outcome other others resolving formula = outcome policy bindings resolving formula := by
  induction resolving, formula using calculation_induction bindings with
  | literal resolving value => rw [outcome_literal, outcome_literal]
  | cyclic resolving name inside => rw [outcome_cyclic inside, outcome_cyclic inside]
  | unbound resolving name fresh unbound =>
      rw [outcome_unbound fresh unbound]
      exact sameUnbound name resolving (Bindings.reaches_named_self name) unbound fresh
  | bound resolving name formula fresh found inductionHypothesis =>
      have behind {reached : String} (inside : bindings.Reaches formula reached) :
          bindings.Reaches (.named name) reached :=
        (Bindings.reaches_named_iff found reached).2 (.inr inside)
      rw [outcome_bound fresh found,
        outcome_bound fresh (sameFormula name formula (Bindings.reaches_named_self name) found)]
      exact inductionHypothesis
        (fun reached bound inside => sameFormula reached bound (behind inside))
        (fun reached stack inside => sameUnbound reached stack (behind inside))
  | binary resolving operator left right leftHypothesis rightHypothesis =>
      simp only [Bindings.reaches_binary_iff, or_imp, forall_and] at sameFormula sameUnbound
      rw [outcome_binary, outcome_binary, leftHypothesis sameFormula.1 sameUnbound.1,
        rightHypothesis sameFormula.2 sameUnbound.2]

/-- Only a name without a formula is reported as undefined, and only if such names are rejected. -/
theorem outcome_eq_undefinedVariable {resolving : List String} {formula : Formula} {name : String}
    (failed : outcome policy bindings resolving formula = .error (.undefinedVariable name)) :
    policy = .reject ∧ bindings.find? name = none ∧ bindings.Reaches formula name := by
  induction resolving, formula using calculation_induction bindings with
  | literal resolving value =>
      rw [outcome_literal] at failed
      cases failed
  | cyclic resolving other inside =>
      rw [outcome_cyclic inside] at failed
      cases failed
  | unbound resolving other fresh unbound =>
      rw [outcome_unbound fresh unbound] at failed
      cases policy <;> cases failed
      exact ⟨rfl, unbound, Bindings.reaches_named_self name⟩
  | bound resolving other formula fresh found inductionHypothesis =>
      rw [outcome_bound fresh found] at failed
      obtain ⟨rejects, unbound, reached⟩ := inductionHypothesis failed
      exact ⟨rejects, unbound, (Bindings.reaches_named_iff found name).2 (.inr reached)⟩
  | binary resolving operator left right leftHypothesis rightHypothesis =>
      rw [Bindings.reaches_binary_iff]
      rcases outcome_binary_eq_error failed with inLeft | inRight | division
      · obtain ⟨rejects, unbound, reached⟩ := leftHypothesis inLeft
        exact ⟨rejects, unbound, .inl reached⟩
      · obtain ⟨rejects, unbound, reached⟩ := rightHypothesis inRight
        exact ⟨rejects, unbound, .inr reached⟩
      · cases division

/-- As long as no undefined name is met, every step is the same over more bindings and with either
policy. What stands behind the first failure is never calculated. -/
theorem outcome_of_extends {others : Bindings} (larger : others.Extends bindings)
    (other : Policy) {resolving : List String} {formula : Formula}
    (defined : ∀ name,
      outcome .reject bindings resolving formula ≠ .error (.undefinedVariable name)) :
    outcome other others resolving formula = outcome .reject bindings resolving formula := by
  induction resolving, formula using calculation_induction bindings with
  | literal resolving value => rw [outcome_literal, outcome_literal]
  | cyclic resolving name inside => rw [outcome_cyclic inside, outcome_cyclic inside]
  | unbound resolving name fresh unbound =>
      exact absurd (outcome_unbound fresh unbound) (defined name)
  | bound resolving name formula fresh found inductionHypothesis =>
      rw [outcome_bound fresh found] at defined ⊢
      rw [outcome_bound fresh (larger name formula found), inductionHypothesis defined]
  | binary resolving operator left right leftHypothesis rightHypothesis =>
      rw [outcome_binary, outcome_binary]
      rw [outcome_binary] at defined
      cases leftOutcome : outcome .reject bindings resolving left with
      | error failure =>
          rw [leftOutcome] at defined leftHypothesis
          rw [leftHypothesis defined]
          rfl
      | ok leftValue =>
          rw [leftOutcome] at defined leftHypothesis
          rw [leftHypothesis nofun]
          cases rightOutcome : outcome .reject bindings resolving right with
          | error failure =>
              rw [rightOutcome] at defined rightHypothesis
              rw [rightHypothesis defined]
          | ok rightValue =>
              rw [rightOutcome] at rightHypothesis
              rw [rightHypothesis nofun]

end Evaluation

namespace Formula

/-- Whoever counts unbound names as zero might as well bind them to zero, in any order, and reject
all others: the values and the failures are the same, and so are the names that refer to
themselves. There are always finitely many names to bind, and none is reported as undefined. -/
theorem evaluate_zero_eq_defineZeros (bindings : Bindings) (formula : Formula) :
    (∀ name, formula.evaluate .zero bindings ≠ .error (.undefinedVariable name)) ∧
    (∃ names, bindings.Missing formula names) ∧
    ∀ names, bindings.Missing formula names →
      formula.evaluate .zero bindings = formula.evaluate .reject (bindings.defineZeros names) ∧
      ∀ name, TransGen (bindings.defineZeros names).Refers name name ↔
        TransGen bindings.Refers name name := by
  simp only [evaluate_eq_outcome]
  refine ⟨?_, ⟨_, bindings.missing_unboundNames formula⟩, fun names missing => ⟨?_, ?_⟩⟩
  · intro name failed
    have rejects := (Evaluation.outcome_eq_undefinedVariable failed).1
    cases rejects
  · symm
    apply Evaluation.outcome_congr
    · intro name bound _ found
      have outside : name ∉ names := by
        intro inside
        rw [missing.unbound name inside] at found
        cases found
      rwa [Bindings.find?_defineZeros, if_neg outside]
    · intro name resolving reached unbound fresh
      have zero : (bindings.defineZeros names).find? name = some (.literal 0) := by
        rw [Bindings.find?_defineZeros, if_pos (missing.complete name reached unbound)]
      rw [Evaluation.outcome_bound fresh zero, Evaluation.outcome_literal]
      rfl
  · intro name
    have same : (bindings.defineZeros names).Refers = bindings.Refers := by
      funext name other
      exact propext (Bindings.refers_defineZeros_iff missing.unbound name other)
    rw [same]

/-- An unbound name below a bound one counts as zero, also where zero is a divisor. -/
theorem evaluate_zero_divisor :
    (Bindings.ofList [("net", .binary .subtract (.named "p") (.named "tax"))]).Missing
      (.binary .divide (.named "net") (.named "tax")) ["tax", "p"] ∧
    (binary .divide (named "net") (named "tax")).evaluate .reject
      ((Bindings.ofList [("net", .binary .subtract (.named "p") (.named "tax"))]).defineZeros
        ["tax", "p"]) = .error .divisionByZero := by
  have missing : (Bindings.ofList [("net", .binary .subtract (.named "p") (.named "tax"))]).Missing
      (.binary .divide (.named "net") (.named "tax")) ["tax", "p"] :=
    .of_subset (by decide) (by decide)
  refine ⟨missing, ?_⟩
  rw [← ((evaluate_zero_eq_defineZeros _ _).2.2 _ missing).1]
  rfl

/-- Further bindings and the other policy change an outcome only where a name without a binding was
reported. A name that is reported is reached and has no binding. -/
theorem evaluate_changes_only_undefined (bindings : Bindings) (formula : Formula) :
    (∀ others : Bindings, others.Extends bindings →
      (∀ name, formula.evaluate .reject bindings ≠ .error (.undefinedVariable name)) →
      formula.evaluate .reject others = formula.evaluate .reject bindings ∧
      formula.evaluate .zero bindings = formula.evaluate .reject bindings ∧
      formula.evaluate .zero others = formula.evaluate .reject bindings) ∧
    ∀ name, formula.evaluate .reject bindings = .error (.undefinedVariable name) →
      bindings.find? name = none ∧ bindings.Reaches formula name := by
  simp only [evaluate_eq_outcome]
  constructor
  · intro others larger defined
    exact ⟨Evaluation.outcome_of_extends larger .reject defined,
      Evaluation.outcome_of_extends (.refl bindings) .zero defined,
      Evaluation.outcome_of_extends larger .zero defined⟩
  · intro name failed
    exact (Evaluation.outcome_eq_undefinedVariable failed).2

/-- A division by zero in front of an unbound name is reported also when that name is defined in
terms of itself; behind it, the unbound name is reported. -/
theorem evaluate_division_before_unbound :
    (binary .add (binary .divide (named "p") (literal 0)) (named "tax")).evaluate .zero
      ((Bindings.ofList [("p", .literal 1)]).define "tax" (.named "tax")) =
        .error .divisionByZero ∧
    (Bindings.ofList [("p", .literal 1)]).Reaches
      (binary .add (named "tax") (binary .divide (named "p") (literal 0))) "tax" := by
  have divided : (binary .add (binary .divide (named "p") (literal 0)) (named "tax")).evaluate
      .reject (.ofList [("p", .literal 1)]) = .error .divisionByZero := rfl
  have reported : (binary .add (named "tax") (binary .divide (named "p") (literal 0))).evaluate
      .reject (.ofList [("p", .literal 1)]) = .error (.undefinedVariable "tax") := rfl
  constructor
  · rw [← divided]
    refine ((evaluate_changes_only_undefined _ _).1 _ (Bindings.extends_define rfl _) ?_).2.2
    rw [divided]
    exact nofun
  · exact ((evaluate_changes_only_undefined _ _).2 "tax" reported).2

end Formula

end PriceFormula
