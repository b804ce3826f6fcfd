import Mathlib.Data.List.Nodup
import Mathlib.Data.List.Perm.Subperm
import PriceFormula.Proofs.Outcome

/-!
This file watches calculations while they are under way. The main statement is that every
calculation comes to its end with no more nested calculations than the formula and all bound
formulas are deep, and that the stack never holds a name twice or a name without a formula.
-/

namespace PriceFormula.Evaluation

/-- The number of calculations under way and the names under expansion. -/
structure Moment where
  nesting : Nat
  resolving : List String

/-- The moments of a calculation: its start, those inside of it, and its end. -/
def framed (nesting : Nat) (before after : List String) (inside : List Moment) : List Moment :=
  ⟨nesting, before⟩ :: inside ++ [⟨nesting, after⟩]

/-- Calculates a formula and keeps the moments at which calculations start and end. -/
def record (policy : Policy) (bindings : Bindings) :
    (budget nesting : Nat) → Formula → (resolving : List String) → Option (Result × List Moment)
  | 0, _, _, _ => none
  | _ + 1, nesting, .literal value, resolving =>
    some ((.ok value, resolving), framed nesting resolving resolving [])
  | budget + 1, nesting, .named name, resolving =>
    if name ∈ resolving then
      some ((.error (.cyclicVariable name), resolving), framed nesting resolving resolving [])
    else
      match bindings.find? name with
      | some bound =>
        (record policy bindings budget (nesting + 1) bound (name :: resolving)).map
          fun (result, inside) =>
            ((result.1, result.2.tail), framed nesting resolving result.2.tail inside)
      | none => some ((policy.unbound name, resolving), framed nesting resolving resolving [])
  | budget + 1, nesting, .binary operator left right, resolving =>
    match record policy bindings budget (nesting + 1) left resolving with
    | none => none
    | some ((.error failure, after), inLeft) =>
      some ((.error failure, after), framed nesting resolving after inLeft)
    | some ((.ok leftValue, between), inLeft) =>
      match record policy bindings budget (nesting + 1) right between with
      | none => none
      | some ((.error failure, after), inRight) =>
        some ((.error failure, after), framed nesting resolving after (inLeft ++ inRight))
      | some ((.ok rightValue, after), inRight) =>
        some ((operator.apply leftValue rightValue, after),
          framed nesting resolving after (inLeft ++ inRight))

variable {policy : Policy} {bindings : Bindings}

/-- A recorded calculation is the calculation itself. -/
theorem record_result (policy : Policy) (bindings : Bindings) (budget nesting : Nat)
    (formula : Formula) (resolving : List String) :
    (record policy bindings budget nesting formula resolving).map Prod.fst =
      run policy bindings budget formula resolving := by
  induction budget generalizing nesting formula resolving with
  | zero => rfl
  | succ budget inductionHypothesis =>
      cases formula with
      | literal value => rfl
      | named name =>
          unfold record run
          split
          · rfl
          · cases bindings.find? name with
            | none => rfl
            | some bound =>
                dsimp only
                rw [← inductionHypothesis (nesting + 1), Option.map_map, Option.map_map]
                rfl
      | binary operator left right =>
          unfold record run
          rw [← inductionHypothesis (nesting + 1) left]
          rcases record policy bindings budget (nesting + 1) left resolving with
            _ | ⟨⟨_ | leftValue, between⟩, inLeft⟩
          · rfl
          · rfl
          · dsimp only [Option.map_some]
            rw [← inductionHypothesis (nesting + 1) right]
            rcases record policy bindings budget (nesting + 1) right between with
              _ | ⟨⟨_ | rightValue, after⟩, inRight⟩ <;> rfl

/-- A recorded calculation comes to the one outcome and keeps its stack. -/
theorem result_of_record {budget nesting : Nat} {formula : Formula} {resolving : List String}
    {result : Result} {moments : List Moment}
    (recorded : record policy bindings budget nesting formula resolving = some (result, moments)) :
    result = (outcome policy bindings resolving formula, resolving) := by
  have finished := record_result policy bindings budget nesting formula resolving
  rw [recorded] at finished
  exact result_of_run finished.symm

/-- The moments of a calculation are framed by its own and hold those of the calculations that it
calls for. A formula that calls for none needs no budget beyond its own. -/
inductive Course (policy : Policy) (bindings : Bindings) :
    Nat → List String → Formula → List Moment → Prop where
  | settled {nesting : Nat} {resolving : List String} {formula : Formula}
      (ends : ∀ budget, (run policy bindings (budget + 1) formula resolving).isSome) :
      Course policy bindings nesting resolving formula (framed nesting resolving resolving [])
  | bound {nesting : Nat} {resolving : List String} {name : String} {formula : Formula}
      {inside : List Moment} (fresh : name ∉ resolving)
      (found : bindings.find? name = some formula)
      (course : Course policy bindings (nesting + 1) (name :: resolving) formula inside) :
      Course policy bindings nesting resolving (.named name)
        (framed nesting resolving resolving inside)
  | failed {nesting : Nat} {resolving : List String} {operator : Operator} {left right : Formula}
      {failure : Failure} {inLeft : List Moment}
      (refused : outcome policy bindings resolving left = .error failure)
      (course : Course policy bindings (nesting + 1) resolving left inLeft) :
      Course policy bindings nesting resolving (.binary operator left right)
        (framed nesting resolving resolving inLeft)
  | binary {nesting : Nat} {resolving : List String} {operator : Operator} {left right : Formula}
      {value : Float} {inLeft inRight : List Moment}
      (valued : outcome policy bindings resolving left = .ok value)
      (leftCourse : Course policy bindings (nesting + 1) resolving left inLeft)
      (rightCourse : Course policy bindings (nesting + 1) resolving right inRight) :
      Course policy bindings nesting resolving (.binary operator left right)
        (framed nesting resolving resolving (inLeft ++ inRight))

/-- The moments that are recorded are those of the course of the calculation. -/
theorem course_of_record {budget nesting : Nat} {resolving : List String} {formula : Formula}
    {result : Result} {moments : List Moment}
    (recorded : record policy bindings budget nesting formula resolving = some (result, moments)) :
    Course policy bindings nesting resolving formula moments := by
  induction budget generalizing nesting resolving formula result moments with
  | zero => cases recorded
  | succ budget inductionHypothesis =>
      cases formula with
      | literal value =>
          cases recorded
          exact .settled fun _ => rfl
      | named name =>
          unfold record at recorded
          split at recorded
          · next inside =>
            cases recorded
            exact .settled fun _ => by rw [run, if_pos inside]; rfl
          · next fresh =>
            cases found : bindings.find? name with
            | none =>
                rw [found] at recorded
                cases recorded
                exact .settled fun _ => by rw [run, if_neg fresh, found]; rfl
            | some formula =>
                rw [found] at recorded
                obtain ⟨⟨inner, inside⟩, expanded, same⟩ := Option.map_eq_some_iff.1 recorded
                obtain rfl := result_of_record expanded
                cases same
                exact .bound fresh found (inductionHypothesis expanded)
      | binary operator left right =>
          unfold record at recorded
          cases leftRecord : record policy bindings budget (nesting + 1) left resolving with
          | none => simp [leftRecord] at recorded
          | some recordedLeft =>
              obtain ⟨leftResult, inLeft⟩ := recordedLeft
              -- The left operand leaves the stack as it was, so the right one starts from the same.
              obtain rfl := result_of_record leftRecord
              cases valued : outcome policy bindings resolving left with
              | error failure =>
                  simp only [leftRecord, valued] at recorded
                  cases recorded
                  exact .failed valued (inductionHypothesis leftRecord)
              | ok leftValue =>
                  simp only [leftRecord, valued] at recorded
                  cases rightRecord :
                      record policy bindings budget (nesting + 1) right resolving with
                  | none => simp [rightRecord] at recorded
                  | some recordedRight =>
                      obtain ⟨rightResult, inRight⟩ := recordedRight
                      obtain rfl := result_of_record rightRecord
                      have course : Course policy bindings nesting resolving
                          (.binary operator left right)
                          (framed nesting resolving resolving (inLeft ++ inRight)) :=
                        .binary valued (inductionHypothesis leftRecord)
                          (inductionHypothesis rightRecord)
                      cases rightValued : outcome policy bindings resolving right
                      all_goals
                        simp only [rightRecord, rightValued] at recorded
                        cases recorded
                        exact course

/-- The start and the end of a calculation that keeps its stack are the same moment. -/
theorem forall_mem_framed {nesting : Nat} {resolving : List String} {inside : List Moment}
    {property : Moment → Prop} :
    (∀ moment ∈ framed nesting resolving resolving inside, property moment) ↔
      property ⟨nesting, resolving⟩ ∧ ∀ moment ∈ inside, property moment := by
  rw [framed, List.forall_mem_append, List.forall_mem_cons, List.forall_mem_singleton]
  exact ⟨fun kept => kept.1, fun kept => ⟨kept, kept.1⟩⟩

/-! ### How deep calculations are nested -/

/-- A budget suffices for an operator if it suffices for the operands that are calculated. -/
theorem run_binary_isSome_iff (budget : Nat) (operator : Operator) (left right : Formula)
    (resolving : List String) :
    (run policy bindings (budget + 1) (.binary operator left right) resolving).isSome ↔
      (run policy bindings budget left resolving).isSome ∧
        ∀ value, outcome policy bindings resolving left = .ok value →
          (run policy bindings budget right resolving).isSome := by
  rw [run]
  cases leftRun : run policy bindings budget left resolving with
  | none => simp
  | some leftResult =>
      obtain rfl := result_of_run leftRun
      cases outcome policy bindings resolving left with
      | error failure => simp
      | ok leftValue =>
          rcases rightRun : run policy bindings budget right resolving with
            _ | ⟨_ | rightValue, after⟩ <;> simp [rightRun]

/-- A budget suffices exactly when no moment is nested deeper. -/
theorem Course.run_isSome_iff {nesting : Nat} {resolving : List String} {formula : Formula}
    {moments : List Moment} (course : Course policy bindings nesting resolving formula moments)
    (budget : Nat) :
    (run policy bindings budget formula resolving).isSome ↔
      ∀ moment ∈ moments, moment.nesting < nesting + budget := by
  have deeper (nesting budget : Nat) : nesting + 1 + budget = nesting + (budget + 1) := by omega
  induction course generalizing budget with
  | settled ends =>
      rw [forall_mem_framed]
      cases budget with
      | zero => simp [run]
      | succ budget => simp [ends]
  | bound fresh found _ inductionHypothesis =>
      rw [forall_mem_framed]
      cases budget with
      | zero => simp [run]
      | succ budget =>
          rw [run, if_neg fresh, found]
          simp [inductionHypothesis, deeper]
  | failed refused _ inductionHypothesis =>
      rw [forall_mem_framed]
      cases budget with
      | zero => simp [run]
      | succ budget =>
          rw [run_binary_isSome_iff, refused]
          simp [inductionHypothesis, deeper]
  | binary valued _ _ leftHypothesis rightHypothesis =>
      rw [forall_mem_framed]
      cases budget with
      | zero => simp [run]
      | succ budget =>
          rw [run_binary_isSome_iff, valued, List.forall_mem_append]
          simp [leftHypothesis, rightHypothesis, deeper]

/-- The stack holds every name once, and only bound names. -/
structure Orderly (bindings : Bindings) (resolving : List String) : Prop where
  nodup : resolving.Nodup
  bound : ∀ name ∈ resolving, (bindings.find? name).isSome

theorem Orderly.nil (bindings : Bindings) : Orderly bindings [] :=
  ⟨List.nodup_nil, fun _ member => nomatch member⟩

/-- Expanding a fresh bound name keeps the stack orderly. -/
theorem Orderly.expand {resolving : List String} (orderly : Orderly bindings resolving)
    {name : String} (fresh : name ∉ resolving) (found : (bindings.find? name).isSome) :
    Orderly bindings (name :: resolving) :=
  ⟨List.nodup_cons.2 ⟨fresh, orderly.nodup⟩, List.forall_mem_cons.2 ⟨found, orderly.bound⟩⟩

/-- An orderly stack holds at most all bound names. -/
theorem Orderly.length_le {resolving : List String} (orderly : Orderly bindings resolving) :
    resolving.length ≤ bindings.size := by
  have names : resolving ⊆ bindings.entries.map Prod.fst :=
    fun name member => Bindings.isSome_find?_iff.1 (orderly.bound name member)
  have fewer := (orderly.nodup.subperm names).length_le
  rwa [List.length_map] at fewer

/-- At all moments the stack is in order and the nesting is within what the calculation needs. -/
theorem Course.within {nesting : Nat} {resolving : List String} {formula : Formula}
    {moments : List Moment} (course : Course policy bindings nesting resolving formula moments)
    (orderly : Orderly bindings resolving) :
    ∀ moment ∈ moments, moment.nesting < nesting + needed bindings resolving formula ∧
      Orderly bindings moment.resolving := by
  have own (nesting : Nat) (resolving : List String) (formula : Formula) :
      nesting < nesting + needed bindings resolving formula :=
    Nat.lt_add_of_pos_right (needed_pos resolving formula)
  have deeper {nesting small large : Nat} (smaller : small < large) {inside : List Moment}
      (kept : ∀ moment ∈ inside, moment.nesting < nesting + 1 + small ∧
        Orderly bindings moment.resolving) :
      ∀ moment ∈ inside, moment.nesting < nesting + large ∧ Orderly bindings moment.resolving :=
    fun moment member => ⟨by have := (kept moment member).1; omega, (kept moment member).2⟩
  induction course with
  | settled ends =>
      exact forall_mem_framed.2 ⟨⟨own _ _ _, orderly⟩, fun _ member => nomatch member⟩
  | bound fresh found _ inductionHypothesis =>
      have expanded := inductionHypothesis (orderly.expand fresh (found ▸ rfl))
      exact forall_mem_framed.2
        ⟨⟨own _ _ _, orderly⟩, deeper (needed_expand_lt fresh found) expanded⟩
  | failed _ _ inductionHypothesis =>
      exact forall_mem_framed.2
        ⟨⟨own _ _ _, orderly⟩, deeper (needed_left_lt _ _ _ _) (inductionHypothesis orderly)⟩
  | binary _ _ _ leftHypothesis rightHypothesis =>
      exact forall_mem_framed.2 ⟨⟨own _ _ _, orderly⟩, List.forall_mem_append.2
        ⟨deeper (needed_left_lt _ _ _ _) (leftHypothesis orderly),
          deeper (needed_right_lt _ _ _ _) (rightHypothesis orderly)⟩⟩

end PriceFormula.Evaluation

namespace PriceFormula

/-- Every formula comes to its end over all bindings, also cyclic ones. Its calculation is nested
no deeper than the formula and all bound formulas are together, and the budgets that reach this
depth are the ones that suffice. The stack never holds a name twice, nor a name that is not
bound, and so never more names than there are bindings. -/
theorem Formula.evaluate_nested_within (policy : Policy) (bindings : Bindings)
    (formula : Formula) :
    ∃ moments,
      Evaluation.record policy bindings (formula.depth + bindings.depth) 1 formula [] =
        some ((formula.evaluate policy bindings, []), moments) ∧
      (∀ budget, Evaluation.run policy bindings budget formula [] =
          some (formula.evaluate policy bindings, []) ↔
        ∀ moment ∈ moments, moment.nesting ≤ budget) ∧
      ∀ moment ∈ moments,
        moment.nesting ≤ formula.depth + bindings.depth ∧
        moment.resolving.Nodup ∧
        (∀ name ∈ moment.resolving, (bindings.find? name).isSome) ∧
        moment.resolving.length ≤ bindings.size := by
  -- A recorded calculation comes to its end like the calculation, and its course shows the rest.
  have needs : Evaluation.needed bindings [] formula = formula.depth + bindings.depth := by
    rw [Evaluation.needed, Evaluation.reserve_nil, Bindings.depth]
  have finished := Evaluation.run_eq_outcome policy (Nat.le_of_eq needs)
  rw [← Evaluation.record_result policy bindings _ 1] at finished
  obtain ⟨⟨result, moments⟩, recorded, rfl⟩ := Option.map_eq_some_iff.1 finished
  have course := Evaluation.course_of_record recorded
  refine ⟨moments, ?_, fun budget => ?_, fun moment member => ?_⟩
  · rw [evaluate_eq_outcome, recorded, Evaluation.result_of_record recorded]
  · have suffices_iff := course.run_isSome_iff budget
    simp only [Nat.lt_one_add_iff] at suffices_iff
    rw [← suffices_iff, evaluate_eq_outcome]
    constructor
    · intro same
      rw [same]
      rfl
    · intro some
      obtain ⟨other, same⟩ := Option.isSome_iff_exists.1 some
      rw [same, Evaluation.result_of_run same]
  · obtain ⟨nested, orderly⟩ := course.within (.nil bindings) moment member
    rw [needs, Nat.lt_one_add_iff] at nested
    exact ⟨nested, orderly.nodup, orderly.bound, orderly.length_le⟩

end PriceFormula
