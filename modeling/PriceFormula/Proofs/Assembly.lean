import PriceFormula.Formula.Assembly
import PriceFormula.Proofs.Form

/-!
This file says what assembling makes of any items. Items that alternate become the formula that
groups to the left, and all others are refused with the fault of the run rule.
-/

namespace PriceFormula

open Form

/-- The place of an item keeps its column, and its operator if it has one. -/
def Item.mark : Item → Mark
  | .operand _ column => ⟨column, none⟩
  | .operator found column => ⟨column, some found⟩

namespace Assembly

/-- The formula joins the operands from left to right and does not look at the classes of the
operators. -/
inductive Chain : List Item → Formula → Prop where
  | operand (formula : Formula) (column : Nat) : Chain [.operand formula column] formula
  | extend {items : List Item} {left : Formula} (chain : Chain items left) (operator : Operator)
      (operatorColumn : Nat) (right : Formula) (column : Nat) :
      Chain (items ++ [.operator operator operatorColumn, .operand right column])
        (.binary operator left right)

/-- A chain in front is reduced to one entry before anything behind it is looked at. -/
theorem reduce_chain (endColumn : Nat) {items : List Item} {formula : Formula}
    (chain : Chain items formula) :
    ∃ column, ∀ rest,
      reduce endColumn [] (items ++ rest) = reduce endColumn [⟨formula, column⟩] rest := by
  induction chain with
  | operand formula column => exact ⟨column, fun _ => rfl⟩
  | extend chain operator operatorColumn right column inductionHypothesis =>
      obtain ⟨start, reduced⟩ := inductionHypothesis
      refine ⟨start, fun rest => ?_⟩
      rw [List.append_assoc, reduced]
      rfl

/-- Items that alternate become their formula. -/
theorem assemble_chain {items : List Item} {formula : Formula} (chain : Chain items formula)
    (endColumn : Nat) : assemble items endColumn = .ok formula := by
  obtain ⟨column, reduced⟩ := reduce_chain endColumn chain
  have whole := reduced []
  rw [List.append_nil] at whole
  rw [assemble, whole]
  rfl

/-- Over a stack that is not empty the first operator without a right operand is the fault. -/
theorem reduce_of_dangling (endColumn : Nat) :
    ∀ (entry : Entry) (stack : List Entry) (items : List Item) {fault : Diagnostic Fault},
      danglingOperator? endColumn (items.map Item.mark) = some fault →
      reduce endColumn (entry :: stack) items = .error fault
  | _, _, [], _, dangling => nomatch dangling
  | entry, stack, .operand formula column :: rest, _, dangling =>
    reduce_of_dangling endColumn ⟨formula, column⟩ (entry :: stack) rest dangling
  | _, _, [.operator _ _], _, dangling => congrArg Except.error (Option.some.inj dangling)
  | _, _, .operator _ _ :: .operator _ _ :: _, _, dangling =>
    congrArg Except.error (Option.some.inj dangling)
  | entry, stack, .operator operator _ :: .operand right _ :: rest, _, dangling =>
    reduce_of_dangling endColumn ⟨.binary operator entry.formula right, entry.column⟩ stack rest
      dangling

/-- Without dangling operators the stack keeps its columns from the bottom on, and every surplus
operand adds its own. The latest item is always an operand, at any column. -/
theorem reduce_columns (endColumn : Nat) :
    ∀ (entry : Entry) (stack : List Entry) (items : List Item) (latest : Nat),
      danglingOperator? endColumn (items.map Item.mark) = none →
      ∃ final, reduce endColumn (entry :: stack) items = .ok final ∧
        final.reverse.map Entry.column =
          (entry :: stack).reverse.map Entry.column ++
            surplusColumns (⟨latest, none⟩ :: items.map Item.mark)
  | entry, stack, [], _, _ => ⟨entry :: stack, rfl, (List.append_nil _).symm⟩
  | entry, stack, .operand formula column :: rest, _, sound => by
      obtain ⟨final, reduced, columns⟩ :=
        reduce_columns endColumn ⟨formula, column⟩ (entry :: stack) rest column sound
      refine ⟨final, reduced, ?_⟩
      rw [columns, List.reverse_cons, List.map_append, List.append_assoc]
      rfl
  | _, _, [.operator _ _], _, sound => nomatch sound
  | _, _, .operator _ _ :: .operator _ _ :: _, _, sound => nomatch sound
  | entry, stack, .operator operator _ :: .operand right column :: rest, _, sound => by
      obtain ⟨final, reduced, columns⟩ := reduce_columns endColumn
        ⟨.binary operator entry.formula right, entry.column⟩ stack rest column sound
      refine ⟨final, reduced, ?_⟩
      rw [columns, List.reverse_cons, List.reverse_cons, List.map_append, List.map_append]
      rfl

/-- A surplus operand is reported where it starts. -/
theorem finish_of_surplus (endColumn : Nat) {entries : List Entry} {first second : Nat}
    {others : List Nat} (columns : entries.map Entry.column = first :: second :: others) :
    finish endColumn entries = .error ⟨second, .missingOperator⟩ := by
  obtain ⟨bottom, rest, rfl, _, columns⟩ := List.map_eq_cons_iff.1 columns
  obtain ⟨surplus, rest, rfl, rfl, _⟩ := List.map_eq_cons_iff.1 columns
  rfl

/-- Items that are refused by the run rule are refused with the same fault. -/
theorem assemble_of_fault {items : List Item} {endColumn : Nat} {fault : Diagnostic Fault}
    (refused : runRule endColumn (items.map Item.mark) = some fault) :
    assemble items endColumn = .error fault := by
  match items, refused with
  | [], refused => exact congrArg Except.error (Option.some.inj refused)
  | .operator operator column :: rest, refused =>
    exact congrArg Except.error (Option.some.inj refused)
  | .operand formula column :: rest, refused =>
    have first : reduce endColumn [] (.operand formula column :: rest) =
        reduce endColumn [⟨formula, column⟩] rest := rfl
    rw [List.map_cons, Item.mark, runRule_operand] at refused
    cases dangling : danglingOperator? endColumn (rest.map Item.mark) with
    | some found =>
        rw [dangling, Option.some_or] at refused
        rw [assemble, first, reduce_of_dangling endColumn _ _ _ dangling]
        exact congrArg Except.error (Option.some.inj refused)
    | none =>
        obtain ⟨final, reduced, columns⟩ :=
          reduce_columns endColumn ⟨formula, column⟩ [] rest column dangling
        rw [dangling, Option.none_or] at refused
        obtain ⟨surplus, head, same⟩ := Option.map_eq_some_iff.1 refused
        obtain ⟨others, surplusColumns⟩ := List.head?_eq_some_iff.1 head
        rw [surplusColumns] at columns
        rw [assemble, first, reduced, ← same]
        exact finish_of_surplus endColumn columns

/-- Alternating items form a chain. -/
theorem exists_chain {front : List Item} {left : Formula} (chain : Chain front left) :
    ∀ (column : Nat) (rest : List Item),
      Alternating ((⟨column, none⟩ :: rest.map Item.mark : List Mark).map Located.content) →
      ∃ formula, Chain (front ++ rest) formula
  | _, [], _ => ⟨left, by rwa [List.append_nil]⟩
  | _, .operand _ _ :: _, alternating => nomatch alternating
  | _, [.operator _ _], alternating => nomatch alternating
  | _, .operator _ _ :: .operator _ _ :: _, .cons _ alternating => nomatch alternating
  | _, .operator operator operatorColumn :: .operand right column :: rest, alternating => by
      have behind : Alternating
          ((⟨column, none⟩ :: rest.map Item.mark : List Mark).map Located.content) := by
        cases alternating with
        | cons _ alternating => exact alternating
      have longer := chain.extend operator operatorColumn right column
      have found := exists_chain longer column rest behind
      rwa [List.append_assoc] at found

/-- Whatever alternates between operands and operators is a chain. -/
theorem exists_chain_of_alternating {items : List Item}
    (alternating : Alternating ((items.map Item.mark).map Located.content)) :
    ∃ formula, Chain items formula := by
  match items, alternating with
  | .operand formula column :: rest, alternating =>
    exact exists_chain (.operand formula column) column rest alternating

/-- Items are refused exactly with the fault of the run rule. -/
theorem assemble_cases (items : List Item) (endColumn : Nat) :
    (∃ formula, assemble items endColumn = .ok formula ∧ Chain items formula ∧
      runRule endColumn (items.map Item.mark) = none) ∨
    ∃ fault, assemble items endColumn = .error fault ∧
      runRule endColumn (items.map Item.mark) = some fault := by
  cases found : runRule endColumn (items.map Item.mark) with
  | some fault => exact .inr ⟨fault, assemble_of_fault found, rfl⟩
  | none =>
      have alternating := (runRule_eq_none_iff endColumn (items.map Item.mark)).1 found
      obtain ⟨formula, chain⟩ := exists_chain_of_alternating alternating
      exact .inl ⟨formula, assemble_chain chain endColumn, chain, rfl⟩

end Assembly

end PriceFormula
