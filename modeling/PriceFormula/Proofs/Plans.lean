import PriceFormula.Proofs.Parsing

/-!
This file compares the two plans by which items are put together. The main statement is that the
direct plan is taken where all operators belong to one class, and that splitting would come to the
same formula there, or to a fault as well.
-/

namespace PriceFormula

open Form

/-- The operator of an item, unless it is an operand. -/
def Item.operator? (item : Item) : Option Operator :=
  item.mark.content

/-- All operators among the items belong to one class. -/
def Item.SameClass (items : List Item) : Prop :=
  (∀ item ∈ items, ∀ operator ∈ item.operator?, operator.isFactor) ∨
    ∀ item ∈ items, ∀ operator ∈ item.operator?, operator.isTerm

/-- The operators among the places are those among the items. -/
theorem Item.any_mark_iff (items : List Item) (test : Operator → Bool) :
    (items.map Item.mark).any (fun mark => mark.content.any test) ↔
      ∃ item ∈ items, ∃ operator ∈ item.operator?, test operator := by
  simp only [List.any_map, List.any_eq_true, Function.comp_apply, Option.any_eq_true, operator?,
    Option.mem_def]

/-- Operators are of one class exactly if their places do not mix the classes. -/
theorem Item.sameClass_iff (items : List Item) :
    SameClass items ↔ mixesClasses (items.map Item.mark) = false := by
  have opposite (operator : Operator) : operator.isFactor ↔ ¬ operator.isTerm := by
    cases operator <;> decide
  rw [mixesClasses, Bool.and_eq_false_iff, ← Bool.not_eq_true, ← Bool.not_eq_true, any_mark_iff,
    any_mark_iff, SameClass, or_comm]
  simp only [opposite, not_exists, not_and, not_not]

/-- Tokens are assembled at once exactly if their operators are of one class. -/
theorem Plan.ofTokens_eq_direct_iff (tokens : List Token) :
    ofTokens tokens = .direct ↔ Item.SameClass (tokens.map Item.ofToken) := by
  rw [ofTokens_eq, Item.sameClass_iff]
  cases mixesClasses ((tokens.map Item.ofToken).map Item.mark) <;> decide

/-- Without term operators there is one segment, which is all there is to put together. -/
theorem assembleSplit_of_no_term {items : List Item}
    (noTerm : ∀ item ∈ items, ∀ operator ∈ item.operator?, ¬ operator.isTerm)
    (endColumn : Nat) : assembleSplit items endColumn = assemble items endColumn := by
  have noCut : ∀ item ∈ items, Item.termOperator? item = none := by
    intro item member
    cases item with
    | operand formula column => rfl
    | operator operator column => exact if_neg (noTerm _ member operator rfl)
  rw [assembleSplit, Piece.ofItems_eq_ofParts, cutAt_of_none noCut, Piece.ofParts, Piece.ofRun]
  cases items with
  | nil => rfl
  | cons item rest =>
      rw [List.isEmpty_cons, if_neg Bool.false_ne_true, Piece.toItems, Piece.toItem]
      cases assemble (item :: rest) endColumn with
      | error fault => rfl
      | ok formula => rfl

/-- Between term operators the operands of a chain are segments of their own, which form the same
chain again. -/
theorem Assembly.Chain.toItems {items : List Item} {formula : Formula}
    (chain : Chain items formula)
    (terms : ∀ item ∈ items, ∀ operator ∈ item.operator?, operator.isTerm)
    (stop : Nat) :
    ∃ outlined, Piece.toItems (Piece.ofItems stop items) = .ok outlined ∧
      Chain outlined formula := by
  induction chain generalizing stop with
  | operand formula column => exact ⟨_, rfl, .operand formula column⟩
  | extend chain operator cut right column inductionHypothesis =>
      obtain ⟨outlined, built, outlinedChain⟩ := inductionHypothesis
        (fun item member => terms item (List.mem_append_left _ member)) cut
      refine ⟨outlined ++ [.operator operator cut, .operand right column], ?_,
        outlinedChain.extend operator cut right column⟩
      have term : operator.isTerm :=
        terms _ (List.mem_append_right _ List.mem_cons_self) operator rfl
      have isCut : Item.termOperator? (.operator operator cut) = some ⟨cut, operator⟩ :=
        if_pos term
      have alone : cutAt Item.termOperator? [.operand right column] =
          ([.operand right column], []) := rfl
      rw [Piece.ofItems_eq_ofParts] at built ⊢
      rw [cutAt_append isCut, alone, Piece.ofParts_concat, Piece.toItems_append, built]
      rfl

/-- Split items that do not alternate are refused, whatever their operators are. -/
theorem assembleSplit_of_malformed {items : List Item} (endColumn : Nat)
    (malformed : ¬ Alternating ((items.map Item.mark).map Located.content)) :
    ∃ fault, assembleSplit items endColumn = .error fault := by
  let parts := cutAt Form.termOperator? (items.map Item.mark)
  cases found : (runFault? endColumn parts.1 parts.2).or
      (runRule endColumn (outline parts.1 parts.2)) with
  | some fault => exact ⟨fault, assembleSplit_of_fault found⟩
  | none => exact absurd (alternating_of_cutAt found) malformed

/-- Splitting a chain of terms comes to the formula of the chain. -/
theorem Assembly.Chain.assembleSplit {items : List Item} {formula : Formula}
    (chain : Chain items formula) (sameClass : Item.SameClass items) (endColumn : Nat) :
    assembleSplit items endColumn = .ok formula := by
  rcases sameClass with factors | terms
  · rw [assembleSplit_of_no_term, assemble_chain chain]
    intro item member operator found
    rw [Operator.isTerm_eq_not_isFactor, factors item member operator found]
    exact Bool.false_ne_true
  · obtain ⟨outlined, built, outlinedChain⟩ := chain.toItems terms endColumn
    rw [PriceFormula.assembleSplit, built]
    exact assemble_chain outlinedChain endColumn

/-- The direct plan is taken exactly where all operators belong to one class. Splitting the items
comes to the same formula there, or both plans are refused, and without term operators they are
refused with the same fault. -/
theorem plans_agree_on_one_class (endColumn : Nat) :
    (∀ tokens, Plan.ofTokens tokens = .direct ↔ Item.SameClass (tokens.map Item.ofToken)) ∧
    ∀ items, Item.SameClass items →
      ((∃ formula, assemble items endColumn = .ok formula ∧
          assembleSplit items endColumn = .ok formula) ∨
        ∃ fault other, assemble items endColumn = .error fault ∧
          assembleSplit items endColumn = .error other) ∧
      ((∀ item ∈ items, ∀ operator ∈ item.operator?, ¬ operator.isTerm) →
        assembleSplit items endColumn = assemble items endColumn) := by
  refine ⟨Plan.ofTokens_eq_direct_iff, fun items sameClass => ⟨?_, fun noTerm =>
    assembleSplit_of_no_term noTerm endColumn⟩⟩
  rcases Assembly.assemble_cases items endColumn with
    ⟨formula, built, chain, _⟩ | ⟨fault, refused, faulty⟩
  · exact .inl ⟨formula, built, chain.assembleSplit sameClass endColumn⟩
  · have malformed : ¬ Alternating ((items.map Item.mark).map Located.content) := by
      rw [← runRule_eq_none_iff endColumn, faulty]
      exact Option.some_ne_none fault
    obtain ⟨other, alsoRefused⟩ := assembleSplit_of_malformed endColumn malformed
    exact .inr ⟨fault, other, refused, alsoRefused⟩

/-- Terms without a fault, terms that both plans refuse, and factors without an operand. -/
theorem plans_agree_on_surplus_operand :
    let chained : List Item :=
      [.operand (.named "p") 1, .operator .subtract 3, .operand (.named "l") 5]
    let surplus : List Item :=
      [.operand (.named "p") 1, .operand (.named "l") 3, .operator .add 5, .operator .add 7]
    let factors : List Item :=
      [.operand (.named "p") 1, .operator .multiply 3, .operator .divide 5]
    (Item.SameClass chained ∧
      assembleSplit chained 6 = .ok (.binary .subtract (.named "p") (.named "l"))) ∧
    (Item.SameClass surplus ∧ ∃ fault, assembleSplit surplus 8 = .error fault) ∧
    (Item.SameClass factors ∧ assembleSplit factors 6 = .error ⟨5, .missingRight .multiply⟩) := by
  intro chained surplus factors
  have terms : Item.SameClass chained := .inr (by decide)
  have surplusTerms : Item.SameClass surplus := .inr (by decide)
  have onlyFactors : Item.SameClass factors := .inl (by decide)
  refine ⟨⟨terms, ?_⟩, ⟨surplusTerms, ?_⟩, onlyFactors, ?_⟩
  · have built : assemble chained 6 =
        .ok (.binary .subtract (.named "p") (.named "l")) := rfl
    rcases ((plans_agree_on_one_class 6).2 chained terms).1 with
      ⟨formula, direct, split⟩ | ⟨fault, _, direct, _⟩
    · rw [split, ← direct, built]
    · rw [built] at direct
      cases direct
  · have refused : assemble surplus 8 = .error ⟨7, .missingRight .add⟩ := rfl
    rcases ((plans_agree_on_one_class 8).2 surplus surplusTerms).1 with
      ⟨formula, direct, _⟩ | ⟨_, fault, _, split⟩
    · rw [refused] at direct
      cases direct
    · exact ⟨fault, split⟩
  · rw [((plans_agree_on_one_class 6).2 factors onlyFactors).2 (by decide)]
    rfl

end PriceFormula
