import PriceFormula.Formula.Text
import PriceFormula.Proofs.Printing
import PriceFormula.Proofs.Writing

/-!
This file says that the text of a formula, with every operator in front of its operands, can be read
in one way only. The main statement is that formulas with finite literals and proper names are the
same when their texts are.
-/

namespace PriceFormula

open Text

namespace Grammar

/-- The characters that words of operands can hold; the others stand between operands. -/
def isUnbroken (char : Char) : Bool :=
  char != ' ' && char != '(' && char != ')'

/-- A test that none of the characters between operands passes. -/
theorem isUnbroken_of_passes {test : Char → Bool} {char : Char} (passes : test char)
    (noBlank : ¬ test ' ') (noOpening : ¬ test '(') (noClosing : ¬ test ')') :
    isUnbroken char := by
  have differs (other : Char) (never : ¬ test other) : char ≠ other := by
    intro same
    exact never (same ▸ passes)
  simp [isUnbroken, differs ' ' noBlank, differs '(' noOpening, differs ')' noClosing]

variable {word : List Char} {formula : Formula}

/-- Operands hold no blanks and no brackets. -/
theorem IsOperand.unbroken (operand : IsOperand word formula) :
    ∀ char ∈ word, isUnbroken char := by
  intro char member
  cases operand with
  | number read =>
      have numeric := Token.isNumeric_of_readNumber? read char member
      exact isUnbroken_of_passes numeric (by decide) (by decide) (by decide)
  | identifier named =>
      have continues := Token.continuesIdentifier_of_isIdentifier named char member
      exact isUnbroken_of_passes continues (by decide) (by decide) (by decide)

/-- A word stands for one operand at most. -/
theorem IsOperand.unique {other : Formula} (operand : IsOperand word formula)
    (alsoOperand : IsOperand word other) : formula = other := by
  have items := operand.ofWord 1
  rw [alsoOperand.ofWord 1] at items
  cases items
  rfl

end Grammar

namespace Formula

open Grammar

/-- All literals are finite, and all names are identifiers. -/
def Legible : Formula → Prop
  | .literal value => value.isFinite
  | .named name => Token.isIdentifier name.toList
  | .binary _ left right => left.Legible ∧ right.Legible

/-- Brackets, the operator and two blanks surround the texts of the operands. -/
theorem toList_text_binary (operator : Operator) (left right : Formula) :
    (binary operator left right).text.toList =
      '(' :: operator.symbol :: ' ' ::
        (left.text.toList ++ ' ' :: (right.text.toList ++ [')'])) := by
  simp [text, Operator.text]

/-- The text of a leaf is a word that stands for the leaf. -/
theorem Legible.isOperand {formula : Formula} (legible : formula.Legible)
    (leaf : formula.root? = none) : IsOperand formula.text.toList formula := by
  cases formula with
  | literal value => exact .number (Number.readNumber?_text legible)
  | named name =>
      have operand := IsOperand.identifier legible
      rwa [String.ofList_toList] at operand
  | binary operator left right => cases leaf

/-- No word of an operand goes on in the text. -/
def Broken (text : List Char) : Prop :=
  ∀ char ∈ text.head?, ¬ isUnbroken char

section UniqueReading

variable {first second : Formula} {rest other : List Char}

/-- Where a leaf is written, nothing else can be read, and the leaf ends where its word ends. -/
theorem Legible.eq_of_leaf (legible : first.Legible) (alsoLegible : second.Legible)
    (leaf : first.root? = none) (broken : Broken rest) (alsoBroken : Broken other)
    (same : first.text.toList ++ rest = second.text.toList ++ other) :
    first = second ∧ rest = other := by
  have operand := legible.isOperand leaf
  cases root : second.root? with
  | none =>
      have alsoOperand := alsoLegible.isOperand root
      obtain ⟨front, behind⟩ := takeWhile_append_of_head operand.unbroken broken
      obtain ⟨otherFront, otherBehind⟩ := takeWhile_append_of_head alsoOperand.unbroken alsoBroken
      rw [same, otherFront] at front
      rw [same, otherBehind] at behind
      rw [front] at alsoOperand
      exact ⟨operand.unique alsoOperand, behind.symm⟩
  | some operator =>
      cases second with
      | literal | named => cases root
      | binary operator left right =>
          obtain ⟨char, others, word⟩ := List.exists_cons_of_ne_nil operand.isWord.isVisible.1
          rw [toList_text_binary, word, List.cons_append, List.cons_append] at same
          have opening : char = '(' := (List.cons.inj same).1
          have unbroken := operand.unbroken char (by rw [word]; exact List.mem_cons_self)
          rw [opening] at unbroken
          cases unbroken

/-- A formula is read in one way from any text that starts with it. -/
theorem Legible.eq_of_text_append (legible : first.Legible) (alsoLegible : second.Legible)
    (broken : Broken rest) (alsoBroken : Broken other)
    (same : first.text.toList ++ rest = second.text.toList ++ other) :
    first = second ∧ rest = other := by
  induction first generalizing second rest other with
  | literal | named => exact legible.eq_of_leaf alsoLegible rfl broken alsoBroken same
  | binary operator left right leftHypothesis rightHypothesis =>
      cases second with
      | literal | named =>
          obtain ⟨formulas, rests⟩ := alsoLegible.eq_of_leaf legible rfl alsoBroken broken same.symm
          exact ⟨formulas.symm, rests.symm⟩
      | binary otherOperator otherLeft otherRight =>
          have blank (text : List Char) : Broken (' ' :: text) := by
            rintro _ ⟨⟩
            decide
          have closing (text : List Char) : Broken (')' :: text) := by
            rintro _ ⟨⟩
            decide
          simp only [toList_text_binary, List.cons_append, List.append_assoc, List.nil_append,
            List.cons.injEq, true_and] at same
          obtain ⟨symbol, operands⟩ := same
          obtain rfl := Operator.eq_of_symbol_eq symbol
          obtain ⟨rfl, behindLeft⟩ := leftHypothesis legible.1 alsoLegible.1 (blank _) (blank _)
            operands
          obtain ⟨rfl, behindRight⟩ := rightHypothesis legible.2 alsoLegible.2 (closing _)
            (closing _) (List.cons.inj behindLeft).2
          exact ⟨rfl, (List.cons.inj behindRight).2⟩

end UniqueReading

/-- The text of a formula determines its structure, its operators, its names and its literals, and
in these also the sign of zero. -/
theorem text_determines_formula {first second : Formula} (legible : first.Legible)
    (alsoLegible : second.Legible) : first.text = second.text ↔ first = second := by
  constructor
  · intro same
    have broken : Broken [] := nofun
    have texts : first.text.toList ++ [] = second.text.toList ++ [] := by rw [same]
    exact (legible.eq_of_text_append alsoLegible broken broken texts).1
  · intro same
    rw [same]

/-- Zeros of both signs have different texts, and so have two ways to group the same operands. -/
theorem text_determines_sign_and_grouping :
    let positive := binary .divide (named "p") (literal 0)
    let negative := binary .divide (named "p") (literal (-0))
    let leftmost := binary .subtract (binary .subtract (named "p") (named "l")) (named "p")
    let rightmost := binary .subtract (named "p") (binary .subtract (named "l") (named "p"))
    (positive.Legible ∧ negative.Legible ∧ positive.text ≠ negative.text) ∧
      (leftmost.Legible ∧ rightmost.Legible ∧ leftmost.text ≠ rightmost.text) := by
  intro positive negative leftmost rightmost
  have positiveLegible : positive.Legible := ⟨rfl, rfl⟩
  have negativeLegible : negative.Legible := ⟨rfl, rfl⟩
  have leftmostLegible : leftmost.Legible := ⟨⟨rfl, rfl⟩, rfl⟩
  have rightmostLegible : rightmost.Legible := ⟨rfl, rfl, rfl⟩
  refine ⟨⟨positiveLegible, negativeLegible, ?_⟩, leftmostLegible, rightmostLegible, ?_⟩
  · rw [ne_eq, text_determines_formula positiveLegible negativeLegible]
    intro same
    have zeros : (0 : Float) = -0 := literal.inj (binary.inj same).2.2
    exact absurd (congrArg Float.toBits zeros) (by decide)
  · rw [ne_eq, text_determines_formula leftmostLegible rightmostLegible]
    intro same
    cases (binary.inj same).2.1

end Formula

end PriceFormula
