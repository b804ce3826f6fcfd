import PriceFormula.Proofs.Pieces
import PriceFormula.Proofs.Tokens

/-!
This file gives the grammar of formulas over words. A sum joins products by term operators, a
product joins operands by factors, and both group to the left. Items that come from the words
of a sum are assembled into its formula on either plan.
-/

namespace PriceFormula

open Form Text

namespace Grammar

/-- A word is an operand if it is a number or an identifier. -/
inductive IsOperand : List Char → Formula → Prop where
  | number {word : List Char} {value : Float} (read : Token.readNumber? word = some value) :
      IsOperand word (.literal value)
  | identifier {word : List Char} (named : Token.isIdentifier word) :
      IsOperand word (.named (String.ofList word))

/-- The words are operands with factors between them, grouped to the left. -/
inductive IsProduct : List (List Char) → Formula → Prop where
  | operand {word : List Char} {formula : Formula} (operand : IsOperand word formula) :
      IsProduct [word] formula
  | extend {words : List (List Char)} {word : List Char} {left right : Formula}
      (product : IsProduct words left) (operator : Operator) (factor : operator.isFactor)
      (operand : IsOperand word right) :
      IsProduct (words ++ [[operator.symbol], word]) (.binary operator left right)

/-- The words are products with term operators between them, grouped to the left. -/
inductive IsSum : List (List Char) → Formula → Prop where
  | product {words : List (List Char)} {formula : Formula} (product : IsProduct words formula) :
      IsSum words formula
  | extend {words run : List (List Char)} {left right : Formula} (sum : IsSum words left)
      (operator : Operator) (term : operator.isTerm) (product : IsProduct run right) :
      IsSum (words ++ [operator.symbol] :: run) (.binary operator left right)

/-! ### Words of sums -/

/-- No operand is spelled like an operator. -/
theorem IsOperand.ofWord? {word : List Char} {formula : Formula}
    (operand : IsOperand word formula) : Operator.ofWord? word = none := by
  cases operand with
  | number read => exact Token.ofWord?_of_readNumber? read
  | identifier named => exact Token.ofWord?_of_isIdentifier named

theorem IsOperand.isWord {word : List Char} {formula : Formula}
    (operand : IsOperand word formula) : Token.IsWord word := by
  cases operand with
  | number read => exact .number read
  | identifier named => exact .identifier named

/-- A valid word is an operator or an operand. -/
theorem exists_isOperand {word : List Char} (valid : Token.IsWord word)
    (noOperator : Operator.ofWord? word = none) : ∃ formula, IsOperand word formula := by
  cases valid with
  | operator operator =>
      rw [Operator.ofWord?_symbol] at noOperator
      cases noOperator
  | number read => exact ⟨_, .number read⟩
  | identifier named => exact ⟨_, .identifier named⟩

theorem IsProduct.isWord {words : List (List Char)} {formula : Formula}
    (product : IsProduct words formula) : ∀ word ∈ words, Token.IsWord word := by
  induction product with
  | operand operand => exact List.forall_mem_singleton.2 operand.isWord
  | extend _ operator _ operand inductionHypothesis =>
      rw [List.forall_mem_append, List.forall_mem_cons, List.forall_mem_singleton]
      exact ⟨inductionHypothesis, .operator operator, operand.isWord⟩

/-- Sums hold valid words only. -/
theorem IsSum.isWord {words : List (List Char)} {formula : Formula}
    (sum : IsSum words formula) : ∀ word ∈ words, Token.IsWord word := by
  induction sum with
  | product product => exact product.isWord
  | extend _ operator _ product inductionHypothesis =>
      rw [List.forall_mem_append, List.forall_mem_cons]
      exact ⟨inductionHypothesis, .operator operator, product.isWord⟩

/-- In a product operands and operators alternate. -/
theorem IsProduct.alternating {words : List (List Char)} {formula : Formula}
    (product : IsProduct words formula) : Alternating (words.map Operator.ofWord?) := by
  induction product with
  | operand operand =>
      rw [List.map_singleton, operand.ofWord?]
      exact .operand
  | extend _ operator _ operand inductionHypothesis =>
      rw [List.map_append, List.map_cons, List.map_singleton, operand.ofWord?,
        Operator.ofWord?_symbol]
      exact inductionHypothesis.join operator .operand

/-- In a sum operands and operators alternate, whatever their classes are. -/
theorem IsSum.alternating {words : List (List Char)} {formula : Formula}
    (sum : IsSum words formula) : Alternating (words.map Operator.ofWord?) := by
  induction sum with
  | product product => exact product.alternating
  | extend _ operator _ product inductionHypothesis =>
      rw [List.map_append, List.map_cons, Operator.ofWord?_symbol]
      exact inductionHypothesis.join operator product.alternating

/-- A factor extends the last product of a sum, a term operator starts a new one. -/
theorem IsSum.extend_operand {words : List (List Char)} {word : List Char} {left right : Formula}
    (sum : IsSum words left) (operator : Operator) (operand : IsOperand word right) :
    ∃ formula, IsSum (words ++ [[operator.symbol], word]) formula := by
  by_cases term : operator.isTerm
  · exact ⟨_, sum.extend operator term (.operand operand)⟩
  · have factor : operator.isFactor := by
      simpa [Operator.isTerm_eq_not_isFactor] using term
    cases sum with
    | product product => exact ⟨_, .product (product.extend operator factor operand)⟩
    | extend sum last lastTerm product =>
        have longer := sum.extend last lastTerm (product.extend operator factor operand)
        rw [← List.cons_append, ← List.append_assoc] at longer
        exact ⟨_, longer⟩

/-- A sum goes on as long as operators and operands alternate. -/
theorem IsSum.exists_append {words : List (List Char)} {left : Formula} (sum : IsSum words left) :
    ∀ rest : List (List Char), (∀ word ∈ rest, Token.IsWord word) →
      Alternating (none :: rest.map Operator.ofWord?) → ∃ formula, IsSum (words ++ rest) formula
  | [], _, _ => ⟨left, by rwa [List.append_nil]⟩
  | [word], _, alternating => by
      rw [List.map_singleton] at alternating
      generalize Operator.ofWord? word = form at alternating
      cases alternating with
      | cons _ behind => cases behind
  | symbol :: word :: rest, valid, alternating => by
      rw [List.map_cons, List.map_cons] at alternating
      generalize found : Operator.ofWord? symbol = form at alternating
      cases alternating with
      | cons operator behind =>
          obtain ⟨form, starts⟩ := behind.starts_with_operand
          have noOperator := (List.cons.inj starts).1
          rw [noOperator] at behind
          obtain ⟨right, operand⟩ := exists_isOperand (valid word (by simp)) noOperator
          obtain ⟨formula, longer⟩ := sum.extend_operand operator operand
          rw [← Operator.ofWord?_eq_some_iff.1 found] at longer
          have whole := longer.exists_append rest
            (fun other member => valid other (by simp [member])) behind
          rwa [List.append_assoc] at whole

/-- Every alternating sequence of valid words is a sum. -/
theorem exists_isSum {words : List (List Char)} (valid : ∀ word ∈ words, Token.IsWord word)
    (alternating : Alternating (words.map Operator.ofWord?)) : ∃ formula, IsSum words formula := by
  cases words with
  | nil => cases alternating
  | cons word rest =>
      obtain ⟨form, starts⟩ := alternating.starts_with_operand
      have noOperator : Operator.ofWord? word = none := (List.cons.inj starts).1
      obtain ⟨formula, operand⟩ := exists_isOperand (valid word List.mem_cons_self) noOperator
      rw [List.map_cons, noOperator] at alternating
      exact (IsSum.product (.operand operand)).exists_append rest
        (fun other member => valid other (List.mem_cons_of_mem word member)) alternating

end Grammar

/-- The item that a valid word stands for. -/
def Item.ofWord (word : Located (List Char)) : Item :=
  match Operator.ofWord? word.content with
  | some found => .operator found word.column
  | none =>
    match Token.readNumber? word.content with
    | some value => .operand (.literal value) word.column
    | none => .operand (.named (String.ofList word.content)) word.column

/-- The place of a word is kept by its item. -/
theorem Item.mark_ofWord (word : Located (List Char)) :
    (ofWord word).mark = word.map Operator.ofWord? := by
  unfold ofWord
  split
  · next found => rw [Located.map, found]; rfl
  · next found => split <;> rw [Located.map, found] <;> rfl

/-- A symbol becomes its operator. -/
theorem Item.ofWord_symbol (column : Nat) (operator : Operator) :
    ofWord ⟨column, [operator.symbol]⟩ = .operator operator column := by
  simp only [ofWord, Operator.ofWord?_symbol]

namespace Grammar

theorem IsOperand.ofWord {word : List Char} {formula : Formula}
    (operand : IsOperand word formula) (column : Nat) :
    Item.ofWord ⟨column, word⟩ = .operand formula column := by
  have noOperator := operand.ofWord?
  cases operand with
  | number read => simp only [Item.ofWord, noOperator, read]
  | identifier named =>
      simp only [Item.ofWord, noOperator, Token.readNumber?_of_isIdentifier named]

/-! ### Assembling the words of a sum -/

/-- An operator and the operand behind it stand for two items. -/
theorem IsOperand.items_step {words : List (List Char)} {word : List Char} {right : Formula}
    (operand : IsOperand word right) (operator : Operator) {located : List (Located (List Char))}
    (same : located.map Located.content = words ++ [[operator.symbol], word]) :
    ∃ (front : List (Located (List Char))) (cut column : Nat),
      front.map Located.content = words ∧
        located.map Item.ofWord =
          front.map Item.ofWord ++ [.operator operator cut, .operand right column] := by
  obtain ⟨front, back, rfl, inFront, behind⟩ := List.map_eq_append_iff.1 same
  obtain ⟨⟨cut, _⟩, last, rfl, rfl, inLast⟩ := List.map_eq_cons_iff.1 behind
  obtain ⟨⟨column, _⟩, rfl, rfl⟩ := List.map_eq_singleton_iff.1 inLast
  refine ⟨front, cut, column, inFront, ?_⟩
  rw [List.map_append, List.map_cons, List.map_singleton, Item.ofWord_symbol, operand.ofWord]

/-- The items of a product are a chain with its formula. -/
theorem IsProduct.chain {words : List (List Char)} {formula : Formula}
    (product : IsProduct words formula) :
    ∀ located : List (Located (List Char)), located.map Located.content = words →
      Assembly.Chain (located.map Item.ofWord) formula := by
  induction product with
  | operand operand =>
      intro located same
      obtain ⟨⟨column, _⟩, rfl, rfl⟩ := List.map_eq_singleton_iff.1 same
      rw [List.map_singleton, operand.ofWord]
      exact .operand _ column
  | extend _ operator _ operand inductionHypothesis =>
      intro located same
      obtain ⟨front, cut, column, inFront, items⟩ := operand.items_step operator same
      rw [items]
      exact (inductionHypothesis front inFront).extend operator cut _ column

/-- A product holds no term operators. -/
theorem IsProduct.no_term {words : List (List Char)} {formula : Formula}
    (product : IsProduct words formula) :
    ∀ word ∈ words, ∀ operator, Operator.ofWord? word = some operator → ¬ operator.isTerm := by
  have ofOperand {word : List Char} {formula : Formula} (operand : IsOperand word formula) :
      ∀ operator, Operator.ofWord? word = some operator → ¬ operator.isTerm := by
    intro operator found
    rw [operand.ofWord?] at found
    cases found
  induction product with
  | operand operand => exact List.forall_mem_singleton.2 (ofOperand operand)
  | extend _ factorOperator factor operand inductionHypothesis =>
      rw [List.forall_mem_append, List.forall_mem_cons, List.forall_mem_singleton]
      refine ⟨inductionHypothesis, ?_, ofOperand operand⟩
      intro operator found
      rw [Operator.ofWord?_symbol, Option.some.injEq] at found
      simp [← found, Operator.isTerm_eq_not_isFactor, factor]

/-- A product is not cut at its operators. -/
theorem IsProduct.termOperator? {words : List (List Char)} {formula : Formula}
    (product : IsProduct words formula) {located : List (Located (List Char))}
    (same : located.map Located.content = words) :
    ∀ item ∈ located.map Item.ofWord, Item.termOperator? item = none := by
  intro item member
  obtain ⟨word, inside, rfl⟩ := List.mem_map.1 member
  have inWords : word.content ∈ words := by
    rw [← same]
    exact List.mem_map_of_mem inside
  rw [Item.termOperator?, Function.comp_apply, Item.mark_ofWord]
  unfold Form.termOperator?
  split
  · next operator found => exact if_neg (product.no_term _ inWords operator found)
  · rfl

/-- The pieces of a sum become the chain of its products. -/
theorem IsSum.toItems {words : List (List Char)} {formula : Formula} (sum : IsSum words formula) :
    ∀ (located : List (Located (List Char))) (stop : Nat), located.map Located.content = words →
      ∃ terms, Piece.toItems (Piece.ofItems stop (located.map Item.ofWord)) = .ok terms ∧
        Assembly.Chain terms formula := by
  induction sum with
  | product product =>
      intro located stop same
      refine ⟨_, ?_, .operand _ (Piece.startColumn stop (located.map Item.ofWord))⟩
      rw [Piece.ofItems_eq_ofParts, cutAt_of_none (product.termOperator? same)]
      exact Piece.toItems_ofRun_of_chain (product.chain located same) stop
  | extend _ operator term product inductionHypothesis =>
      intro located stop same
      obtain ⟨front, back, rfl, inFront, behind⟩ := List.map_eq_append_iff.1 same
      obtain ⟨⟨cut, _⟩, run, rfl, rfl, inRun⟩ := List.map_eq_cons_iff.1 behind
      obtain ⟨terms, built, chain⟩ := inductionHypothesis front cut inFront
      refine ⟨terms ++ [.operator operator cut, .operand _
        (Piece.startColumn stop (run.map Item.ofWord))], ?_, chain.extend operator cut _ _⟩
      have isCut : Item.termOperator? (.operator operator cut) = some ⟨cut, operator⟩ :=
        if_pos term
      rw [Piece.ofItems_eq_ofParts] at built ⊢
      rw [List.map_append, List.map_cons, Item.ofWord_symbol, cutAt_append isCut,
        cutAt_of_none (product.termOperator? inRun), Piece.ofParts_concat,
        Piece.toItems_append, built, Piece.toItems, Piece.toItem,
        Piece.toItems_ofRun_of_chain (product.chain run inRun) stop]
      rfl

/-- Splitting gives the formula of every sum, also of one with operators of one class only. -/
theorem IsSum.assembleSplit {words : List (List Char)} {formula : Formula}
    (sum : IsSum words formula) {located : List (Located (List Char))}
    (same : located.map Located.content = words) (endColumn : Nat) :
    assembleSplit (located.map Item.ofWord) endColumn = .ok formula := by
  obtain ⟨terms, built, chain⟩ := sum.toItems located endColumn same
  rw [PriceFormula.assembleSplit, built]
  exact Assembly.assemble_chain chain endColumn

/-- A product without factors is a single operand. -/
theorem IsProduct.eq_operand {words : List (List Char)} {formula : Formula}
    (product : IsProduct words formula)
    (noFactor : ∀ operator : Operator, operator.isFactor → [operator.symbol] ∉ words) :
    ∃ word, words = [word] ∧ IsOperand word formula := by
  cases product with
  | operand operand => exact ⟨_, rfl, operand⟩
  | extend _ operator factor _ => exact absurd (by simp) (noFactor operator factor)

/-- Without factors all products of a sum are single operands, which form one chain. -/
theorem IsSum.chain_of_no_factor {words : List (List Char)} {formula : Formula}
    (sum : IsSum words formula)
    (noFactor : ∀ operator : Operator, operator.isFactor → [operator.symbol] ∉ words) :
    ∀ located : List (Located (List Char)), located.map Located.content = words →
      Assembly.Chain (located.map Item.ofWord) formula := by
  induction sum with
  | product product => exact product.chain
  | extend _ operator _ product inductionHypothesis =>
      intro located same
      obtain ⟨word, rfl, operand⟩ := product.eq_operand fun other factor member =>
        noFactor other factor (by simp [member])
      obtain ⟨front, cut, column, inFront, items⟩ := operand.items_step operator same
      rw [items]
      have chain := inductionHypothesis
        (fun other factor member => noFactor other factor (by simp [member])) front inFront
      exact chain.extend operator cut _ column

/-- A sum without term operators is a single product. -/
theorem IsSum.product_of_no_term {words : List (List Char)} {formula : Formula}
    (sum : IsSum words formula)
    (noTerm : ∀ operator : Operator, operator.isTerm → [operator.symbol] ∉ words) :
    IsProduct words formula := by
  cases sum with
  | product product => exact product
  | extend _ operator term _ => exact absurd (by simp) (noTerm operator term)

end Grammar

end PriceFormula
