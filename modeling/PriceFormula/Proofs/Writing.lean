import PriceFormula.Proofs.Numerals
import PriceFormula.Proofs.Parsing
import PriceFormula.Proofs.Scanning

/-!
This file writes formulas with every operator between its operands and without brackets. The main
statement is that reading and writing are inverse to each other on the formulas that need no
brackets, which are exactly the formulas that are read from texts.
-/

namespace PriceFormula

open Text

namespace Token

/-- The words that stand for a token: an operator has its symbol, a number has all words that are
read as it, and an identifier is itself. -/
inductive Spells : List Char → Kind → Prop where
  | operator (operator : Operator) : Spells [operator.symbol] (.operator operator)
  | number {word : List Char} {value : Float} (read : readNumber? word = some value) :
      Spells word (.number value)
  | identifier {word : List Char} (named : isIdentifier word) :
      Spells word (.identifier (String.ofList word))

/-- A word is classified as the one token that it spells. -/
theorem classify?_eq_some_iff {word : List Char} {kind : Kind} :
    classify? word = some kind ↔ Spells word kind := by
  constructor
  · intro classified
    have valid : IsWord word := by
      rw [← classify?_isSome_iff, classified]
      rfl
    cases valid with
    | operator operator =>
        rw [classify?_symbol] at classified
        cases classified
        exact .operator operator
    | number read =>
        rw [classify?_of_readNumber? read] at classified
        cases classified
        exact .number read
    | identifier named =>
        rw [classify?_of_isIdentifier named] at classified
        cases classified
        exact .identifier named
  · intro spells
    cases spells with
    | operator operator => exact classify?_symbol operator
    | number read => exact classify?_of_readNumber? read
    | identifier named => exact classify?_of_isIdentifier named

/-- No character of an identifier is a blank. -/
theorem isVisible_of_continuesIdentifier {char : Char} (continues : continuesIdentifier char) :
    isVisible char := by
  simp only [continuesIdentifier, Char.isAlphanum, Char.isAlpha, Bool.or_eq_true,
    beq_iff_eq] at continues
  rcases continues with ((upper | lower) | digit) | rfl
  · simp only [Char.isUpper, decide_eq_true_eq] at upper
    have bounds : 65 ≤ char.toNat ∧ char.toNat ≤ 90 := upper
    exact isVisible_of_printable (by omega) (by omega)
  · simp only [Char.isLower, Bool.and_eq_true, decide_eq_true_eq] at lower
    have bounds : 97 ≤ char.toNat ∧ char.toNat ≤ 122 := lower
    exact isVisible_of_printable (by omega) (by omega)
  · exact Number.isVisible_of_isDigit digit
  · decide

/-- All characters of an identifier may continue one. -/
theorem continuesIdentifier_of_isIdentifier {word : List Char} (named : isIdentifier word) :
    ∀ char ∈ word, continuesIdentifier char := by
  cases word with
  | nil => exact List.forall_mem_nil _
  | cons first rest =>
      rw [isIdentifier, Bool.and_eq_true] at named
      have starts : continuesIdentifier first := by
        have starts := named.1
        simp only [startsIdentifier, continuesIdentifier, Char.isAlphanum, Bool.or_eq_true,
          beq_iff_eq] at starts ⊢
        tauto
      exact List.forall_mem_cons.2 ⟨starts, fun char => List.all_eq_true.1 named.2 char⟩

theorem isVisible_of_isIdentifier {word : List Char} (named : isIdentifier word) :
    ∀ char ∈ word, isVisible char :=
  fun char member =>
    isVisible_of_continuesIdentifier (continuesIdentifier_of_isIdentifier named char member)

/-- A valid word is not empty and holds no blanks. -/
theorem IsWord.isVisible {word : List Char} (valid : IsWord word) :
    word ≠ [] ∧ ∀ char ∈ word, isVisible char := by
  cases valid with
  | operator operator =>
      refine ⟨List.cons_ne_nil _ _, List.forall_mem_singleton.2 ?_⟩
      cases operator <;> decide
  | number read =>
      refine ⟨?_, isVisible_of_readNumber? read⟩
      rintro rfl
      simp [readNumber?, looksNumeric, Number.splitSign] at read
  | identifier named =>
      refine ⟨?_, isVisible_of_isIdentifier named⟩
      rintro rfl
      cases named

end Token

namespace Text

/-! ### Words between blanks -/

/-- A text has these words in order. There are blanks between them, and there may be blanks around
them. -/
inductive Spaced : List (List Char) → List Char → Prop where
  | nil {blanks : List Char} (blank : ∀ char ∈ blanks, isBlank char) : Spaced [] blanks
  | cons {blanks word rest : List Char} {words : List (List Char)}
      (blank : ∀ char ∈ blanks, isBlank char) (apart : ∀ char ∈ rest.head?, isBlank char)
      (following : Spaced words rest) : Spaced (word :: words) (blanks ++ word ++ rest)

/-- Writes a blank in front of every word. -/
def space (words : List (List Char)) : List Char :=
  words.flatMap (' ' :: ·)

/-- Single blanks keep words apart. -/
theorem spaced_space (words : List (List Char)) : Spaced words (space words) := by
  induction words with
  | nil => exact .nil (List.forall_mem_nil _)
  | cons word words inductionHypothesis =>
      have blank : ∀ char ∈ [' '], isBlank char := List.forall_mem_singleton.2 (by decide)
      refine .cons blank ?_ inductionHypothesis
      cases words with
      | nil => exact nofun
      | cons next words =>
          rintro _ ⟨⟩
          decide

/-- Words that are kept apart by blanks are found again. -/
theorem Spaced.wordList {words : List (List Char)} {text : List Char} (spaced : Spaced words text)
    (sound : ∀ word ∈ words, word ≠ [] ∧ ∀ char ∈ word, isVisible char) :
    wordList text = words := by
  have walk (column : Nat) : (wordsFrom column false text).map Located.content = words := by
    induction spaced generalizing column with
    | @nil blanks blank =>
        rw [← List.append_nil blanks, wordsFrom_blanks_append column blank]
        rfl
    | @cons blanks word rest words blank apart _ inductionHypothesis =>
        obtain ⟨⟨filled, visible⟩, others⟩ := List.forall_mem_cons.1 sound
        rw [List.append_assoc, wordsFrom_blanks_append column blank,
          wordsFrom_word _ filled visible apart, List.map_cons, inductionHypothesis others]
  exact walk 1

/-- Every text is made of its words and blanks. -/
theorem spaced_wordList (text : List Char) : Spaced (wordList text) text := by
  have walk (column : Nat) : Spaced ((wordsFrom column false text).map Located.content) text := by
    -- the induction is on the length of the text, which every word shortens
    induction length : text.length using Nat.strong_induction_on generalizing text column with
    | _ length' inductionHypothesis =>
        subst length
        rw [wordsFrom_skip_blanks]
        cases found : text.dropWhile isBlank with
        | nil => exact .nil (List.dropWhile_eq_nil_iff.1 found)
        | cons char rest =>
            have head := List.head?_dropWhile_not isBlank text
            have whole := List.takeWhile_append_dropWhile (p := isBlank) (l := text)
            rw [found] at head whole
            have visible : isVisible char := by simpa [isVisible] using head
            have cut := List.takeWhile_append_dropWhile (p := isVisible) (l := char :: rest)
            have shorter : ((char :: rest).dropWhile isVisible).length < text.length := by
              rw [← whole, List.length_append, List.dropWhile_cons_of_pos visible,
                List.length_cons]
              have tail := (List.dropWhile_sublist (p := isVisible) (l := rest)).length_le
              omega
            have behind := inductionHypothesis _ shorter
              ((char :: rest).dropWhile isVisible)
              (column + (text.takeWhile isBlank).length +
                ((char :: rest).takeWhile isVisible).length) rfl
            have spaced : Spaced _ (text.takeWhile isBlank ++ (char :: rest).takeWhile isVisible ++
                (char :: rest).dropWhile isVisible) :=
              .cons (fun _ => List.mem_takeWhile_imp) blank_of_mem_head?_dropWhile behind
            rw [List.append_assoc, cut, whole] at spaced
            rwa [wordsFrom_visible _ _ visible]
  exact walk 1

end Text

namespace Formula

/-! ### Formulas without brackets -/

/-- The tokens of a formula that is written without brackets. -/
def symbols : Formula → List Token.Kind
  | .literal value => [.number value]
  | .named name => [.identifier name]
  | .binary operator left right => left.symbols ++ .operator operator :: right.symbols

/-- The operator that is applied last, if there is one. -/
def root? : Formula → Option Operator
  | .literal _ | .named _ => none
  | .binary operator _ _ => some operator

/-- The formulas that need no brackets. Their leaves can be written. Behind a factor there are only
leaves, and in front of it there are no terms. Behind a term operator there are no terms. -/
def Plain : Formula → Prop
  | .literal value => value.isNaN = false
  | .named name => Token.isIdentifier name.toList
  | .binary operator left right =>
    left.Plain ∧ right.Plain ∧
      (operator.isFactor → right.root? = none ∧ ∀ inner ∈ left.root?, inner.isFactor) ∧
      (operator.isTerm → ∀ inner ∈ right.root?, ¬ inner.isTerm)

/-- Whether a formula needs no brackets is decided operator by operator. -/
def decidePlain : (formula : Formula) → Decidable formula.Plain
  | .literal value => inferInstanceAs (Decidable (value.isNaN = false))
  | .named name => inferInstanceAs (Decidable (Token.isIdentifier name.toList = true))
  | .binary operator left right =>
    have _decideLeft := left.decidePlain
    have _decideRight := right.decidePlain
    inferInstanceAs (Decidable (left.Plain ∧ right.Plain ∧
      (operator.isFactor → right.root? = none ∧ ∀ inner ∈ left.root?, inner.isFactor) ∧
      (operator.isTerm → ∀ inner ∈ right.root?, ¬ inner.isTerm)))

instance : DecidablePred Plain := decidePlain

/-- Without brackets the sum would not be subtracted as a whole. -/
example : ¬ (binary .subtract (named "p") (binary .add (named "l") (literal 1))).Plain := by decide

end Formula

namespace Grammar

open Formula Token

/-- Operands need no brackets, and they have no operator. -/
theorem IsOperand.plain {word : List Char} {formula : Formula} (operand : IsOperand word formula) :
    formula.Plain ∧ formula.root? = none := by
  cases operand with
  | number read => exact ⟨isNaN_of_readNumber? read, rfl⟩
  | identifier named =>
      refine ⟨?_, rfl⟩
      rwa [Plain, String.toList_ofList]

/-- Products need no brackets, and at most a factor is applied last. -/
theorem IsProduct.plain {words : List (List Char)} {formula : Formula}
    (product : IsProduct words formula) :
    formula.Plain ∧ ∀ inner ∈ formula.root?, inner.isFactor := by
  induction product with
  | operand operand =>
      obtain ⟨plain, leaf⟩ := operand.plain
      exact ⟨plain, by rw [leaf]; exact nofun⟩
  | extend _ operator factor operand inductionHypothesis =>
      obtain ⟨plainRight, leaf⟩ := operand.plain
      obtain ⟨plainLeft, factors⟩ := inductionHypothesis
      refine ⟨⟨plainLeft, plainRight, fun _ => ⟨leaf, factors⟩, ?_⟩, ?_⟩
      · rw [leaf]
        exact fun _ => nofun
      · rintro _ ⟨⟩
        exact factor

/-- Whatever is a sum needs no brackets. -/
theorem IsSum.plain {words : List (List Char)} {formula : Formula} (sum : IsSum words formula) :
    formula.Plain := by
  induction sum with
  | product product => exact product.plain.1
  | extend _ operator term product inductionHypothesis =>
      obtain ⟨plainRight, factors⟩ := product.plain
      rw [Operator.isTerm_eq_not_isFactor, Bool.not_eq_true'] at term
      refine ⟨inductionHypothesis, plainRight, fun factor => ?_, fun _ inner found => ?_⟩
      · rw [term] at factor
        cases factor
      · rw [Operator.isTerm_eq_not_isFactor, factors inner found]
        exact Bool.false_ne_true

theorem IsOperand.spells {word : List Char} {formula : Formula}
    (operand : IsOperand word formula) : List.Forall₂ Spells [word] formula.symbols := by
  cases operand with
  | number read => exact .cons (.number read) .nil
  | identifier named => exact .cons (.identifier named) .nil

/-- An operator between words spells the operator between their formulas. -/
theorem spells_append {front back : List (List Char)} {left right : Formula}
    (spellsLeft : List.Forall₂ Spells front left.symbols) (operator : Operator)
    (spellsRight : List.Forall₂ Spells back right.symbols) :
    List.Forall₂ Spells (front ++ [operator.symbol] :: back)
      (binary operator left right).symbols :=
  List.rel_append spellsLeft (.cons (.operator operator) spellsRight)

theorem IsProduct.spells {words : List (List Char)} {formula : Formula}
    (product : IsProduct words formula) : List.Forall₂ Spells words formula.symbols := by
  induction product with
  | operand operand => exact operand.spells
  | extend _ operator _ operand inductionHypothesis =>
      exact spells_append inductionHypothesis operator operand.spells

/-- A sum spells the tokens of its formula. -/
theorem IsSum.spells {words : List (List Char)} {formula : Formula} (sum : IsSum words formula) :
    List.Forall₂ Spells words formula.symbols := by
  induction sum with
  | product product => exact product.spells
  | extend _ operator _ product inductionHypothesis =>
      exact spells_append inductionHypothesis operator product.spells

/-! ### Formulas of written words -/

/-- Words for an operation are those of its operands with the symbol between them. -/
theorem exists_split_of_spells {words : List (List Char)} {operator : Operator}
    {left right : Formula}
    (spells : List.Forall₂ Spells words (binary operator left right).symbols) :
    ∃ front back, words = front ++ [operator.symbol] :: back ∧
      List.Forall₂ Spells front left.symbols ∧ List.Forall₂ Spells back right.symbols := by
  have front := List.forall₂_take_append words _ _ spells
  have behind := List.forall₂_drop_append words _ _ spells
  obtain ⟨word, back, symbol, spellsRight, rest⟩ := List.forall₂_cons_right_iff.1 behind
  cases symbol
  exact ⟨_, back, by rw [← rest, List.take_append_drop], front, spellsRight⟩

/-- A formula without operators is spelled by a single operand. -/
theorem isOperand_of_spells {words : List (List Char)} {formula : Formula}
    (leaf : formula.root? = none) (spells : List.Forall₂ Spells words formula.symbols) :
    ∃ word, words = [word] ∧ IsOperand word formula := by
  cases formula with
  | binary operator left right => cases leaf
  | literal value =>
      obtain ⟨word, _, spelled, rest, rfl⟩ := List.forall₂_cons_right_iff.1 spells
      obtain rfl := List.forall₂_nil_right_iff.1 rest
      cases spelled with
      | number read => exact ⟨word, rfl, .number read⟩
  | named name =>
      obtain ⟨word, _, spelled, rest, rfl⟩ := List.forall₂_cons_right_iff.1 spells
      obtain rfl := List.forall₂_nil_right_iff.1 rest
      cases spelled with
      | identifier named => exact ⟨word, rfl, .identifier named⟩

/-- Without terms the words of a formula are those of a product. -/
theorem isProduct_of_spells {words : List (List Char)} {formula : Formula} (plain : formula.Plain)
    (factors : ∀ inner ∈ formula.root?, inner.isFactor)
    (spells : List.Forall₂ Spells words formula.symbols) : IsProduct words formula := by
  induction formula generalizing words with
  | literal | named =>
      obtain ⟨word, rfl, operand⟩ := isOperand_of_spells rfl spells
      exact .operand operand
  | binary operator left right leftHypothesis _ =>
      have factor : operator.isFactor := factors operator rfl
      obtain ⟨plainLeft, _, behindFactor, _⟩ := plain
      obtain ⟨leaf, factorsLeft⟩ := behindFactor factor
      obtain ⟨front, back, rfl, spellsLeft, spellsRight⟩ := exists_split_of_spells spells
      obtain ⟨word, rfl, operand⟩ := isOperand_of_spells leaf spellsRight
      exact (leftHypothesis plainLeft factorsLeft spellsLeft).extend operator factor operand

/-- Words that spell a formula without need of brackets are a sum with this formula. -/
theorem isSum_of_spells {words : List (List Char)} {formula : Formula} (plain : formula.Plain)
    (spells : List.Forall₂ Spells words formula.symbols) : IsSum words formula := by
  induction formula generalizing words with
  | literal | named => exact .product (isProduct_of_spells plain nofun spells)
  | binary operator left right leftHypothesis _ =>
      by_cases term : operator.isTerm
      · obtain ⟨plainLeft, plainRight, _, behindTerm⟩ := plain
        obtain ⟨front, back, rfl, spellsLeft, spellsRight⟩ := exists_split_of_spells spells
        have factors : ∀ inner ∈ right.root?, inner.isFactor := by
          intro inner found
          simpa [Operator.isTerm_eq_not_isFactor] using behindTerm term inner found
        exact (leftHypothesis plainLeft spellsLeft).extend operator term
          (isProduct_of_spells plainRight factors spellsRight)
      · refine .product (isProduct_of_spells plain ?_ spells)
        rintro _ ⟨⟩
        simpa [Operator.isTerm_eq_not_isFactor] using term

end Grammar

namespace Token

/-- One of the words that stand for the token. -/
def Kind.word : Kind → List Char
  | .operator found => [found.symbol]
  | .number value => Number.exactWord value
  | .identifier name => name.toList

/-- No word spells two tokens. -/
theorem rightUnique_spells : Relator.RightUnique Spells := by
  intro word kind other spells alsoSpells
  rw [← classify?_eq_some_iff] at spells alsoSpells
  rw [spells] at alsoSpells
  exact Option.some.inj alsoSpells

end Token

namespace Formula

open Token

/-- Writes a formula with every operator between its operands. -/
def plainText (formula : Formula) : String :=
  String.ofList (space (formula.symbols.map Kind.word))

/-- Every token is spelled by its own word. -/
theorem Plain.spells_word {formula : Formula} (plain : formula.Plain) :
    List.Forall₂ Spells (formula.symbols.map Kind.word) formula.symbols := by
  induction formula with
  | literal value => exact .cons (.number (Number.readNumber?_exactWord plain)) .nil
  | named name =>
      have spells : Spells name.toList (.identifier (String.ofList name.toList)) :=
        .identifier plain
      rw [String.ofList_toList] at spells
      exact .cons spells .nil
  | binary operator left right leftHypothesis rightHypothesis =>
      obtain ⟨plainLeft, plainRight, _⟩ := plain
      rw [symbols, List.map_append, List.map_cons]
      exact Grammar.spells_append (leftHypothesis plainLeft) operator (rightHypothesis plainRight)

/-- A formula that needs no brackets equals itself, as it holds no value that is not a number. -/
theorem Plain.equal_self {formula : Formula} (plain : formula.Plain) :
    formula.equal formula = true := by
  induction formula with
  | literal value =>
      rw [equal, Float.beq_self_iff]
      rintro rfl
      cases plain
  | named name => exact beq_self_eq_true name
  | binary operator left right leftHypothesis rightHypothesis =>
      obtain ⟨plainLeft, plainRight, _⟩ := plain
      rw [equal, leftHypothesis plainLeft, rightHypothesis plainRight, beq_self_eq_true]
      rfl

/-- However a formula without need of brackets is spelled and spaced, it is read back. -/
theorem parse_of_spells {formula : Formula} (plain : formula.Plain) {words : List (List Char)}
    (spells : List.Forall₂ Spells words formula.symbols) {text : List Char}
    (spaced : Spaced words text) : parse (String.ofList text) = .ok formula := by
  have sum := Grammar.isSum_of_spells plain spells
  have found : wordList text = words :=
    spaced.wordList fun word member => (sum.isWord word member).isVisible
  rw [← found, ← String.toList_ofList (l := text)] at sum
  exact parse_eq_ok_of_isSum sum

/-- The tokens of a text that is read are the tokens of its formula. -/
theorem readAll_of_parse {source : String} {formula : Formula}
    (read : parse source = .ok formula) :
    ∃ tokens, readAll source.toList = .ok tokens ∧ tokens.map Token.kind = formula.symbols := by
  have sum := isSum_of_parse_eq_ok read
  obtain ⟨tokens, found, spans, classified⟩ := readAll_of_valid sum.isWord
  have words : wordList source.toList = tokens.map Token.lexeme := by
    rw [wordList, ← words_located, ← spans, List.map_map, List.map_map]
    rfl
  have spelled : List.Forall₂ Spells (wordList source.toList) (tokens.map Token.kind) := by
    rw [words, List.forall₂_map_left_iff, List.forall₂_map_right_iff, List.forall₂_same]
    exact fun token member => classify?_eq_some_iff.1 (classified token member)
  exact ⟨tokens, found, rightUnique_spells.forall₂ spelled sum.spells⟩

/-- The formulas that are read from texts are those that need no brackets. The tokens of a text are
those of its formula in order, and such a formula is equal to itself. From whatever words a formula
is written, and with whatever blanks between them, it is read again as it was. -/
theorem parse_inverts_writing :
    (∀ formula : Formula, formula.Plain ↔ ∃ source, parse source = .ok formula) ∧
    (∀ source formula, parse source = .ok formula → (formula == formula) = true ∧
      ∃ tokens, readAll source.toList = .ok tokens ∧
        tokens.map Token.kind = formula.symbols) ∧
    ∀ formula : Formula, formula.Plain → parse formula.plainText = .ok formula ∧
      ∀ words text, List.Forall₂ Spells words formula.symbols → Spaced words text →
        parse (String.ofList text) = .ok formula := by
  have written {formula : Formula} (plain : formula.Plain) :
      parse formula.plainText = .ok formula :=
    parse_of_spells plain plain.spells_word (spaced_space _)
  refine ⟨fun formula => ⟨fun plain => ⟨_, written plain⟩, ?_⟩, ?_, ?_⟩
  · rintro ⟨source, read⟩
    exact (isSum_of_parse_eq_ok read).plain
  · intro source formula read
    exact ⟨(isSum_of_parse_eq_ok read).plain.equal_self, readAll_of_parse read⟩
  · exact fun formula plain =>
      ⟨written plain, fun words text spells spaced => parse_of_spells plain spells spaced⟩

/-- A number is read from any of its words, and a sign in front of it belongs to it. -/
theorem parse_of_uneven_writing :
    let formula : Formula := binary .subtract (binary .multiply (named "p") (literal 2))
      (literal (-0.5))
    formula.Plain ∧ parse "\tp *\n2. - -.5" = .ok formula ∧ (formula == formula) = true := by
  intro formula
  have plain : formula.Plain := by decide
  have spells : List.Forall₂ Spells (wordList "\tp *\n2. - -.5".toList) formula.symbols := by
    have words : wordList "\tp *\n2. - -.5".toList =
        [['p'], ['*'], ['2', '.'], ['-'], ['-', '.', '5']] := by decide
    rw [words]
    exact .cons (.identifier (by decide)) (.cons (.operator .multiply)
      (.cons (.number (by decide +kernel)) (.cons (.operator .subtract)
        (.cons (.number (by decide +kernel)) .nil))))
  have read : parse "\tp *\n2. - -.5" = .ok formula :=
    (parse_inverts_writing.2.2 formula plain).2 _ _ spells (spaced_wordList _)
  exact ⟨plain, read, (parse_inverts_writing.2.1 _ formula read).1⟩

end Formula

end PriceFormula
