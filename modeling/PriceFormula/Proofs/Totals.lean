import PriceFormula.Proofs.Trimming

/-!
This file types totals. A total that was printed is a single number word, and wherever it is typed
again it stands for the same number. The plain total of a quote is the one that the formula of both
prices gives.
-/

namespace PriceFormula

open Text

/-! ### Texts without blanks -/

namespace Text

variable {text : List Char}

/-- A text without blanks is a single word. -/
theorem locatedWords_of_visible (filled : text ≠ [])
    (visible : ∀ char ∈ text, isVisible char) : locatedWords text = [⟨1, text⟩] := by
  have apart : ∀ char ∈ ([] : List Char).head?, isBlank char := nofun
  have found := wordsFrom_word 1 filled visible apart
  rwa [List.append_nil] at found

/-- A text without blanks is one word. -/
theorem wordList_of_visible (filled : text ≠ []) (visible : ∀ char ∈ text, isVisible char) :
    wordList text = [text] := by
  rw [wordList, locatedWords_of_visible filled visible, List.map_singleton]

end Text

namespace Prompt

/-- A text without blanks is trimmed already. -/
theorem trims_of_visible {text : List Char} (visible : ∀ char ∈ text, isVisible char) :
    Trims text text where
  around := ⟨[], [], by simp, List.forall_mem_nil _, List.forall_mem_nil _⟩
  first := by
    intro char member
    exact isVisible_iff.1 (visible char (List.mem_of_head? member))
  last := by
    intro char member
    exact isVisible_iff.1 (visible char (List.mem_of_getLast? member))

/-- A text without blanks is a line of its own, with or without its newline. -/
theorem isLine_of_visible {text : String} (filled : text.toList ≠ [])
    (visible : ∀ char ∈ text.toList, isVisible char) {input : List UInt8}
    (typed : input = encode text ∨ input = encode text ++ [newline]) : IsLine text input := by
  have single : '\n' ∉ text.toList := by
    intro member
    exact absurd (visible '\n' member) (by decide)
  have encoded : encode text ≠ [] := by
    intro none
    obtain ⟨char, member⟩ := List.exists_mem_of_ne_nil _ filled
    exact String.utf8EncodeChar_ne_nil (List.flatMap_eq_nil_iff.1 none char member)
  exact ⟨single, typed.symm.imp_right fun same => ⟨same, encoded⟩⟩

end Prompt

/-! ### Words by their tokens -/

namespace Token

variable {word : List Char} {kind : Kind}

/-- What spells a token is a valid word. -/
theorem Spells.isWord (spells : Spells word kind) : IsWord word := by
  rw [← classify?_isSome_iff, classify?_eq_some_iff.2 spells]
  rfl

/-- A text that is a single word is read as the token of the word. -/
theorem Spells.readAll (spells : Spells word kind) :
    ∃ token, readAll word = .ok [token] ∧ token.kind = kind ∧ token.lexeme = word ∧
      token.column = 1 := by
  obtain ⟨filled, visible⟩ := spells.isWord.isVisible
  have valid : ∀ other ∈ wordList word, IsWord other := by
    rw [wordList_of_visible filled visible]
    exact List.forall_mem_singleton.2 spells.isWord
  obtain ⟨tokens, read, spans, classified⟩ := readAll_of_valid valid
  have words := locatedWords_of_visible filled visible
  rw [← words_located, ← spans, List.map_map] at words
  obtain ⟨token, rfl, located⟩ := List.map_eq_singleton_iff.1 words
  have lexeme : token.lexeme = word := congrArg Located.content located
  have column : token.column = 1 := congrArg Located.column located
  have found := classified token (List.mem_singleton_self token)
  rw [lexeme, classify?_eq_some_iff] at found
  exact ⟨token, read, rightUnique_spells found spells, lexeme, column⟩

/-- A word among others spells its token there. -/
theorem forall₂_spells_append_iff {front back : List (List Char)} (spells : Spells word kind)
    {kinds : List Kind} :
    List.Forall₂ Spells (front ++ word :: back) kinds ↔
      ∃ frontKinds backKinds, kinds = frontKinds ++ kind :: backKinds ∧
        List.Forall₂ Spells front frontKinds ∧ List.Forall₂ Spells back backKinds := by
  constructor
  · intro spelled
    obtain ⟨frontKinds, other, backKinds, split, inFront, alsoSpells, inBack⟩ :=
      exists_split_of_word spelled
    rw [rightUnique_spells alsoSpells spells] at split
    exact ⟨frontKinds, backKinds, split, inFront, inBack⟩
  · rintro ⟨frontKinds, backKinds, rfl, inFront, inBack⟩
    exact List.rel_append inFront (.cons spells inBack)

end Token

/-- A text is read as a formula just when the formula needs no brackets and the words of the text
spell its tokens. -/
theorem Formula.parse_eq_ok_iff {source : String} {formula : Formula} :
    parse source = .ok formula ↔
      formula.Plain ∧ List.Forall₂ Token.Spells (wordList source.toList) formula.symbols := by
  constructor
  · intro read
    have sum := isSum_of_parse_eq_ok read
    exact ⟨sum.plain, sum.spells⟩
  · rintro ⟨plain, spells⟩
    exact parse_eq_ok_of_isSum (Grammar.isSum_of_spells plain spells)

/-- The text of a finite number spells the number. -/
theorem Number.spells_text {value : Float} (finite : value.isFinite) :
    Token.Spells (text value).toList (.number value) :=
  .number (readNumber?_text finite)

namespace Quote

variable (quote : Quote) (policy : Policy)

/-- However a formula is spelled, it prices the quote. -/
theorem total_of_spells {adjustment : String} {formula : Formula} (plain : formula.Plain)
    (spells : List.Forall₂ Token.Spells (wordList adjustment.toList) formula.symbols) :
    (quote.adjust (some adjustment)).total policy = formula.evaluate policy quote.bindings :=
  total_of_parse policy (Formula.parse_eq_ok_iff.2 ⟨plain, spells⟩)

/-! ### Printed totals -/

section Printed

variable {value : Float}

/-- The text of a finite number as an adjustment has the number as its total. -/
theorem total_of_text (finite : value.isFinite) :
    (quote.adjust (some (Number.text value))).total policy = .ok value := by
  have spells := Number.spells_text finite
  obtain ⟨filled, visible⟩ := spells.isWord.isVisible
  have plain : (Formula.literal value).Plain :=
    Token.isNaN_of_readNumber? (Number.readNumber?_text finite)
  have spelled : List.Forall₂ Token.Spells (wordList (Number.text value).toList)
      (Formula.literal value).symbols := by
    rw [wordList_of_visible filled visible]
    exact .cons spells .nil
  rw [quote.total_of_spells policy plain spelled, Formula.evaluate_literal]

/-- The prompt answers the text of a finite number with the same text. -/
theorem answers_text (finite : value.isFinite) {input : List UInt8}
    (typed : input = Prompt.encode (Number.text value) ∨
      input = Prompt.encode (Number.text value) ++ [Prompt.newline]) :
    Prompt.Answers policy quote input (Number.text value) := by
  obtain ⟨filled, visible⟩ := (Number.spells_text finite).isWord.isVisible
  obtain ⟨char, member⟩ := List.exists_mem_of_ne_nil _ filled
  apply Prompt.answers_of_total
  · exact Prompt.isLine_of_visible filled visible typed
  · exact ⟨char, member, visible char member⟩
  · exact quote.total_of_text policy finite

end Printed

/-- A finite total can be typed as it was printed. As an adjustment or as a line at the prompt it is
a single number word, its total is the same number, zero with its sign, and it is printed in the
same way, whatever the prices are and whatever happens to unbound names. Among further words it
stands for the number wherever it is typed. -/
theorem total_of_printed_total {value : Float} (finite : value.isFinite) (quote : Quote)
    (policy : Policy) :
    let text := Number.text value
    let typed := quote.adjust (some text)
    (∀ (printed : Quote) (other : Policy), printed.total other = .ok value →
      printed.totalLine other = .ok (text ++ "\n")) ∧
    (∃ token, Token.readAll text.toList = .ok [token] ∧ token.kind = .number value ∧
      token.lexeme = text.toList ∧ token.column = 1) ∧
    typed.total policy = .ok value ∧
    typed.totalLine policy = .ok (text ++ "\n") ∧
    (Prompt.adjustment? text = some text ∧ Prompt.adjustment? (text ++ "\n") = some text) ∧
    (∀ input, input = Prompt.encode text ∨ input = Prompt.encode text ++ [Prompt.newline] →
      Prompt.Answers policy quote input text) ∧
    ∀ (source : String) (front back : List (List Char)) (formula : Formula),
      wordList source.toList = front ++ text.toList :: back →
      (Formula.parse source = .ok formula ↔
        formula.Plain ∧ ∃ frontKinds backKinds,
          formula.symbols = frontKinds ++ .number value :: backKinds ∧
          List.Forall₂ Token.Spells front frontKinds ∧
          List.Forall₂ Token.Spells back backKinds) := by
  intro text typed
  have spells : Token.Spells text.toList (.number value) := Number.spells_text finite
  obtain ⟨filled, visible⟩ := spells.isWord.isVisible
  have total : typed.total policy = .ok value := quote.total_of_text policy finite
  have line {printed : Quote} {other : Policy} (valued : printed.total other = .ok value) :
      printed.totalLine other = .ok (text ++ "\n") := by
    rw [totalLine, valued]
  have adjustment : Prompt.adjustment? text = some text := by
    rw [Prompt.adjustment?_of_trims (Prompt.trims_of_visible visible), if_neg filled,
      String.ofList_toList]
  refine ⟨fun _ _ => line, spells.readAll, total, line total,
    ⟨adjustment, (Prompt.adjustment?_append_newline text).trans adjustment⟩,
    fun _ => quote.answers_text policy finite, ?_⟩
  intro source front back formula words
  rw [Formula.parse_eq_ok_iff, words, Token.forall₂_spells_append_iff spells]

/-- Zero keeps its sign, and it is no operator in front of a zero. -/
theorem total_of_printed_minus_zero :
    (-0 : Float).isFinite ∧
    ((ofPrices 145 45).adjust (some "-0")).total .reject = .ok (-0) ∧
    Prompt.converse .reject (ofPrices 145 45) [45, 48, 10] = ⟨"> -0\n> ", .finished⟩ ∧
    Formula.parse "p / -0" = .ok (.binary .divide (.named "p") (.literal (-0))) := by
  have finite : (-0 : Float).isFinite := rfl
  have text : Number.text (-0) = "-0" := by decide +kernel
  obtain ⟨_, _, total, _, _, answers, anywhere⟩ :=
    total_of_printed_total finite (ofPrices 145 45) .reject
  rw [text] at total answers anywhere
  have words : wordList "p / -0".toList = [['p'], ['/']] ++ "-0".toList :: [] := by decide
  refine ⟨finite, total, answers [45, 48, 10] (.inr (by decide)),
    (anywhere "p / -0" _ _ _ words).2 ⟨by decide, [.identifier "p", .operator .divide], [], rfl,
      .cons (.identifier (by decide)) (.cons (.operator .divide) .nil), .nil⟩⟩

/-! ### Plain totals -/

/-- Parts plus labor may as well be written out, with any blanks around the words. It has the total
of the quote without an adjustment, for all prices, and no earlier adjustment matters. -/
theorem total_of_written_sum (quote : Quote) (policy : Policy) (earlier : Option String)
    {text : String} (words : wordList text.toList = [['p'], ['+'], ['l']]) :
    (quote.adjust (some text)).total policy = .ok (quote.parts + quote.labor) ∧
      ((quote.adjust earlier).adjust none).total policy = .ok (quote.parts + quote.labor) := by
  refine ⟨?_, rfl⟩
  have spells : List.Forall₂ Token.Spells (wordList text.toList)
      (Formula.binary .add (.named partsName) (.named laborName)).symbols := by
    rw [words]
    exact .cons (.identifier (by decide)) (.cons (.operator .add)
      (.cons (.identifier (by decide)) .nil))
  rw [quote.total_of_spells policy (by decide) spells, Formula.evaluate_binary, evaluate_named,
    evaluate_named, if_pos rfl, if_neg (by decide), if_pos rfl]
  rfl

/-- Infinities of both signs have a sum that is not a number, also between blanks of all kinds. -/
theorem total_of_written_infinities :
    let quote : Quote :=
      ⟨Number.ofRank false Number.infiniteRank, Number.ofRank true Number.infiniteRank, some "l / 0"⟩
    wordList "\u00a0p\t+\u2003\u2003l\n".toList = [['p'], ['+'], ['l']] ∧
    ∃ total, (quote.adjust (some "\u00a0p\t+\u2003\u2003l\n")).total .zero = .ok total ∧
      ((quote.adjust (some "x")).adjust none).total .zero = .ok total ∧ total.isNaN := by
  intro quote
  have words : wordList "\u00a0p\t+\u2003\u2003l\n".toList = [['p'], ['+'], ['l']] := by decide
  obtain ⟨written, plain⟩ := total_of_written_sum quote .zero (some "x") words
  exact ⟨words, _, written, plain, by decide +kernel⟩

end Quote

end PriceFormula
