import PriceFormula.Formula.Reading
import PriceFormula.Proofs.Grammar

/-!
This file says which texts are read as formulas, as which formula, and with which fault a text
of valid words is refused. The main statements are that reading accepts exactly the sums of the
grammar and that every other sequence of valid words is refused with its one syntax fault.
-/

namespace PriceFormula

open Form Text

/-- The form of a text of valid words. -/
def Form.ofText (text : List Char) : List Mark :=
  (locatedWords text).map fun word => word.map Operator.ofWord?

/-- The form of a text tells its operators from its other words. -/
theorem Form.ofText_contents (text : List Char) :
    (ofText text).map Located.content = (wordList text).map Operator.ofWord? := by
  rw [ofText, wordList, List.map_map, List.map_map]
  rfl

/-- The operators in the form of a text are those whose symbols are words of the text. -/
theorem Form.any_ofText_iff (text : List Char) (test : Operator → Bool) :
    (ofText text).any (fun mark => mark.content.any test) ↔
      ∃ operator : Operator, test operator ∧ [operator.symbol] ∈ wordList text := by
  have contents := ofText_contents text
  constructor
  · intro found
    obtain ⟨mark, member, passes⟩ := List.any_eq_true.1 found
    have inContents : mark.content ∈ (wordList text).map Operator.ofWord? := by
      rw [← contents]
      exact List.mem_map_of_mem member
    cases content : mark.content with
    | none =>
        rw [content] at passes
        cases passes
    | some operator =>
        rw [content] at passes inContents
        obtain ⟨word, inside, read⟩ := List.mem_map.1 inContents
        rw [Operator.ofWord?_eq_some_iff] at read
        exact ⟨operator, passes, read ▸ inside⟩
  · rintro ⟨operator, passes, member⟩
    have inContents : some operator ∈ (ofText text).map Located.content := by
      rw [contents, ← operator.ofWord?_symbol]
      exact List.mem_map_of_mem member
    obtain ⟨mark, inside, content⟩ := List.mem_map.1 inContents
    refine List.any_eq_true.2 ⟨mark, inside, ?_⟩
    rw [content]
    exact passes

/-- A token and its word make the same item. -/
theorem Item.ofToken_eq_ofWord {token : Token}
    (classified : Token.classify? token.lexeme = some token.kind) :
    ofToken token = ofWord token.span.located := by
  change Token.classify? token.span.located.content = some token.kind at classified
  unfold Token.classify? at classified
  cases found : Operator.ofWord? token.span.located.content with
  | some operator =>
      simp only [found, Option.some.injEq] at classified
      simp only [ofToken, ofWord, ← classified, found]
      rfl
  | none =>
      cases read : Token.readNumber? token.span.located.content with
      | some value =>
          simp only [found, read, Option.some.injEq] at classified
          simp only [ofToken, ofWord, ← classified, found, read]
          rfl
      | none =>
          simp only [found, read, Option.ite_none_right_eq_some, Option.some.injEq] at classified
          simp only [ofToken, ofWord, ← classified.2, found, read]
          rfl

/-- The tokens of a text of valid words are the items of these words. -/
theorem Token.readAll_items_of_valid {text : List Char}
    (valid : ∀ word ∈ wordList text, IsWord word) :
    ∃ tokens, readAll text = .ok tokens ∧
      tokens.map Item.ofToken = (locatedWords text).map Item.ofWord := by
  obtain ⟨tokens, read, spans, classified⟩ := readAll_of_valid valid
  refine ⟨tokens, read, ?_⟩
  rw [← words_located, ← spans, List.map_map, List.map_map]
  exact List.map_congr_left fun token member => Item.ofToken_eq_ofWord (classified token member)

/-- Tokens are split if they mix the classes. -/
theorem Plan.ofTokens_eq (tokens : List Token) :
    ofTokens tokens =
      if mixesClasses ((tokens.map Item.ofToken).map Item.mark) then .split else .direct := by
  have contents (token : Token) : (Item.ofToken token).mark.content = token.operator? := by
    unfold Item.ofToken Token.operator?
    cases token.kind <;> rfl
  have any (test : Operator → Bool) : (tokens.filterMap Token.operator?).any test =
      ((tokens.map Item.ofToken).map Item.mark).any fun mark => mark.content.any test := by
    rw [List.any_filterMap, List.any_map, List.any_map]
    congr
    funext token
    simp only [Function.comp_apply, contents]
    cases token.operator? <;> rfl
  rw [ofTokens, mixesClasses, ← any, ← any]

namespace Formula

/-- The items of a text are put together on the plan that its form asks for. -/
def assembleText (text : List Char) : Except (Diagnostic Fault) Formula :=
  if mixesClasses (ofText text) then
    assembleSplit ((locatedWords text).map Item.ofWord) (endColumn text)
  else assemble ((locatedWords text).map Item.ofWord) (endColumn text)

/-- The items of a text have the form of the text. -/
theorem items_marks (text : List Char) :
    ((locatedWords text).map Item.ofWord).map Item.mark = ofText text := by
  rw [List.map_map, ofText]
  congr
  funext word
  exact Item.mark_ofWord word

/-- A text of valid words is read as its items are assembled. -/
theorem parse_of_valid {source : String}
    (valid : ∀ word ∈ wordList source.toList, Token.IsWord word) :
    parse source =
      match assembleText source.toList with
      | .error diagnostic => .error [diagnostic]
      | .ok formula => .ok formula := by
  obtain ⟨tokens, read, items⟩ := Token.readAll_items_of_valid valid
  have assembled : ofTokens tokens (endColumn source.toList) = assembleText source.toList := by
    rw [ofTokens, Plan.ofTokens_eq, items, items_marks, assembleText]
    cases mixesClasses (ofText source.toList) <;> rfl
  cases result : assembleText source.toList with
  | error diagnostic => simp only [parse, read, assembled, result]
  | ok formula => simp only [parse, read, assembled, result]

/-- A text with an invalid word is not read. -/
theorem parse_of_invalid {source : String}
    (invalid : ¬ ∀ word ∈ wordList source.toList, Token.IsWord word) :
    ∃ diagnostics, parse source = .error diagnostics := by
  rw [parse, Token.readAll_of_invalid invalid]
  exact ⟨_, rfl⟩

/-- The words of a sum are assembled into its formula. -/
theorem assembleText_of_isSum {text : List Char} {formula : Formula}
    (sum : Grammar.IsSum (wordList text) formula) : assembleText text = .ok formula := by
  unfold assembleText
  split
  · exact sum.assembleSplit rfl (endColumn text)
  · next sameClass =>
    refine Assembly.assemble_chain ?_ (endColumn text)
    rw [mixesClasses, Bool.and_eq_true, not_and_or, any_ofText_iff, any_ofText_iff] at sameClass
    rcases sameClass with noFactor | noTerm
    · exact sum.chain_of_no_factor
        (fun operator factor member => noFactor ⟨operator, factor, member⟩) _ rfl
    · have product := sum.product_of_no_term
        fun operator term member => noTerm ⟨operator, term, member⟩
      exact product.chain _ rfl

/-- A text whose form has a fault is refused with this fault. -/
theorem assembleText_of_fault {text : List Char} {fault : Diagnostic Fault}
    (faulty : syntaxFault? (endColumn text) (ofText text) = some fault) :
    assembleText text = .error fault := by
  unfold assembleText
  unfold syntaxFault? at faulty
  split at faulty
  · next mixed =>
    rw [if_pos mixed]
    rw [← items_marks] at faulty
    exact assembleSplit_of_fault faulty
  · next sameClass =>
    rw [if_neg sameClass]
    rw [← items_marks] at faulty
    exact Assembly.assemble_of_fault faulty

/-- A text that does not alternate has a syntax fault. -/
theorem exists_syntaxFault {text : List Char} (stop : Nat)
    (malformed : ¬ Alternating ((wordList text).map Operator.ofWord?)) :
    ∃ fault, syntaxFault? stop (ofText text) = some fault := by
  cases found : syntaxFault? stop (ofText text) with
  | some fault => exact ⟨fault, rfl⟩
  | none =>
      have alternating := alternating_of_syntaxFault?_eq_none found
      rw [ofText_contents] at alternating
      exact absurd alternating malformed

/-- A text whose words are a sum is read as its formula. -/
theorem parse_eq_ok_of_isSum {source : String} {formula : Formula}
    (sum : Grammar.IsSum (wordList source.toList) formula) : parse source = .ok formula := by
  rw [parse_of_valid sum.isWord, assembleText_of_isSum sum]

/-- Among valid words the fault of the form is the only one reported. -/
theorem parse_eq_error_of_fault {source : String} {fault : Diagnostic Fault}
    (valid : ∀ word ∈ wordList source.toList, Token.IsWord word)
    (faulty : syntaxFault? (endColumn source.toList) (ofText source.toList) = some fault) :
    parse source = .error [fault] := by
  rw [parse_of_valid valid, assembleText_of_fault faulty]

/-- Whatever is read is a sum. -/
theorem isSum_of_parse_eq_ok {source : String} {formula : Formula}
    (read : parse source = .ok formula) : Grammar.IsSum (wordList source.toList) formula := by
  by_cases valid : ∀ word ∈ wordList source.toList, Token.IsWord word
  · by_cases alternating : Alternating ((wordList source.toList).map Operator.ofWord?)
    · obtain ⟨other, sum⟩ := Grammar.exists_isSum valid alternating
      rw [parse_eq_ok_of_isSum sum] at read
      cases read
      exact sum
    · obtain ⟨fault, faulty⟩ := exists_syntaxFault (endColumn source.toList) alternating
      rw [parse_eq_error_of_fault valid faulty] at read
      cases read
  · obtain ⟨diagnostics, refused⟩ := parse_of_invalid valid
    rw [refused] at read
    cases read

/-- A text is read exactly when all its words are valid and alternate, and then as the one
formula that the grammar gives to its words. -/
theorem parse_accepts_exactly_sums (source : String) :
    ((∃ formula, parse source = .ok formula) ↔
      (∀ word ∈ wordList source.toList, Token.IsWord word) ∧
        Alternating ((wordList source.toList).map Operator.ofWord?)) ∧
      ∀ formula, parse source = .ok formula ↔
        Grammar.IsSum (wordList source.toList) formula := by
  refine ⟨⟨?_, ?_⟩, fun formula => ⟨isSum_of_parse_eq_ok, parse_eq_ok_of_isSum⟩⟩
  · rintro ⟨formula, read⟩
    have sum := isSum_of_parse_eq_ok read
    exact ⟨sum.isWord, sum.alternating⟩
  · rintro ⟨valid, alternating⟩
    obtain ⟨formula, sum⟩ := Grammar.exists_isSum valid alternating
    exact ⟨formula, parse_eq_ok_of_isSum sum⟩

/-- Valid words that do not alternate are refused with one fault, which their form determines. -/
theorem parse_reports_syntaxFault {source : String}
    (valid : ∀ word ∈ wordList source.toList, Token.IsWord word)
    (malformed : ¬ Alternating ((wordList source.toList).map Operator.ofWord?)) :
    ∃ fault, syntaxFault? (endColumn source.toList) (ofText source.toList) = some fault ∧
      parse source = .error [fault] := by
  obtain ⟨fault, faulty⟩ := exists_syntaxFault (endColumn source.toList) malformed
  exact ⟨fault, faulty, parse_eq_error_of_fault valid faulty⟩

/-- A factor in front of a term operator lacks its right operand where the term operator is. -/
theorem parse_factor_before_term :
    (∀ word ∈ wordList "2 * + 3".toList, Token.IsWord word) ∧
      ¬ Alternating ((wordList "2 * + 3".toList).map Operator.ofWord?) ∧
      parse "2 * + 3" = .error [⟨5, .missingRight .multiply⟩] := by
  have words : wordList "2 * + 3".toList = [['2'], ['*'], ['+'], ['3']] := by decide
  have valid : ∀ word ∈ wordList "2 * + 3".toList, Token.IsWord word := by
    have classified : (wordList "2 * + 3".toList).all fun word =>
        (Token.classify? word).isSome := by
      rw [words]
      rfl
    intro word member
    exact Token.classify?_isSome_iff.1 (List.all_eq_true.1 classified word member)
  have malformed : ¬ Alternating ((wordList "2 * + 3".toList).map Operator.ofWord?) := by
    rw [words]
    intro alternating
    cases alternating with
    | cons _ behind => cases behind
  obtain ⟨fault, faulty, refused⟩ := parse_reports_syntaxFault valid malformed
  have computed : syntaxFault? (endColumn "2 * + 3".toList) (ofText "2 * + 3".toList) =
      some ⟨5, .missingRight .multiply⟩ := by decide
  rw [computed] at faulty
  rw [refused, Option.some.inj faulty]
  exact ⟨valid, malformed, rfl⟩

end Formula

end PriceFormula
