import PriceFormula.Proofs.Words
import PriceFormula.Token

/-!
This file says which words are tokens and that the three classes of them exclude each other.
A text is read as its words in order, or the words that are no tokens are reported in order.
-/

namespace PriceFormula

/-- Operators have one spelling. -/
theorem Operator.ofWord?_eq_some_iff {word : List Char} {operator : Operator} :
    ofWord? word = some operator ↔ word = [operator.symbol] := by
  constructor
  · intro found
    unfold ofWord? at found
    split at found
    all_goals cases found <;> rfl
  · intro same
    rw [same, ofWord?_symbol]

/-- A word that starts with no sign is taken as it is. -/
theorem Number.splitSign_cons {char : Char} (rest : List Char) (notMinus : char ≠ '-')
    (notPlus : char ≠ '+') : splitSign (char :: rest) = (false, char :: rest) := by
  unfold splitSign
  split
  · next same => exact absurd (List.cons.inj same).1 notMinus
  · next same => exact absurd (List.cons.inj same).1 notPlus
  · rfl

namespace Token
open Text

/-- The words that formulas consist of. -/
inductive IsWord : List Char → Prop where
  | operator (operator : Operator) : IsWord [operator.symbol]
  | number {word : List Char} {value : Float} (read : readNumber? word = some value) : IsWord word
  | identifier {word : List Char} (named : isIdentifier word) : IsWord word

/-- No symbol looks like a number, even though a sign may start one. -/
theorem looksNumeric_symbol (operator : Operator) : looksNumeric [operator.symbol] = false := by
  cases operator <;> decide

theorem isIdentifier_symbol (operator : Operator) : isIdentifier [operator.symbol] = false := by
  cases operator <;> decide

/-- No identifier starts like a number. -/
theorem startsIdentifier_not_numeric {char : Char} (starts : startsIdentifier char) :
    char ≠ '-' ∧ char ≠ '+' ∧ char ≠ '.' ∧ char.isDigit = false := by
  have differs (other : Char) (never : ¬ startsIdentifier other) : char ≠ other := by
    intro same
    exact never (same ▸ starts)
  refine ⟨differs '-' (by decide), differs '+' (by decide), differs '.' (by decide), ?_⟩
  simp only [startsIdentifier, Bool.or_eq_true, beq_iff_eq] at starts
  simp only [Char.isDigit, Bool.and_eq_false_iff, decide_eq_false_iff_not]
  right
  intro digit
  rcases starts with letter | rfl
  · -- both ranges of letters lie above the digits
    rcases (Bool.or_eq_true _ _).mp letter with upper | lower
    · exact absurd (UInt32.le_trans (of_decide_eq_true upper).1 digit) (by decide)
    · have above := ((Bool.and_eq_true _ _).mp lower).1
      exact absurd (UInt32.le_trans (of_decide_eq_true above) digit) (by decide)
  · exact absurd digit (by decide)

/-- No identifier starts like a number, not even the names of infinity. -/
theorem looksNumeric_of_isIdentifier {word : List Char} (named : isIdentifier word) :
    looksNumeric word = false := by
  cases word with
  | nil => exact absurd named Bool.false_ne_true
  | cons char rest =>
      have starts : startsIdentifier char := by
        rw [isIdentifier, Bool.and_eq_true] at named
        exact named.1
      obtain ⟨notMinus, notPlus, notPoint, notDigit⟩ := startsIdentifier_not_numeric starts
      have unsigned := Number.splitSign_cons rest notMinus notPlus
      simp [looksNumeric, unsigned, notDigit, notPoint]

theorem readNumber?_symbol (operator : Operator) : readNumber? [operator.symbol] = none := by
  simp [readNumber?, looksNumeric_symbol]

/-- No number is an operator. -/
theorem ofWord?_of_readNumber? {word : List Char} {value : Float}
    (read : readNumber? word = some value) : Operator.ofWord? word = none := by
  cases found : Operator.ofWord? word with
  | none => rfl
  | some operator =>
      rw [Operator.ofWord?_eq_some_iff.1 found, readNumber?_symbol] at read
      cases read

/-- No identifier is an operator. -/
theorem ofWord?_of_isIdentifier {word : List Char} (named : isIdentifier word) :
    Operator.ofWord? word = none := by
  cases found : Operator.ofWord? word with
  | none => rfl
  | some operator =>
      rw [Operator.ofWord?_eq_some_iff.1 found, isIdentifier_symbol] at named
      cases named

theorem readNumber?_of_isIdentifier {word : List Char} (named : isIdentifier word) :
    readNumber? word = none := by
  simp [readNumber?, looksNumeric_of_isIdentifier named]

/-- A symbol is classified as its operator. -/
theorem classify?_symbol (operator : Operator) :
    classify? [operator.symbol] = some (.operator operator) := by
  rw [classify?, Operator.ofWord?_symbol]

theorem classify?_of_readNumber? {word : List Char} {value : Float}
    (read : readNumber? word = some value) : classify? word = some (.number value) := by
  rw [classify?, ofWord?_of_readNumber? read, read]

theorem classify?_of_isIdentifier {word : List Char} (named : isIdentifier word) :
    classify? word = some (.identifier (String.ofList word)) := by
  rw [classify?, ofWord?_of_isIdentifier named, readNumber?_of_isIdentifier named]
  exact if_pos named

/-- The words that are classified are the valid ones. -/
theorem classify?_isSome_iff {word : List Char} : (classify? word).isSome ↔ IsWord word := by
  constructor
  · intro classified
    unfold classify? at classified
    split at classified
    · next operator found =>
      rw [Operator.ofWord?_eq_some_iff.1 found]
      exact .operator operator
    · split at classified
      · next value read => exact .number read
      · split at classified
        · next named => exact .identifier named
        · cases classified
  · intro valid
    cases valid with
    | operator operator => rw [classify?_symbol]; rfl
    | number read => rw [classify?_of_readNumber? read]; rfl
    | identifier named => rw [classify?_of_isIdentifier named]; rfl

/-- The report about a word that is no token. -/
def invalidWord (word : Located (List Char)) : Diagnostic Fault :=
  ⟨word.column, .invalidToken (String.ofList word.content)⟩

/-- The faults are those of the invalid words, in order. -/
theorem collect_faults (spans : List Span) :
    (collect spans).1 =
      ((spans.map Span.located).filter fun word => (classify? word.content).isNone).map
        invalidWord := by
  induction spans with
  | nil => rfl
  | cons span rest inductionHypothesis =>
      simp only [collect, List.map_cons, List.filter_cons]
      cases found : classify? span.lexeme with
      | none => simp [ofSpan, found, Span.located, invalidWord, ← inductionHypothesis]
      | some kind => simp [ofSpan, found, Span.located, ← inductionHypothesis]

/-- The tokens are the valid words, in order. -/
theorem collect_spans (spans : List Span) :
    (collect spans).2.map Token.span =
      spans.filter fun span => (classify? span.lexeme).isSome := by
  induction spans with
  | nil => rfl
  | cons span rest inductionHypothesis =>
      simp only [collect, List.filter_cons]
      cases found : classify? span.lexeme with
      | none => simp [ofSpan, found, inductionHypothesis]
      | some kind => simp [ofSpan, found, inductionHypothesis]

/-- A token has the kind that its word is classified as. -/
theorem classify?_of_mem_collect {spans : List Span} {token : Token}
    (member : token ∈ (collect spans).2) : classify? token.lexeme = some token.kind := by
  induction spans with
  | nil => cases member
  | cons span rest inductionHypothesis =>
      simp only [collect] at member
      cases found : classify? span.lexeme with
      | none =>
          simp only [ofSpan, found] at member
          exact inductionHypothesis member
      | some kind =>
          simp only [ofSpan, found, List.mem_cons] at member
          rcases member with rfl | later
          · exact found
          · exact inductionHypothesis later

/-- The words are what the spans hold. -/
theorem mem_wordList_iff {text word : List Char} :
    word ∈ wordList text ↔ ∃ span ∈ Text.words text, span.lexeme = word := by
  simp only [wordList, ← words_located, List.map_map, List.mem_map, Function.comp_apply,
    Span.located]

/-- A text whose words are all valid is read as one token for every word. -/
theorem readAll_of_valid {text : List Char} (valid : ∀ word ∈ wordList text, IsWord word) :
    ∃ tokens, readAll text = .ok tokens ∧ tokens.map Token.span = Text.words text ∧
      ∀ token ∈ tokens, classify? token.lexeme = some token.kind := by
  have classified : ∀ span ∈ Text.words text, (classify? span.lexeme).isSome := by
    intro span member
    exact classify?_isSome_iff.2 (valid _ (mem_wordList_iff.2 ⟨span, member, rfl⟩))
  have faults : (collect (Text.words text)).1 = [] := by
    rw [collect_faults, List.map_eq_nil_iff, List.filter_eq_nil_iff]
    intro word member
    obtain ⟨span, inside, rfl⟩ := List.mem_map.1 member
    simpa [Span.located, Option.isSome_iff_ne_none] using classified span inside
  refine ⟨(collect (Text.words text)).2, ?_, ?_, fun token => classify?_of_mem_collect⟩
  · rw [readAll]
    split
    · next tokens same => rw [same]
    · next nonempty same => exact absurd (by rw [← faults, same]) nonempty
  · rw [collect_spans, List.filter_eq_self]
    exact classified

/-- One invalid word is enough to have only the invalid words reported. -/
theorem readAll_of_invalid {text : List Char} (invalid : ¬ ∀ word ∈ wordList text, IsWord word) :
    readAll text =
      .error (((locatedWords text).filter fun word => (classify? word.content).isNone).map
        invalidWord) := by
  have faults := collect_faults (Text.words text)
  rw [words_located] at faults
  rw [readAll]
  split
  · next same =>
    have none : (collect (Text.words text)).1 = [] := by rw [same]
    rw [faults, List.map_eq_nil_iff, List.filter_eq_nil_iff] at none
    refine absurd (fun word member => ?_) invalid
    obtain ⟨located, inside, rfl⟩ := List.mem_map.1 member
    refine classify?_isSome_iff.1 ?_
    simpa [Option.isSome_iff_ne_none] using none located inside
  · next same =>
    rw [← faults, same]

end Token

end PriceFormula
