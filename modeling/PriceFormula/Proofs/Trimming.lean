import PriceFormula.CommandLine
import PriceFormula.Proofs.Conversation
import PriceFormula.Proofs.Pricing
import PriceFormula.Proofs.Printing
import PriceFormula.Proofs.Spacing

/-!
This file compares an adjustment on the command line with the same adjustment at the prompt, where
the blanks around it are removed. The main statement is that both have the same total or the same
failure, but for the columns of syntax faults, which the removed blanks move.
-/

namespace PriceFormula

namespace Text

/-! ### Words of trimmed texts -/

/-- Blanks behind a text hold no words. -/
theorem wordsFrom_append_blanks (column : Nat) (inside : Bool) (text : List Char)
    {blanks : List Char} (blank : ∀ char ∈ blanks, isBlank char) :
    wordsFrom column inside (text ++ blanks) = wordsFrom column inside text := by
  cases blanks with
  | nil => rw [List.append_nil]
  | cons first others =>
      rw [List.forall_mem_cons] at blank
      rw [wordsFrom_append_blank column inside text blank.1, ← List.append_nil others,
        wordsFrom_blanks_append _ blank.2]
      exact List.append_nil _

/-- Words keep their distances wherever the text starts. -/
theorem wordsFrom_shift (column shift : Nat) (inside : Bool) (text : List Char) :
    wordsFrom (column + shift) inside text =
      (wordsFrom column inside text).map (Located.relocate (· + shift)) := by
  induction text generalizing column inside with
  | nil => rfl
  | cons char rest inductionHypothesis =>
      have walked : column + shift + 1 = column + 1 + shift := by omega
      rw [wordsFrom, wordsFrom, walked, inductionHypothesis, inductionHypothesis]
      split
      · rfl
      · split
        · rfl
        · rfl

/-- The words of a text are those of the trimmed text behind the leading blanks. -/
theorem locatedWords_eq_trim (text : List Char) :
    locatedWords text =
      (locatedWords (trim text)).map
        (Located.relocate (· + (text.takeWhile isBlank).length)) := by
  conv_lhs => rw [← Prompt.append_trim text]
  rw [locatedWords, wordsFrom_blanks_append 1 fun _ => List.mem_takeWhile_imp,
    wordsFrom_append_blanks _ _ _ fun _ => List.mem_rtakeWhile_imp, wordsFrom_shift]
  rfl

/-- Trimming keeps the words. -/
theorem wordList_trim (text : List Char) : wordList (trim text) = wordList text := by
  rw [wordList, wordList, locatedWords_eq_trim text, List.map_map]
  rfl

/-- The column in the trimmed text: the end of the text stays its end, and all other columns lose
the leading blanks. -/
def trimmedColumn (text : List Char) (column : Nat) : Nat :=
  if column = endColumn text then endColumn (trim text)
  else column - (text.takeWhile isBlank).length

/-- Trimming moves all words by the blanks in front. -/
theorem wordStarts_eq_trim (text : List Char) :
    wordStarts text = (wordStarts (trim text)).map (· + (text.takeWhile isBlank).length) := by
  rw [wordStarts, wordStarts, locatedWords_eq_trim text, List.map_map, List.map_map]
  rfl

/-- The columns of words and the end column are moved as trimming moves them. -/
theorem trimmedColumn_columnAt (text : List Char) (position : Nat) :
    trimmedColumn text (columnAt text position) = columnAt (trim text) position := by
  have starts := wordStarts_eq_trim text
  have length : (wordStarts text).length = (wordStarts (trim text)).length := by
    rw [starts, List.length_map]
  rcases Nat.lt_or_ge position (wordStarts text).length with inside | past
  · -- no word starts at the end of the text
    have before : columnAt text position ≠ endColumn text := fun stop =>
      absurd (columnAt_eq_endColumn_iff.1 stop) (Nat.not_le_of_lt inside)
    rw [trimmedColumn, if_neg before, columnAt_of_lt inside, columnAt_of_lt (length ▸ inside)]
    simp only [starts, List.getElem_map, Nat.add_sub_cancel]
  · rw [trimmedColumn, columnAt_of_le past, if_pos rfl, columnAt_of_le (length ▸ past)]

/-- A text without blanks around it keeps its columns. -/
theorem trimmedColumn_of_trimmed {text : List Char} (trimmed : trim text = text)
    (filled : text ≠ []) (column : Nat) : trimmedColumn text column = column := by
  have leading : text.takeWhile isBlank = [] := by
    cases text with
    | nil => rfl
    | cons first rest =>
        have visible := (Prompt.trims_trim (first :: rest)).first first
        rw [trimmed] at visible
        exact List.takeWhile_cons_of_neg (visible rfl)
  rw [trimmedColumn, trimmed, leading]
  split
  · next stop => exact stop.symm
  · rfl

end Text

open Text

/-- The same failure with its syntax faults at other columns. -/
def Failure.relocate (columns : Nat → Nat) : Failure → Failure
  | .malformed diagnostics => .malformed (diagnostics.map (Diagnostic.relocate columns))
  | other => other

/-- A failure stays as it is if no column is moved. -/
theorem Failure.relocate_of_forall (failure : Failure) {columns : Nat → Nat}
    (same : ∀ column, columns column = column) : failure.relocate columns = failure := by
  have unmoved : (Diagnostic.relocate columns : Diagnostic Fault → Diagnostic Fault) = id := by
    funext diagnostic
    rw [Diagnostic.relocate, same]
    rfl
  cases failure with
  | malformed diagnostics => rw [relocate, unmoved, List.map_id]
  | undefinedVariable | cyclicVariable | divisionByZero => rfl

/-- Moving columns removes no faults. -/
theorem Failure.eq_of_relocate_eq_nil (failure : Failure) {columns : Nat → Nat}
    (none : failure.relocate columns = .malformed []) : failure = .malformed [] := by
  cases failure with
  | malformed diagnostics =>
      rw [relocate, malformed.injEq, List.map_eq_nil_iff] at none
      rw [none]
  | undefinedVariable | cyclicVariable | divisionByZero => cases none

namespace Formula

/-- A trimmed text is read alike, with faults in its own columns. -/
theorem parse_trim (source : String) :
    parse (String.ofList (trim source.toList)) =
      (parse source).mapError
        (List.map (Diagnostic.relocate (trimmedColumn source.toList))) := by
  obtain ⟨reading, reads⟩ := exists_reading (wordList source.toList)
  have trimmed := reads (String.ofList (trim source.toList)) (by
    rw [String.toList_ofList, wordList_trim])
  rw [trimmed, reads source rfl, String.toList_ofList]
  cases reading with
  | ok formula => rfl
  | error faults =>
      rw [Except.mapError, Except.mapError, Except.mapError, List.map_map]
      refine congrArg Except.error (List.map_congr_left fun fault _ => ?_)
      simp only [Function.comp_apply, Diagnostic.relocate, trimmedColumn_columnAt]

end Formula

/-- A trimmed text has the same value or the same failure, in its own columns. -/
theorem evaluateText_trim (policy : Policy) (bindings : Bindings) (source : String) :
    evaluateText policy bindings (String.ofList (trim source.toList)) =
      (evaluateText policy bindings source).mapError
        (Failure.relocate (trimmedColumn source.toList)) := by
  rw [evaluateText, evaluateText, Formula.parse_trim]
  cases Formula.parse source with
  | error diagnostics => rfl
  | ok formula =>
      have never := formula.evaluate_ne_malformed policy bindings
      simp only [Except.mapError]
      cases outcome : formula.evaluate policy bindings with
      | ok value => rfl
      | error failure =>
          rw [outcome] at never
          cases failure with
          | malformed diagnostics => exact absurd rfl (never diagnostics)
          | undefinedVariable | cyclicVariable | divisionByZero => rfl

/-! ### Totals and reasons -/

/-- A text that is not read has at least one fault. -/
theorem Formula.parse_ne_error_nil (source : String) : parse source ≠ .error [] := by
  intro failed
  unfold parse at failed
  split at failed
  · next diagnostics read =>
    cases failed
    unfold Token.readAll at read
    split at read
    · cases read
    · next nonempty same =>
      cases read
      exact nonempty rfl
  · split at failed
    · cases failed
    · cases failed

/-- Every reason has several words. -/
theorem Failure.exists_blank_of_message {failure : Failure} (reasons : failure ≠ .malformed []) :
    ∃ char ∈ failure.message.toList, isBlank char := by
  have start (diagnostic : Diagnostic Fault) : ' ' ∈ diagnostic.text.toList := by
    simp [Diagnostic.text]
  refine ⟨' ', ?_, by decide⟩
  cases failure with
  | malformed diagnostics =>
      cases diagnostics with
      | nil => exact (reasons rfl).elim
      | cons first rest =>
          have report : (Failure.malformed (first :: rest)).message.toList =
              ['\n'].intercalate (((first :: rest).map Diagnostic.text).map String.toList) :=
            String.toList_intercalate
          rw [report]
          cases rest with
          | nil => simpa using start first
          | cons second others =>
              rw [List.map_cons, List.map_cons, List.map_cons, List.map_cons,
                List.intercalate_cons_cons, List.append_assoc]
              exact List.mem_append_left _ (start first)
  | undefinedVariable name =>
      change ' ' ∈ ("Undefined variable: " ++ name).toList
      simp
  | cyclicVariable name =>
      change ' ' ∈ ("Variable is defined in terms of itself: " ++ name).toList
      simp
  | divisionByZero =>
      change ' ' ∈ "Tried to divide by zero".toList
      simp

/-- No number is written like the reason of a failure. -/
theorem Number.text_ne_message (value : Float) {failure : Failure}
    (reasons : failure ≠ .malformed []) : text value ≠ failure.message := by
  intro same
  obtain ⟨char, member, blank⟩ := failure.exists_blank_of_message reasons
  rw [← same] at member
  exact isVisible_iff.1 (isVisible_of_mem_text value char member) blank

namespace Prompt

/-! ### One line at the prompt -/

/-- The input is a single line of text. Without its newline such a line is not empty. -/
def IsLine (text : String) (input : List UInt8) : Prop :=
  '\n' ∉ text.toList ∧
    (input = encode text ++ [newline] ∨ input = encode text ∧ encode text ≠ [])

/-- There is one answer to the input, between two signs. -/
def Answers (policy : Policy) (quote : Quote) (input : List UInt8) (answer : String) : Prop :=
  converse policy quote input = ⟨sign ++ answer ++ "\n" ++ sign, .finished⟩

/-- An input has one answer only. -/
theorem Answers.unique {policy : Policy} {quote : Quote} {input : List UInt8}
    {first second : String} (answers : Answers policy quote input first)
    (alsoAnswers : Answers policy quote input second) : first = second := by
  rw [Answers, answers, Transcript.mk.injEq, String.append_left_inj, String.append_left_inj,
    String.append_right_inj] at alsoAnswers
  exact alsoAnswers.1

/-- A text without a newline is encoded without one. -/
theorem newline_not_mem_encode {text : String} (single : '\n' ∉ text.toList) :
    newline ∉ encode text := by
  intro member
  obtain ⟨char, inside, byte⟩ := List.mem_flatMap.1 member
  exact single (eq_newline_of_mem_utf8EncodeChar byte ▸ inside)

/-- Only texts of blanks are trimmed to nothing. -/
theorem trim_eq_nil_iff {text : List Char} : trim text = [] ↔ ∀ char ∈ text, isBlank char := by
  constructor
  · intro none
    rw [← append_trim text, none, List.nil_append, List.forall_mem_append]
    exact ⟨fun _ => List.mem_takeWhile_imp, fun _ => List.mem_rtakeWhile_imp⟩
  · intro blank
    have trims : Trims text [] :=
      ⟨⟨text, [], by simp, blank, List.forall_mem_nil _⟩, nofun, nofun⟩
    exact trims.eq_trim.symm

/-- A newline behind the line does not change the adjustment. -/
theorem adjustment?_append_newline (text : String) :
    adjustment? (text ++ "\n") = adjustment? text := by
  have trims := trims_trim text.toList
  obtain ⟨before, after, same, leading, trailing⟩ := trims.around
  have longer : Trims (text ++ "\n").toList (trim text.toList) := by
    refine ⟨⟨before, after ++ ['\n'], ?_, leading, ?_⟩, trims.first, trims.last⟩
    · rw [String.toList_append]
      conv_lhs => rw [same]
      rw [List.append_assoc _ after]
      rfl
    · exact List.forall_mem_append.2 ⟨trailing, List.forall_mem_singleton.2 (by decide)⟩
  rw [adjustment?_of_trims longer, adjustment?_of_trims trims]

/-- The answer to a line is the reply to its text. -/
theorem answers_of_isLine (policy : Policy) (parts labor : Float) (initial : Option String)
    {text : String} {input : List UInt8} (line : IsLine text input) :
    Answers policy ⟨parts, labor, initial⟩ input (reply policy parts labor text) := by
  obtain ⟨single, ending⟩ := line
  have none := newline_not_mem_encode single
  have answered (written : String) : script policy parts labor [written] =
      sign ++ reply policy parts labor written ++ "\n" := by
    rw [script_cons, script, List.map_nil, String.join_nil, String.append_empty]
  rcases ending with rfl | ⟨rfl, filled⟩
  · have encoded : encode text ++ [newline] = encode (text ++ "\n") := by
      rw [encode, encode, String.toList_append, List.flatMap_append]
      rfl
    have cut : AreLines (encode text ++ [newline]) ([text ++ "\n"].map encode) := by
      rw [List.map_singleton, ← encoded]
      exact .cons none .nil
    rw [Answers, converse_of_encoded cut, answered, reply, adjustment?_append_newline, ← reply]
  · have cut : AreLines (encode text) ([text].map encode) := .last filled none
    rw [Answers, converse_of_encoded cut, answered]

/-- A line that is not blank is answered like its text, but for the columns. -/
theorem reply_of_visible (policy : Policy) (parts labor : Float) {text : String}
    (visible : ∃ char ∈ text.toList, isVisible char) :
    reply policy parts labor text =
      match (Quote.mk parts labor (some text)).total policy with
      | .ok total => Number.text total
      | .error failure => (failure.relocate (trimmedColumn text.toList)).message := by
  have filled : trim text.toList ≠ [] := by
    intro blank
    obtain ⟨char, member, shown⟩ := visible
    exact isVisible_iff.1 shown (trim_eq_nil_iff.1 blank char member)
  have trimmed : (Quote.mk parts labor (some (String.ofList (trim text.toList)))).total policy =
      ((Quote.mk parts labor (some text)).total policy).mapError
        (Failure.relocate (trimmedColumn text.toList)) :=
    evaluateText_trim policy (Quote.mk parts labor (some text)).bindings text
  rw [reply, adjustment?_of_trims (trims_trim text.toList), if_neg filled, trimmed]
  cases (Quote.mk parts labor (some text)).total policy <;> rfl

variable {policy : Policy} {parts labor : Float} {initial : Option String} {text : String}
  {input : List UInt8}

/-- An adjustment with a total is answered with the total. -/
theorem answers_of_total (line : IsLine text input)
    (visible : ∃ char ∈ text.toList, isVisible char) {total : Float}
    (valued : (Quote.mk parts labor (some text)).total policy = .ok total) :
    Answers policy ⟨parts, labor, initial⟩ input (Number.text total) := by
  have answers := answers_of_isLine policy parts labor initial line
  rwa [reply_of_visible policy parts labor visible, valued] at answers

/-- An adjustment without a total is answered with the reason, in the columns of the trimmed text.
-/
theorem answers_of_failure (line : IsLine text input)
    (visible : ∃ char ∈ text.toList, isVisible char) {failure : Failure}
    (failed : (Quote.mk parts labor (some text)).total policy = .error failure) :
    Answers policy ⟨parts, labor, initial⟩ input
      (failure.relocate (trimmedColumn text.toList)).message := by
  have answers := answers_of_isLine policy parts labor initial line
  rwa [reply_of_visible policy parts labor visible, failed] at answers

/-- At the prompt a blank line asks for the plain total. -/
theorem answers_of_blank (line : IsLine text input) (blank : ∀ char ∈ text.toList, isBlank char) :
    Answers policy ⟨parts, labor, initial⟩ input (Number.text (parts + labor)) := by
  have answers := answers_of_isLine policy parts labor initial line
  rwa [reply, adjustment?_of_trims (trims_trim text.toList),
    if_pos (trim_eq_nil_iff.2 blank)] at answers

end Prompt

namespace CommandLine

variable {policy : Policy} {parts labor : Float} {text : String} {other : List UInt8}

/-- A command with a total writes it and succeeds. -/
theorem execute_of_total {total : Float}
    (valued : (Quote.mk parts labor (some text)).total policy = .ok total) :
    execute ⟨⟨parts, labor, some text⟩, policy⟩ other = ⟨Number.text total ++ "\n", none⟩ := by
  simp only [execute, Quote.totalLine, valued]

/-- A command without a total writes nothing and fails with the reason. -/
theorem execute_of_failure {failure : Failure}
    (failed : (Quote.mk parts labor (some text)).total policy = .error failure) :
    execute ⟨⟨parts, labor, some text⟩, policy⟩ other = ⟨"", some failure.message⟩ := by
  simp only [execute, Quote.totalLine, failed]

/-- A total never fails without a reason, wherever the reasons stand. -/
theorem relocate_ne_malformed_nil (columns : Nat → Nat) {failure : Failure}
    (failed : (Quote.mk parts labor (some text)).total policy = .error failure) :
    failure.relocate columns ≠ .malformed [] := by
  intro none
  rw [failure.eq_of_relocate_eq_nil none, Quote.total_eq_malformed_iff] at failed
  exact Formula.parse_ne_error_nil text failed

/-- A text of blanks is an empty expression. -/
theorem parse_of_blank (blank : ∀ char ∈ text.toList, isBlank char) :
    Formula.parse text = .error [⟨endColumn text.toList, .emptyExpression⟩] := by
  have noWords : locatedWords text.toList = [] := wordsFrom_append_blanks 1 false [] blank
  have valid : ∀ word ∈ wordList text.toList, Token.IsWord word := by
    rw [wordList, noWords]
    exact List.forall_mem_nil _
  refine Formula.parse_eq_error_of_fault valid ?_
  rw [Form.ofText, noWords]
  rfl

/-- A line with an adjustment is answered like the adjustment on the command line: with the same
total, or with the same reason. The prompt removes the blanks around the adjustment, and only the
columns of syntax faults show it. A blank adjustment is refused on the command line, but at the
prompt it is none. -/
theorem execute_agrees_with_prompt (policy : Policy) (parts labor : Float) (text : String)
    (initial : Option String) (input other : List UInt8) (line : Prompt.IsLine text input) :
    let quote : Quote := ⟨parts, labor, some text⟩
    let outcome := execute ⟨quote, policy⟩ other
    let Answers := Prompt.Answers policy ⟨parts, labor, initial⟩ input
    ((∃ char ∈ text.toList, isVisible char) →
      (∀ total, outcome = ⟨Number.text total ++ "\n", none⟩ ↔ Answers (Number.text total)) ∧
      ((∃ total, outcome = ⟨Number.text total ++ "\n", none⟩) ∨
        ∃ failure, quote.total policy = .error failure ∧
          outcome = ⟨"", some failure.message⟩ ∧
          Answers (failure.relocate (trimmedColumn text.toList)).message ∧
          (trim text.toList = text.toList → Answers failure.message))) ∧
    ((∀ char ∈ text.toList, isBlank char) →
      outcome = ⟨"", some (Failure.malformed
        [⟨endColumn text.toList, .emptyExpression⟩]).message⟩ ∧
      Answers (Number.text (parts + labor))) := by
  intro quote outcome Answers
  constructor
  · intro visible
    cases result : quote.total policy with
    | ok total =>
        have printed : outcome = ⟨Number.text total ++ "\n", none⟩ := execute_of_total result
        have answers : Answers (Number.text total) := Prompt.answers_of_total line visible result
        refine ⟨fun value => ?_, .inl ⟨total, printed⟩⟩
        rw [printed, Outcome.mk.injEq, String.append_left_inj]
        constructor
        · rintro ⟨same, _⟩
          exact same ▸ answers
        · exact fun alsoAnswers => ⟨answers.unique alsoAnswers, rfl⟩
    | error failure =>
        have refused : outcome = ⟨"", some failure.message⟩ := execute_of_failure result
        have answers : Answers (failure.relocate (trimmedColumn text.toList)).message :=
          Prompt.answers_of_failure line visible result
        refine ⟨fun value => ?_, .inr ⟨failure, rfl, refused, answers, fun trimmed => ?_⟩⟩
        · rw [refused, Outcome.mk.injEq]
          constructor
          · exact fun printed => nomatch printed.2
          · -- The text of a total is a single word, and no reason is.
            intro alsoAnswers
            have differs := Number.text_ne_message value
              (relocate_ne_malformed_nil (trimmedColumn text.toList) result)
            exact absurd (alsoAnswers.unique answers) differs
        · obtain ⟨char, member, _⟩ := visible
          have columns := trimmedColumn_of_trimmed trimmed (List.ne_nil_of_mem member)
          rwa [failure.relocate_of_forall columns] at answers
  · intro blank
    exact ⟨execute_of_failure ((Quote.total_eq_malformed_iff policy).2 (parse_of_blank blank)),
      Prompt.answers_of_blank line blank⟩

/-- A fault at the end of an adjustment follows the end of the trimmed text. -/
theorem execute_before_trailing_blank :
    let input : List UInt8 := [32, 32, 112, 32, 42, 32, 10]
    Prompt.IsLine "  p * " input ∧ (∃ char ∈ "  p * ".toList, isVisible char) ∧
      execute ⟨⟨145, 45, some "  p * "⟩, .zero⟩ [] =
        ⟨"", some "error (c. 7): Expected operand after '*'"⟩ ∧
      Prompt.converse .zero ⟨145, 45, none⟩ input =
        ⟨"> error (c. 4): Expected operand after '*'\n> ", .finished⟩ := by
  intro input
  have line : Prompt.IsLine "  p * " input := ⟨by decide, .inl (by decide)⟩
  have visible : ∃ char ∈ "  p * ".toList, isVisible char := ⟨'p', by decide, by decide⟩
  have refused : (Quote.mk 145 45 (some "  p * ")).total .zero =
      .error (.malformed [⟨7, .missingRight .multiply⟩]) := by
    have valid : ∀ word ∈ wordList "  p * ".toList, Token.IsWord word := by
      have classified : ∀ word ∈ wordList "  p * ".toList, (Token.classify? word).isSome := by
        decide
      exact fun word member => Token.classify?_isSome_iff.1 (classified word member)
    have read : Formula.parse "  p * " = .error [⟨7, .missingRight .multiply⟩] :=
      Formula.parse_eq_error_of_fault valid (by decide)
    exact (Quote.total_eq_malformed_iff .zero).2 read
  obtain ⟨_, printed | ⟨failure, failed, written, answered, _⟩⟩ :=
    (execute_agrees_with_prompt .zero 145 45 "  p * " none input [] line).1 visible
  · obtain ⟨total, printed⟩ := printed
    rw [execute_of_failure refused, Outcome.mk.injEq] at printed
    exact nomatch printed.2
  · rw [refused] at failed
    cases failed
    exact ⟨line, visible, written, answered⟩

end CommandLine

end PriceFormula
