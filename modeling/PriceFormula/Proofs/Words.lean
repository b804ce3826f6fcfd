import Mathlib.Data.List.TakeWhile
import PriceFormula.Text.Span

/-!
This file says which words a text has and where they start, by one walk over its characters.
The spans that are cut from the text by byte offsets are these words at these columns.
-/

namespace PriceFormula

/-- Something that stands at a column of a text. -/
structure Located (Content : Type) where
  column : Nat
  content : Content
  deriving DecidableEq

/-- What is located is changed where it stands. -/
def Located.map {First Second : Type} (f : First → Second) (located : Located First) :
    Located Second :=
  ⟨located.column, f located.content⟩

namespace Text

/-- The words from a column on; the flag says that the walk is inside a word. A word starts at a
visible character outside of a word and goes on as long as the characters are visible. -/
def wordsFrom : Nat → Bool → List Char → List (Located (List Char))
  | _, _, [] => []
  | column, inside, char :: rest =>
    if isBlank char then wordsFrom (column + 1) false rest
    else if inside then wordsFrom (column + 1) true rest
    else ⟨column, char :: rest.takeWhile isVisible⟩ :: wordsFrom (column + 1) true rest

/-- The words of a text at their columns. -/
def locatedWords (text : List Char) : List (Located (List Char)) :=
  wordsFrom 1 false text

/-- The words of a text. -/
def wordList (text : List Char) : List (List Char) :=
  (locatedWords text).map Located.content

/-- Symbols that pass a test are taken up to the first one that does not. -/
theorem takeWhile_append_of_head {Symbol : Type} {test : Symbol → Bool}
    {front rest : List Symbol} (passes : ∀ symbol ∈ front, test symbol)
    (stops : ∀ symbol ∈ rest.head?, ¬ test symbol) :
    (front ++ rest).takeWhile test = front ∧ (front ++ rest).dropWhile test = rest := by
  have none : rest.takeWhile test = [] ∧ rest.dropWhile test = rest := by
    cases rest with
    | nil => exact ⟨rfl, rfl⟩
    | cons symbol rest =>
        have fails := stops symbol rfl
        exact ⟨List.takeWhile_cons_of_neg fails, List.dropWhile_cons_of_neg fails⟩
  rw [List.takeWhile_append_of_pos passes, List.dropWhile_append_of_pos passes, none.1, none.2,
    List.append_nil]
  exact ⟨rfl, rfl⟩

/-- Blanks in front of the words only shift their columns. -/
theorem wordsFrom_skip_blanks (column : Nat) (text : List Char) :
    wordsFrom column false text =
      wordsFrom (column + (text.takeWhile isBlank).length) false (text.dropWhile isBlank) := by
  induction text generalizing column with
  | nil => rfl
  | cons char rest inductionHypothesis =>
      by_cases blank : isBlank char
      · rw [List.takeWhile_cons_of_pos blank, List.dropWhile_cons_of_pos blank, List.length_cons]
        have walked : column + ((rest.takeWhile isBlank).length + 1) =
            column + 1 + (rest.takeWhile isBlank).length := by omega
        rw [walked, ← inductionHypothesis (column + 1), wordsFrom, if_pos blank]
      · rw [List.takeWhile_cons_of_neg blank, List.dropWhile_cons_of_neg blank]
        rfl

/-- Inside a word the walk goes on behind the word. -/
theorem wordsFrom_skip_visible (column : Nat) (text : List Char) :
    wordsFrom column true text =
      wordsFrom (column + (text.takeWhile isVisible).length) false (text.dropWhile isVisible) := by
  induction text generalizing column with
  | nil => rfl
  | cons char rest inductionHypothesis =>
      by_cases blank : isBlank char
      · have hidden : ¬ isVisible char := by simp [isVisible, blank]
        rw [List.takeWhile_cons_of_neg hidden, List.dropWhile_cons_of_neg hidden]
        simp only [wordsFrom, blank, ↓reduceIte, List.length_nil, Nat.add_zero]
      · have visible : isVisible char := by simp [isVisible, blank]
        rw [List.takeWhile_cons_of_pos visible, List.dropWhile_cons_of_pos visible,
          List.length_cons]
        have walked : column + ((rest.takeWhile isVisible).length + 1) =
            column + 1 + (rest.takeWhile isVisible).length := by omega
        rw [walked, ← inductionHypothesis (column + 1), wordsFrom, if_neg blank, if_pos rfl]

/-- The first word is the longest visible piece at the start. -/
theorem wordsFrom_visible (column : Nat) {char : Char} (rest : List Char)
    (visible : isVisible char) :
    wordsFrom column false (char :: rest) =
      ⟨column, (char :: rest).takeWhile isVisible⟩ ::
        wordsFrom (column + ((char :: rest).takeWhile isVisible).length) false
          ((char :: rest).dropWhile isVisible) := by
  have shown : ¬ isBlank char := by simpa [isVisible] using visible
  rw [List.takeWhile_cons_of_pos visible, List.dropWhile_cons_of_pos visible, wordsFrom,
    if_neg shown, if_neg Bool.false_ne_true, wordsFrom_skip_visible, List.length_cons]
  have walked : column + 1 + (rest.takeWhile isVisible).length =
      column + ((rest.takeWhile isVisible).length + 1) := by omega
  rw [walked]

/-- The bytes of two pieces add up. -/
theorem utf8Length_append (first second : List Char) :
    utf8Length (first ++ second) = utf8Length first + utf8Length second := by
  induction first with
  | nil => simp
  | cons char rest inductionHypothesis =>
      simp only [List.cons_append, utf8Length_cons, inductionHypothesis]
      omega

/-- The first character of a text fits into its bytes and leaves those of the rest. -/
theorem utf8Length_cons_eq_succ (char : Char) (rest : List Char) :
    ∃ count, utf8Length (char :: rest) = count + 1 ∧ char.utf8Size ≤ count + 1 ∧
      count + 1 - char.utf8Size = utf8Length rest := by
  have positive := char.utf8Size_pos
  refine ⟨char.utf8Size + utf8Length rest - 1, ?_, ?_, ?_⟩
  · rw [utf8Length_cons]
    omega
  · omega
  · omega

/-- Without the bytes of its first piece, a text is its second piece. -/
theorem dropBytes?_utf8Length (first second : List Char) :
    dropBytes? (utf8Length first) (first ++ second) = some second := by
  induction first with
  | nil => cases second <;> rfl
  | cons char rest inductionHypothesis =>
      obtain ⟨count, size, fits, left⟩ := utf8Length_cons_eq_succ char rest
      rw [size, List.cons_append, dropBytes?, if_pos fits, left, inductionHypothesis]

theorem takeBytes?_utf8Length (first second : List Char) :
    takeBytes? (utf8Length first) (first ++ second) = some first := by
  induction first with
  | nil => cases second <;> rfl
  | cons char rest inductionHypothesis =>
      obtain ⟨count, size, fits, left⟩ := utf8Length_cons_eq_succ char rest
      rw [size, List.cons_append, takeBytes?, if_pos fits, left, inductionHypothesis]
      rfl

/-- Byte offsets at the two ends of a piece cut out that piece. -/
theorem sliceBytes?_piece (before piece after : List Char) :
    sliceBytes? (utf8Length before) (utf8Length (before ++ piece)) (before ++ piece ++ after) =
      some piece := by
  have length : utf8Length (before ++ piece) - utf8Length before = utf8Length piece := by
    rw [utf8Length_append]
    omega
  rw [sliceBytes?, length, List.append_assoc, dropBytes?_utf8Length, Option.bind_some,
    takeBytes?_utf8Length]

namespace Place

/-- The walk to a place has passed exactly these characters. -/
structure Passed (before : List Char) (place : Place) : Prop where
  text : place.text = before ++ place.rest
  column : place.column = before.length + 1

/-- At the start nothing is passed. -/
theorem passed_start (text : List Char) : (start text).Passed [] :=
  ⟨rfl, rfl⟩

theorem skipFrom_column (test : Char → Bool) (text rest : List Char) (column : Nat) :
    (skipFrom test text rest column).column = column + (rest.takeWhile test).length := by
  induction rest generalizing column with
  | nil => rfl
  | cons char rest inductionHypothesis =>
      unfold skipFrom
      by_cases passes : test char
      · rw [if_pos passes, inductionHypothesis, List.takeWhile_cons_of_pos passes,
          List.length_cons]
        omega
      · rw [if_neg passes, List.takeWhile_cons_of_neg passes]
        rfl

/-- Every character that is skipped counts as one column, whatever its bytes. -/
@[simp] theorem skipWhile_column (test : Char → Bool) (place : Place) :
    (place.skipWhile test).column = place.column + (place.rest.takeWhile test).length :=
  skipFrom_column test place.text place.rest place.column

/-- What is skipped is passed. -/
theorem Passed.skipWhile {before : List Char} {place : Place} (passed : place.Passed before)
    (test : Char → Bool) :
    (place.skipWhile test).Passed (before ++ place.rest.takeWhile test) where
  text := by
    rw [skipWhile_text, skipWhile_rest, List.append_assoc, List.takeWhile_append_dropWhile]
    exact passed.text
  column := by
    rw [skipWhile_column, passed.column, List.length_append]
    omega

/-- The offset of a place counts the bytes that are passed. -/
theorem Passed.offset {before : List Char} {place : Place} (passed : place.Passed before) :
    place.offset = utf8Length before := by
  rw [Place.offset, passed.text, utf8Length_append]
  omega

/-- The bytes that a walk passes are those of the characters that pass the test. -/
theorem Passed.sliceBytes?_skipWhile {before : List Char} {place : Place}
    (passed : place.Passed before) (test : Char → Bool) :
    sliceBytes? place.offset (place.skipWhile test).offset place.text =
      some (place.rest.takeWhile test) := by
  have text : place.text =
      before ++ place.rest.takeWhile test ++ place.rest.dropWhile test := by
    rw [List.append_assoc, List.takeWhile_append_dropWhile]
    exact passed.text
  rw [passed.offset, (passed.skipWhile test).offset, text, sliceBytes?_piece]

/-- A span holds the characters that pass the test. -/
theorem Passed.lexeme_spanWhile {before : List Char} {place : Place}
    (passed : place.Passed before) (test : Char → Bool) :
    (place.spanWhile test).lexeme = place.rest.takeWhile test := by
  change (sliceBytes? place.offset (place.skipWhile test).offset place.text).getD [] = _
  rw [passed.sliceBytes?_skipWhile]
  rfl

end Place

/-- A span shows its text at its column. -/
def Span.located (span : Span) : Located (List Char) :=
  ⟨span.column, span.lexeme⟩

/-- A place at a visible character is the start of a word. -/
theorem Place.Passed.wordsFrom_spanWhile {before : List Char} {place : Place}
    (passed : place.Passed before) {char : Char} {rest : List Char}
    (found : place.rest = char :: rest) (visible : isVisible char) :
    wordsFrom place.column false place.rest =
      (place.spanWhile isVisible).located ::
        wordsFrom (place.skipWhile isVisible).column false (place.skipWhile isVisible).rest := by
  rw [skipWhile_column, skipWhile_rest, Span.located, passed.lexeme_spanWhile, found]
  exact wordsFrom_visible place.column rest visible

/-- The spans from a place on are the words that the walk over the characters finds. -/
theorem Place.Passed.words {before : List Char} {place : Place} (passed : place.Passed before) :
    place.words.map Span.located = wordsFrom place.column false place.rest := by
  -- the induction is on what remains of the text, which every word shortens
  induction length : place.rest.length using Nat.strong_induction_on generalizing place before with
  | _ length' inductionHypothesis =>
      subst length
      have reached := passed.skipWhile isBlank
      rw [wordsFrom_skip_blanks, ← skipWhile_column, ← skipWhile_rest, Place.words]
      by_cases inside : (place.skipWhile isBlank).rest ≠ []
      · obtain ⟨char, rest, found⟩ := List.exists_cons_of_ne_nil inside
        have visible : isVisible char := by
          have head := List.head?_dropWhile_not isBlank place.rest
          rw [← skipWhile_rest, found] at head
          simpa [isVisible] using head
        have behind := inductionHypothesis _ (place.length_rest_word_lt inside)
          (reached.skipWhile isVisible) rfl
        rw [dif_pos inside, List.map_cons, reached.wordsFrom_spanWhile found visible, ← behind]
        rfl
      · rw [dif_neg inside, not_not.1 inside]
        rfl

/-- The spans of a text are its words, each where it starts. -/
theorem words_located (text : List Char) :
    (words text).map Span.located = locatedWords text :=
  (Place.passed_start text).words

end Text

end PriceFormula
