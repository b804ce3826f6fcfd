import Mathlib.Data.List.DropRight
import Mathlib.Data.List.Forall2
import PriceFormula.Proofs.Tokens

/-!
This file says what reading the tokens of a text does to any text. The words are the longest
pieces without a blank, every place and every cut of the scan lies inside of the text, and the
tokens are the words in order, or the faults are the invalid words in order.
-/

namespace PriceFormula

namespace Text

/-! ### Words as longest pieces without a blank -/

/-- The piece holds no blank, and blanks or an end of the text stand on both sides of it. -/
structure Enclosed (before piece after : List Char) : Prop where
  nonempty : piece ≠ []
  visible : ∀ char ∈ piece, isVisible char
  blankBefore : ∀ char ∈ before.getLast?, isBlank char
  blankAfter : ∀ char ∈ after.head?, isBlank char

/-- The word is a longest piece of the text without a blank, at the column of its first
character. -/
def IsLongestPiece (text : List Char) (word : Located (List Char)) : Prop :=
  ∃ before after, text = before ++ word.content ++ after ∧ word.column = before.length + 1 ∧
    Enclosed before word.content after

/-- The visible characters are all but the blanks. -/
theorem isVisible_iff {char : Char} : isVisible char ↔ ¬ isBlank char := by
  simp [isVisible]

/-- Visible characters end at a blank, if the text does not end there. -/
theorem blank_of_mem_head?_dropWhile {rest : List Char} :
    ∀ char ∈ (rest.dropWhile isVisible).head?, isBlank char := by
  intro char first
  have stopped := List.head?_dropWhile_not isVisible rest
  rw [Option.mem_def.1 first] at stopped
  simpa [isVisible] using stopped

/-- A walk over the text finds the word enclosed. When the walk starts inside of a word, the word
does not start with the text. -/
def FoundFrom (column : Nat) (inside : Bool) (text : List Char) (word : Located (List Char)) :
    Prop :=
  ∃ before after, text = before ++ word.content ++ after ∧ word.column = column + before.length ∧
    Enclosed before word.content after ∧ (before = [] → inside = false)

/-- A walk finds what is found behind its first character. -/
theorem FoundFrom.behind {column : Nat} {flag inside : Bool} {char : Char} {rest : List Char}
    {word : Located (List Char)} (found : FoundFrom (column + 1) flag rest word)
    (outside : flag = false → isBlank char) : FoundFrom column inside (char :: rest) word := by
  obtain ⟨before, after, same, place, enclosed, start⟩ := found
  refine ⟨char :: before, after, congrArg (char :: ·) same, ?_, ⟨enclosed.nonempty,
    enclosed.visible, ?_, enclosed.blankAfter⟩, fun empty => absurd empty (List.cons_ne_nil _ _)⟩
  · rw [place, List.length_cons]
    omega
  · cases before with
    | nil => simpa using outside (start rfl)
    | cons first others => exact enclosed.blankBefore

/-- A visible character that nothing visible precedes starts a word. -/
theorem foundFrom_start (column : Nat) {char : Char} (rest : List Char)
    (visible : isVisible char) :
    FoundFrom column false (char :: rest) ⟨column, char :: rest.takeWhile isVisible⟩ := by
  refine ⟨[], rest.dropWhile isVisible, ?_, rfl, ⟨List.cons_ne_nil _ _, ?_,
    fun last none => absurd none (Option.not_mem_none last), blank_of_mem_head?_dropWhile⟩,
    fun _ => rfl⟩
  · rw [List.nil_append, List.cons_append, List.takeWhile_append_dropWhile]
  · exact List.forall_mem_cons.2 ⟨visible, fun _ => List.mem_takeWhile_imp⟩

/-- Every word that is listed is found in the text. -/
theorem foundFrom_of_mem_wordsFrom {column : Nat} {inside : Bool} {text : List Char}
    {word : Located (List Char)} (member : word ∈ wordsFrom column inside text) :
    FoundFrom column inside text word := by
  induction text generalizing column inside with
  | nil => cases member
  | cons char rest inductionHypothesis =>
      rw [wordsFrom] at member
      split at member
      · next blank => exact (inductionHypothesis member).behind fun _ => blank
      · next shown =>
        split at member
        · exact (inductionHypothesis member).behind
            fun outside => absurd outside.symm Bool.false_ne_true
        · next outside =>
          rcases List.mem_cons.1 member with rfl | later
          · rw [Bool.eq_false_iff.2 outside]
            exact foundFrom_start column rest (isVisible_iff.2 shown)
          · exact (inductionHypothesis later).behind
              fun outside => absurd outside.symm Bool.false_ne_true

/-- A blank behind a text does not prolong the word at its start. -/
theorem takeWhile_append_blank (front : List Char) {rest : List Char}
    (blank : ∀ char ∈ rest.head?, isBlank char) :
    (front ++ rest).takeWhile isVisible = front.takeWhile isVisible := by
  induction front with
  | nil =>
      cases rest with
      | nil => rfl
      | cons char rest =>
          have hidden : ¬ isVisible char := fun visible => isVisible_iff.1 visible (blank char rfl)
          rw [List.nil_append, List.takeWhile_cons_of_neg hidden, List.takeWhile_nil]
  | cons first others inductionHypothesis =>
      rw [List.cons_append, List.takeWhile_cons, List.takeWhile_cons, inductionHypothesis]

/-- A blank ends a word, and the walk starts again behind it. -/
theorem wordsFrom_append_blank (column : Nat) (inside : Bool) (front : List Char) {char : Char}
    (blank : isBlank char) (rest : List Char) :
    wordsFrom column inside (front ++ char :: rest) =
      wordsFrom column inside front ++ wordsFrom (column + front.length + 1) false rest := by
  induction front generalizing column inside with
  | nil => simp [wordsFrom, blank]
  | cons first others inductionHypothesis =>
      have walked : column + (first :: others).length + 1 = column + 1 + others.length + 1 := by
        rw [List.length_cons]
        omega
      have word : (others ++ char :: rest).takeWhile isVisible = others.takeWhile isVisible :=
        takeWhile_append_blank others fun _ same => Option.some.inj same ▸ blank
      rw [List.cons_append, wordsFrom, wordsFrom, inductionHypothesis, inductionHypothesis, walked,
        word]
      split
      · rfl
      · split <;> rfl

/-- A walk goes through blanks without finding anything. -/
theorem wordsFrom_blanks_append (column : Nat) {blanks : List Char}
    (blank : ∀ char ∈ blanks, isBlank char) (rest : List Char) :
    wordsFrom column false (blanks ++ rest) = wordsFrom (column + blanks.length) false rest := by
  induction blanks generalizing column with
  | nil => rfl
  | cons first others inductionHypothesis =>
      rw [List.forall_mem_cons] at blank
      have walked : column + (first :: others).length = column + 1 + others.length := by
        rw [List.length_cons]
        omega
      rw [List.cons_append, wordsFrom, if_pos blank.1, inductionHypothesis _ blank.2, walked]

/-- The walk over a word and what stands behind it finds the word. -/
theorem wordsFrom_word (column : Nat) {word rest : List Char} (filled : word ≠ [])
    (visible : ∀ char ∈ word, isVisible char) (apart : ∀ char ∈ rest.head?, isBlank char) :
    wordsFrom column false (word ++ rest) =
      ⟨column, word⟩ :: wordsFrom (column + word.length) false rest := by
  obtain ⟨whole, behind⟩ := takeWhile_append_of_head visible fun char first shown =>
    isVisible_iff.1 shown (apart char first)
  obtain ⟨first, others, rfl⟩ := List.exists_cons_of_ne_nil filled
  rw [List.cons_append] at whole behind ⊢
  rw [wordsFrom_visible column _ (visible first List.mem_cons_self), whole, behind]

/-- A walk that starts at an enclosed piece finds it. -/
theorem Enclosed.mem_wordsFrom {before piece after : List Char}
    (enclosed : Enclosed before piece after) (column : Nat) :
    ⟨column, piece⟩ ∈ wordsFrom column false (piece ++ after) := by
  rw [wordsFrom_word column enclosed.nonempty enclosed.visible enclosed.blankAfter]
  exact List.mem_cons_self

/-- The words are exactly the longest pieces without blanks. -/
theorem mem_locatedWords_iff {text : List Char} {word : Located (List Char)} :
    word ∈ locatedWords text ↔ IsLongestPiece text word := by
  constructor
  · intro member
    obtain ⟨before, after, same, place, enclosed, _⟩ := foundFrom_of_mem_wordsFrom member
    exact ⟨before, after, same, place.trans (Nat.add_comm 1 _), enclosed⟩
  · obtain ⟨column, piece⟩ := word
    rintro ⟨before, after, rfl, rfl, enclosed⟩
    rcases List.eq_nil_or_concat' before with rfl | ⟨front, char, rfl⟩
    · exact enclosed.mem_wordsFrom 1
    · have blank : isBlank char := enclosed.blankBefore char (by simp)
      have found := enclosed.mem_wordsFrom (1 + front.length + 1)
      have place : 1 + front.length + 1 = (front ++ [char]).length + 1 := by
        rw [List.length_append, List.length_singleton]
        omega
      rw [place] at found
      rw [locatedWords, List.append_assoc, List.append_assoc, List.singleton_append,
        wordsFrom_append_blank 1 false front blank, place]
      exact List.mem_append_right _ found

/-- The words stand one behind the other. -/
theorem pairwise_wordsFrom (column : Nat) (inside : Bool) (text : List Char) :
    (wordsFrom column inside text).Pairwise fun first second => first.column < second.column := by
  induction text generalizing column inside with
  | nil => exact List.Pairwise.nil
  | cons char rest inductionHypothesis =>
      rw [wordsFrom]
      split
      · exact inductionHypothesis (column + 1) false
      · split
        · exact inductionHypothesis (column + 1) true
        · refine List.Pairwise.cons (fun word later => ?_) (inductionHypothesis (column + 1) true)
          obtain ⟨before, _, _, place, _⟩ := foundFrom_of_mem_wordsFrom later
          rw [place]
          exact Nat.lt_add_right _ (Nat.lt_succ_self column)

/-- A character that is no blank belongs to a word. -/
theorem exists_word_of_visible {before after : List Char} {char : Char}
    (visible : isVisible char) :
    ∃ word ∈ locatedWords (before ++ char :: after),
      word.column ≤ before.length + 1 ∧ before.length + 1 < word.column + word.content.length := by
  let front := before.rdropWhile isVisible
  let start := before.rtakeWhile isVisible
  have cut : front ++ start = before := List.rdropWhile_append_rtakeWhile
  have length : front.length + start.length = before.length := by
    rw [← cut, List.length_append]
  refine ⟨⟨front.length + 1, start ++ char :: after.takeWhile isVisible⟩,
    mem_locatedWords_iff.2 ⟨front, after.dropWhile isVisible, ?_, rfl, ?_⟩, ?_, ?_⟩
  · rw [← cut, List.append_assoc, List.append_assoc, List.append_assoc, List.cons_append,
      List.takeWhile_append_dropWhile]
  · refine ⟨by simp, ?_, ?_, blank_of_mem_head?_dropWhile⟩
    · rw [List.forall_mem_append, List.forall_mem_cons]
      exact ⟨fun _ => List.mem_rtakeWhile_imp, visible, fun _ => List.mem_takeWhile_imp⟩
    · intro last same
      obtain ⟨nonempty, rfl⟩ := List.mem_getLast?_eq_getLast same
      simpa [isVisible] using List.rdropWhile_last_not isVisible before nonempty
  · dsimp only
    omega
  · rw [List.length_append, List.length_cons]
    dsimp only
    omega

/-! ### Places of the scan -/

/-- The checks that a span of the text has to pass: both places lie inside of the text, they are
in order, and the cut between them does not divide a character. -/
structure Span.Sound (text : List Char) (span : Span) : Prop where
  startText : span.start.text = text
  startInside : utf8Length span.start.rest ≤ utf8Length text
  stopInside : utf8Length span.stop.rest ≤ utf8Length text
  between : Span.between? span.start span.stop = some span
  slice : span.start.slice? span.stop = some span.lexeme

/-- No more bytes remain than the text has. -/
theorem Place.Passed.rest_le {before : List Char} {place : Place}
    (passed : place.Passed before) : utf8Length place.rest ≤ utf8Length place.text := by
  rw [passed.text, utf8Length_append]
  exact Nat.le_add_left _ _

/-- A span is sound wherever it starts. -/
theorem Place.Passed.sound {before : List Char} {place : Place} (passed : place.Passed before)
    (test : Char → Bool) : (place.spanWhile test).Sound place.text := by
  have reached := passed.skipWhile test
  have stopInside := reached.rest_le
  rw [skipWhile_text] at stopInside
  have forwards : place.offset ≤ (place.skipWhile test).offset := by
    rw [passed.offset, reached.offset, utf8Length_append]
    exact Nat.le_add_right _ _
  refine ⟨rfl, passed.rest_le, stopInside, ?_, ?_⟩
  · exact dif_pos ⟨(place.spanWhile test).sameText, (place.spanWhile test).ordered⟩
  · have cut : place.slice? (place.skipWhile test) = some (place.rest.takeWhile test) := by
      rw [Place.slice?, if_pos ⟨(skipWhile_text test place).symm, forwards⟩,
        passed.sliceBytes?_skipWhile]
    rw [passed.lexeme_spanWhile]
    exact cut

/-- Every word is cut out by sound checks. -/
theorem Place.Passed.sound_words {before : List Char} {place : Place}
    (passed : place.Passed before) : ∀ span ∈ place.words, span.Sound place.text := by
  induction length : place.rest.length using Nat.strong_induction_on generalizing place before with
  | _ length' inductionHypothesis =>
      subst length
      have reached := passed.skipWhile isBlank
      intro span member
      rw [Place.words] at member
      by_cases inside : (place.skipWhile isBlank).rest ≠ []
      · rw [dif_pos inside] at member
        rcases List.mem_cons.1 member with rfl | later
        · have sound := reached.sound isVisible
          rwa [skipWhile_text] at sound
        · have sound := inductionHypothesis _ (place.length_rest_word_lt inside)
            (reached.skipWhile isVisible) rfl span later
          rwa [skipWhile_text, skipWhile_text] at sound
      · rw [dif_neg inside] at member
        cases member

end Text

namespace Token

open Text

/-- Reading walks over any text without leaving it. The words are its longest pieces without a
blank, from left to right, and outside of them there are only blanks. When all words are valid
every word becomes one token, in order, with its column, its text and its kind. Otherwise there is
one fault for every invalid word, in order, and nothing else. -/
theorem readAll_finds_words (text : List Char) :
    (∀ word, word ∈ locatedWords text ↔ IsLongestPiece text word) ∧
    ((locatedWords text).Pairwise fun first second => first.column < second.column) ∧
    (∀ before char after, text = before ++ char :: after → isVisible char →
      ∃ word ∈ locatedWords text, word.column ≤ before.length + 1 ∧
        before.length + 1 < word.column + word.content.length) ∧
    (∀ span ∈ words text, span.Sound text) ∧
    ((∀ word ∈ locatedWords text, (classify? word.content).isSome) →
      ∃ tokens, readAll text = .ok tokens ∧
        List.Forall₂ (fun word token => token.column = word.column ∧ token.lexeme = word.content ∧
          classify? word.content = some token.kind) (locatedWords text) tokens) ∧
    ((∃ word ∈ locatedWords text, classify? word.content = none) →
      readAll text =
        .error (((locatedWords text).filter fun word => (classify? word.content).isNone).map
          invalidWord)) := by
  refine ⟨fun _ => mem_locatedWords_iff, pairwise_wordsFrom 1 false text, ?_,
    (Place.passed_start text).sound_words, fun classified => ?_, ?_⟩
  · rintro before char after rfl visible
    exact exists_word_of_visible visible
  · have valid : ∀ word ∈ wordList text, IsWord word := by
      intro word member
      obtain ⟨located, inside, rfl⟩ := List.mem_map.1 member
      exact classify?_isSome_iff.1 (classified located inside)
    obtain ⟨tokens, read, spans, kinds⟩ := readAll_of_valid valid
    refine ⟨tokens, read, ?_⟩
    rw [← words_located, ← spans, List.map_map, List.forall₂_map_left_iff, List.forall₂_same]
    exact fun token member => ⟨rfl, rfl, kinds token member⟩
  · rintro ⟨word, inside, unclassified⟩
    refine readAll_of_invalid fun valid => ?_
    have classified := classify?_isSome_iff.2 (valid word.content (List.mem_map_of_mem inside))
    rw [unclassified] at classified
    cases classified

/-- A text of valid words, and a text with invalid words of which the first takes two bytes. -/
theorem readAll_finds_words_between_blanks :
    (∃ tokens, readAll "p\t*  2".toList = .ok tokens ∧
      List.Forall₂ (fun (word : Located (List Char)) (token : Token) =>
        token.column = word.column ∧ token.lexeme = word.content ∧
          classify? word.content = some token.kind)
        [⟨1, ['p']⟩, ⟨3, ['*']⟩, ⟨6, ['2']⟩] tokens) ∧
    readAll " é 2 1e ".toList =
      .error [⟨2, .invalidToken "é"⟩, ⟨6, .invalidToken "1e"⟩] := by
  have classified : ∀ word ∈ locatedWords "p\t*  2".toList,
      (classify? word.content).isSome := by decide
  have invalid : ∃ word ∈ locatedWords " é 2 1e ".toList, classify? word.content = none :=
    ⟨⟨2, ['é']⟩, by decide, by decide⟩
  obtain ⟨_, _, _, _, accepted, _⟩ := readAll_finds_words "p\t*  2".toList
  obtain ⟨_, _, _, _, _, refused⟩ := readAll_finds_words " é 2 1e ".toList
  exact ⟨accepted classified, refused invalid⟩

end Token

end PriceFormula
