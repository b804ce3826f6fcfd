import PriceFormula.Proofs.Words

/-!
This file follows places through any moves. A place that was walked to is known by its text and its
column. The main statement is that equality, columns, remaining bytes, slices and spans all tell
such places apart in the same way.
-/

namespace PriceFormula.Text

/-- What can be done at a place. A copy is at the same place and moves on its own. -/
inductive Move where
  | next
  | skipWhile (test : Char → Bool)
  | copy

namespace Place

/-- The place where a move ends. -/
def move (place : Place) : Move → Place
  | .next => place.next.2
  | .skipWhile test => place.skipWhile test
  | .copy => place

/-- The place where the last of the moves ends. -/
def walk (place : Place) (moves : List Move) : Place :=
  moves.foldl move place

/-- No move leaves the text. -/
theorem move_text (place : Place) (move : Move) : (place.move move).text = place.text := by
  cases move with
  | next =>
      simp only [Place.move, next]
      split <;> rfl
  | skipWhile test => exact skipWhile_text test place
  | copy => rfl

theorem walk_text (place : Place) (moves : List Move) : (place.walk moves).text = place.text := by
  induction moves generalizing place with
  | nil => rfl
  | cons move moves inductionHypothesis =>
      exact (inductionHypothesis (place.move move)).trans (place.move_text move)

/-- At the end of the text a step goes nowhere. -/
theorem next_of_nil {place : Place} (done : place.rest = []) : place.next = (none, place) := by
  simp only [next, done]

/-- A step goes over one character and one column. -/
theorem next_of_cons {place : Place} {char : Char} {rest : List Char}
    (found : place.rest = char :: rest) :
    place.next = (some char, ⟨place.text, rest, place.column + 1⟩) := by
  simp only [next, found]

/-- A step passes at most one character. -/
theorem Passed.next {before : List Char} {place : Place} (passed : place.Passed before) :
    place.next.2.Passed (before ++ place.rest.take 1) := by
  cases found : place.rest with
  | nil =>
      rw [next_of_nil found, List.take_nil, List.append_nil]
      exact passed
  | cons char rest =>
      rw [next_of_cons found, List.take_succ_cons, List.take_zero]
      refine ⟨?_, ?_⟩
      · rw [passed.text, found, List.append_assoc]
        rfl
      · rw [List.length_append, passed.column]
        rfl

/-- A move never goes back. -/
theorem Passed.move {before : List Char} {place : Place} (passed : place.Passed before)
    (move : Move) : ∃ piece, (place.move move).Passed (before ++ piece) := by
  cases move with
  | next => exact ⟨_, passed.next⟩
  | skipWhile test => exact ⟨_, passed.skipWhile test⟩
  | copy => exact ⟨[], by rwa [List.append_nil]⟩

theorem Passed.walk {before : List Char} {place : Place} (passed : place.Passed before)
    (moves : List Move) : ∃ piece, (place.walk moves).Passed (before ++ piece) := by
  induction moves generalizing before place with
  | nil => exact ⟨[], by rwa [List.append_nil]⟩
  | cons move moves inductionHypothesis =>
      obtain ⟨first, moved⟩ := passed.move move
      obtain ⟨others, walked⟩ := inductionHypothesis moved
      exact ⟨first ++ others, by rwa [← List.append_assoc]⟩

/-- Wherever a walk leads, it has passed the characters before that place. -/
theorem exists_passed_walk (text : List Char) (moves : List Move) :
    ∃ before, ((start text).walk moves).Passed before :=
  (passed_start text).walk moves

/-! ### Two places of one text -/

/-- Exactly this piece of the text stands between two places. -/
structure Apart (first second : Place) (piece : List Char) : Prop where
  text : first.text = second.text
  rest : first.rest = piece ++ second.rest
  column : second.column = first.column + piece.length

/-- Of two places, the piece that only the second has passed lies between them. -/
theorem Passed.apart {before piece : List Char} {first second : Place}
    (passed : first.Passed before) (alsoPassed : second.Passed (before ++ piece))
    (text : first.text = second.text) : first.Apart second piece := by
  refine ⟨text, ?_, ?_⟩
  · rw [passed.text, alsoPassed.text, List.append_assoc] at text
    exact List.append_cancel_left text
  · rw [alsoPassed.column, passed.column, List.length_append]
    omega

/-- Of two places of one text, one is not behind the other. -/
theorem Passed.apart_or_apart {before otherBefore : List Char} {first second : Place}
    (passed : first.Passed before) (alsoPassed : second.Passed otherBefore)
    (text : first.text = second.text) :
    (∃ piece, first.Apart second piece) ∨ ∃ piece, second.Apart first piece := by
  have same : before ++ first.rest = otherBefore ++ second.rest := by
    rw [← passed.text, ← alsoPassed.text, text]
  rcases List.append_eq_append_iff.1 same with ⟨piece, rfl, _⟩ | ⟨piece, rfl, _⟩
  · exact .inl ⟨piece, passed.apart alsoPassed text⟩
  · exact .inr ⟨piece, alsoPassed.apart passed text.symm⟩

/-- Only the empty piece takes no bytes. -/
theorem utf8Length_eq_zero_iff {piece : List Char} : utf8Length piece = 0 ↔ piece = [] := by
  cases piece with
  | nil => simp
  | cons char rest =>
      have positive := char.utf8Size_pos
      simp only [utf8Length_cons, List.cons_ne_nil, iff_false]
      omega

namespace Apart

variable {before piece : List Char} {first second : Place}

/-- The bytes between two places are missing behind the second. -/
theorem length_rest (apart : first.Apart second piece) :
    utf8Length first.rest = utf8Length piece + utf8Length second.rest := by
  rw [apart.rest, utf8Length_append]

/-- Behind the piece, it is passed as well. -/
theorem passed (apart : first.Apart second piece) (passed : first.Passed before) :
    second.Passed (before ++ piece) := by
  refine ⟨?_, ?_⟩
  · rw [← apart.text, passed.text, apart.rest, List.append_assoc]
  · rw [apart.column, passed.column, List.length_append]
    omega

/-- The piece shifts the offset by its bytes. -/
theorem offset (apart : first.Apart second piece) (passed : first.Passed before) :
    second.offset = first.offset + utf8Length piece := by
  rw [(apart.passed passed).offset, passed.offset, utf8Length_append]

/-- The characters between two places are those of the text between their columns. -/
theorem piece_eq (apart : first.Apart second piece) (passed : first.Passed before) :
    piece = (first.text.drop (first.column - 1)).take (second.column - first.column) := by
  rw [passed.text, apart.column, passed.column, Nat.add_sub_cancel, Nat.add_sub_cancel_left,
    List.drop_left, apart.rest, List.take_left]

/-- The bytes between the offsets are those of the piece. -/
theorem sliceBytes?_eq (apart : first.Apart second piece) (passed : first.Passed before) :
    sliceBytes? first.offset second.offset first.text = some piece := by
  have text : first.text = before ++ piece ++ second.rest := by
    rw [passed.text, apart.rest, List.append_assoc]
  rw [passed.offset, (apart.passed passed).offset, text, sliceBytes?_piece]

/-- The text between two places is the piece. -/
theorem slice?_eq (apart : first.Apart second piece) (passed : first.Passed before) :
    first.slice? second = some piece := by
  have forwards : first.offset ≤ second.offset := by
    rw [apart.offset passed]
    exact Nat.le_add_right _ _
  rw [slice?, if_pos ⟨apart.text, forwards⟩, apart.sliceBytes?_eq passed]

/-- The span between two places holds the piece, and it starts where the first place is. -/
theorem between?_eq (apart : first.Apart second piece) (passed : first.Passed before) :
    ∃ span, Span.between? first second = some span ∧ span.lexeme = piece ∧
      span.column = first.column := by
  have ordered : utf8Length second.rest ≤ utf8Length first.rest := by
    rw [apart.length_rest]
    exact Nat.le_add_left _ _
  refine ⟨⟨first, second, apart.text, ordered⟩, dif_pos ⟨apart.text, ordered⟩, ?_, rfl⟩
  rw [Span.lexeme, apart.sliceBytes?_eq passed]
  rfl

end Apart

section Order

variable {before otherBefore : List Char} {first second : Place}

/-- A place that is not behind another one is apart from it by a piece. -/
theorem Passed.exists_apart (passed : first.Passed before) (alsoPassed : second.Passed otherBefore)
    (text : first.text = second.text)
    (notBehind : ∀ piece, second.Apart first piece → piece = []) :
    ∃ piece, first.Apart second piece := by
  rcases passed.apart_or_apart alsoPassed text with forward | ⟨piece, backward⟩
  · exact forward
  · obtain rfl := notBehind piece backward
    exact ⟨[], text, backward.rest.symm, backward.column.symm⟩

/-- A piece lies between two places exactly if their columns are in order. -/
theorem Passed.exists_apart_iff_column (passed : first.Passed before)
    (alsoPassed : second.Passed otherBefore) (text : first.text = second.text) :
    (∃ piece, first.Apart second piece) ↔ first.column ≤ second.column := by
  constructor
  · rintro ⟨piece, apart⟩
    rw [apart.column]
    exact Nat.le_add_right _ _
  · intro ordered
    refine passed.exists_apart alsoPassed text fun piece backward => ?_
    have column := backward.column
    exact List.length_eq_zero_iff.1 (by omega)

/-- A piece lies between two places exactly if no more bytes remain behind the second than behind the
first. -/
theorem Passed.exists_apart_iff_rest (passed : first.Passed before)
    (alsoPassed : second.Passed otherBefore) (text : first.text = second.text) :
    (∃ piece, first.Apart second piece) ↔ utf8Length second.rest ≤ utf8Length first.rest := by
  constructor
  · rintro ⟨piece, apart⟩
    rw [apart.length_rest]
    exact Nat.le_add_left _ _
  · intro ordered
    refine passed.exists_apart alsoPassed text fun piece backward => ?_
    have remaining := backward.length_rest
    exact utf8Length_eq_zero_iff.1 (by omega)

/-- A piece lies between two places exactly if their offsets are in order. -/
theorem Passed.exists_apart_iff_offset (passed : first.Passed before)
    (alsoPassed : second.Passed otherBefore) (text : first.text = second.text) :
    (∃ piece, first.Apart second piece) ↔ first.offset ≤ second.offset := by
  constructor
  · rintro ⟨piece, apart⟩
    rw [apart.offset passed]
    exact Nat.le_add_right _ _
  · intro ordered
    refine passed.exists_apart alsoPassed text fun piece backward => ?_
    have offset := backward.offset alsoPassed
    exact utf8Length_eq_zero_iff.1 (by omega)

/-- Columns order the places of one text as the bytes that remain do. -/
theorem Passed.column_le_iff (passed : first.Passed before) (alsoPassed : second.Passed otherBefore)
    (text : first.text = second.text) :
    first.column ≤ second.column ↔ utf8Length second.rest ≤ utf8Length first.rest := by
  rw [← passed.exists_apart_iff_column alsoPassed text,
    passed.exists_apart_iff_rest alsoPassed text]

/-- The column tells what remains of a text. -/
theorem Passed.rest_eq_iff (passed : first.Passed before) (alsoPassed : second.Passed otherBefore)
    (text : first.text = second.text) :
    first.rest = second.rest ↔ first.column = second.column := by
  constructor
  · intro same
    apply Nat.le_antisymm
    · rw [passed.column_le_iff alsoPassed text, same]
    · rw [alsoPassed.column_le_iff passed text.symm, same]
  · intro same
    obtain ⟨piece, apart⟩ := (passed.exists_apart_iff_column alsoPassed text).2 same.le
    have column := apart.column
    obtain rfl : piece = [] := List.length_eq_zero_iff.1 (by omega)
    exact apart.rest

/-- There is a slice exactly if both places are in one text and in order. -/
theorem Passed.isSome_slice?_iff (passed : first.Passed before)
    (alsoPassed : second.Passed otherBefore) :
    (first.slice? second).isSome ↔ first.text = second.text ∧ first.column ≤ second.column := by
  constructor
  · intro cut
    rw [slice?] at cut
    split at cut
    · next inside =>
      rw [← passed.exists_apart_iff_column alsoPassed inside.1,
        passed.exists_apart_iff_offset alsoPassed inside.1]
      exact inside
    · cases cut
  · rintro ⟨text, ordered⟩
    obtain ⟨piece, apart⟩ := (passed.exists_apart_iff_column alsoPassed text).2 ordered
    rw [apart.slice?_eq passed]
    rfl

/-- There is a span exactly if both places are in one text and in order. -/
theorem Passed.isSome_between?_iff (passed : first.Passed before)
    (alsoPassed : second.Passed otherBefore) :
    (Span.between? first second).isSome ↔
      first.text = second.text ∧ first.column ≤ second.column := by
  constructor
  · intro marked
    rw [Span.between?] at marked
    split at marked
    · next inside =>
      rw [passed.column_le_iff alsoPassed inside.1]
      exact inside
    · cases marked
  · rintro ⟨text, ordered⟩
    obtain ⟨piece, apart⟩ := (passed.exists_apart_iff_column alsoPassed text).2 ordered
    obtain ⟨span, marked, _⟩ := apart.between?_eq passed
    rw [marked]
    rfl

end Order

/-- Places that were walked to are the same when their texts and columns are. On one text, columns
order them as the bytes that remain do. There is a slice between two places, and a span, exactly
when the second place is not before the first place of the same text. Both are the characters of
the text between the two columns, and the span is at the first column. -/
theorem positions_agree (text other : List Char) (moves otherMoves : List Move) :
    let first := (start text).walk moves
    let second := (start other).walk otherMoves
    (first.same second ↔ text = other ∧ first.column = second.column) ∧
    (text = other →
      (first.column < second.column ↔ utf8Length second.rest < utf8Length first.rest)) ∧
    ((first.slice? second).isSome ↔ text = other ∧ first.column ≤ second.column) ∧
    ((Span.between? first second).isSome ↔ text = other ∧ first.column ≤ second.column) ∧
    (text = other ∧ first.column ≤ second.column →
      ∃ span, Span.between? first second = some span ∧
        first.slice? second = some span.lexeme ∧
        span.lexeme = (text.drop (first.column - 1)).take (second.column - first.column) ∧
        span.column = first.column) := by
  intro first second
  obtain ⟨before, passed⟩ := exists_passed_walk text moves
  obtain ⟨otherBefore, alsoPassed⟩ := exists_passed_walk other otherMoves
  change first.Passed before at passed
  change second.Passed otherBefore at alsoPassed
  have firstText : first.text = text := walk_text _ moves
  have secondText : second.text = other := walk_text _ otherMoves
  rw [← firstText, ← secondText]
  refine ⟨?_, fun same => ?_, passed.isSome_slice?_iff alsoPassed,
    passed.isSome_between?_iff alsoPassed, ?_⟩
  · rw [Place.same, Bool.and_eq_true, beq_iff_eq, beq_iff_eq]
    exact and_congr_right fun same => passed.rest_eq_iff alsoPassed same
  · have order := alsoPassed.column_le_iff passed same.symm
    omega
  · rintro ⟨same, ordered⟩
    obtain ⟨piece, apart⟩ := (passed.exists_apart_iff_column alsoPassed same).2 ordered
    obtain ⟨span, marked, rfl, column⟩ := apart.between?_eq passed
    exact ⟨span, marked, apart.slice?_eq passed, apart.piece_eq passed, column⟩

/-- A piece behind a character of two bytes, and no piece backwards. -/
theorem positions_agree_behind_wide_character :
    let first := (start "é * 2".toList).walk [.next]
    let second := (start "é * 2".toList).walk [.copy, .skipWhile (· != '2'), .next, .next]
    first.column < second.column ∧ utf8Length second.rest < utf8Length first.rest ∧
      first.slice? second = some [' ', '*', ' ', '2'] ∧ (second.slice? first).isSome = false := by
  intro first second
  obtain ⟨_, order, _, _, forward⟩ := positions_agree "é * 2".toList "é * 2".toList [.next]
    [.copy, .skipWhile (· != '2'), .next, .next]
  obtain ⟨_, _, backward, _⟩ := positions_agree "é * 2".toList "é * 2".toList
    [.copy, .skipWhile (· != '2'), .next, .next] [.next]
  have columns : first.column = 2 ∧ second.column = 6 := by decide
  have ordered : first.column < second.column := by omega
  refine ⟨ordered, (order rfl).1 ordered, ?_, ?_⟩
  · obtain ⟨span, _, slice, piece, _⟩ := forward ⟨rfl, ordered.le⟩
    rw [slice, piece]
    decide
  · rw [Bool.eq_false_iff, ne_eq, backward]
    exact fun behind => absurd behind.2 (Nat.not_le_of_lt ordered)

end Place

end PriceFormula.Text
