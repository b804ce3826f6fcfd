import PriceFormula.Text.Blank
import PriceFormula.Text.Place

/-!
This file marks pieces of a text by the places where they start and stop, and finds the
words of a text: its longest pieces without a blank.
-/

namespace PriceFormula.Text

/-- A piece of a text; at its start at least as much remains as at its stop. -/
structure Span where
  start : Place
  stop : Place
  sameText : start.text = stop.text
  ordered : utf8Length stop.rest ≤ utf8Length start.rest

namespace Span

def between? (start stop : Place) : Option Span :=
  if inside : start.text = stop.text ∧ utf8Length stop.rest ≤ utf8Length start.rest then
    some ⟨start, stop, inside.1, inside.2⟩
  else none

/-- The text of the span; there is always one when both places were walked to. -/
def lexeme (span : Span) : List Char :=
  (sliceBytes? span.start.offset span.stop.offset span.start.text).getD []

def column (span : Span) : Nat :=
  span.start.column

end Span

namespace Place

/-- The span from a place over all characters that pass the test. -/
def spanWhile (test : Char → Bool) (place : Place) : Span where
  start := place
  stop := place.skipWhile test
  sameText := (place.skipWhile_text test).symm
  ordered := by
    rw [skipWhile_rest]
    exact utf8Length_dropWhile_le test place.rest

/-- The text behind the first word is shorter than the text before it. -/
theorem length_rest_word_lt (place : Place) (inside : (place.skipWhile isBlank).rest ≠ []) :
    ((place.skipWhile isBlank).skipWhile isVisible).rest.length < place.rest.length := by
  simp only [skipWhile_rest] at inside ⊢
  cases found : place.rest.dropWhile isBlank with
  | nil => exact absurd found inside
  | cons char rest =>
      have visible : isVisible char = true := by
        have head := List.head?_dropWhile_not isBlank place.rest
        rw [found] at head
        simpa [isVisible] using head
      have shorter : (place.rest.dropWhile isBlank).length ≤ place.rest.length :=
        (List.dropWhile_sublist isBlank).length_le
      rw [found, List.length_cons] at shorter
      have tail : (rest.dropWhile isVisible).length ≤ rest.length :=
        (List.dropWhile_sublist isVisible).length_le
      rw [List.dropWhile_cons_of_pos visible]
      omega

/-- The words from a place on, from left to right. -/
def words (place : Place) : List Span :=
  let first := place.skipWhile isBlank
  if inside : first.rest ≠ [] then
    let word := first.spanWhile isVisible
    have _shorter := place.length_rest_word_lt inside
    word :: words word.stop
  else []
termination_by place.rest.length

end Place

/-- The words of a whole text. -/
def words (text : List Char) : List Span :=
  (Place.start text).words

end PriceFormula.Text
