import PriceFormula.Text.Bytes

/-!
This file walks a text from left to right. A place knows the whole text, what remains of it,
and its column; columns count characters and start at one.
-/

namespace PriceFormula.Text

/-- The column just past the last character, where something missing would have to stand. -/
def endColumn (text : List Char) : Nat :=
  text.length + 1

structure Place where
  text : List Char
  rest : List Char
  column : Nat

namespace Place

def start (text : List Char) : Place :=
  ⟨text, text, 1⟩

/-- The number of bytes before the place. -/
def offset (place : Place) : Nat :=
  utf8Length place.text - utf8Length place.rest

/-- The next character, which is not taken. -/
def peek (place : Place) : Option Char :=
  place.rest.head?

def atEnd (place : Place) : Bool :=
  place.rest.isEmpty

/-- The character at the place and the place behind it; at the end the place stays. -/
def next (place : Place) : Option Char × Place :=
  match place.rest with
  | [] => (none, place)
  | char :: rest => (some char, ⟨place.text, rest, place.column + 1⟩)

/-- Walks over characters as long as they pass the test. -/
def skipFrom (test : Char → Bool) (text : List Char) : List Char → Nat → Place
  | [], column => ⟨text, [], column⟩
  | char :: rest, column =>
    if test char then skipFrom test text rest (column + 1) else ⟨text, char :: rest, column⟩

def skipWhile (test : Char → Bool) (place : Place) : Place :=
  skipFrom test place.text place.rest place.column

/-- Two places are the same when the same text remains of the same text. -/
def same (left right : Place) : Bool :=
  left.text == right.text && left.rest == right.rest

/-- The text from one place to a later one of the same text, cut at their byte offsets. -/
def slice? (start stop : Place) : Option (List Char) :=
  if start.text = stop.text ∧ start.offset ≤ stop.offset then
    sliceBytes? start.offset stop.offset start.text
  else none

/-- Skipping stays in the text. -/
theorem skipFrom_text (test : Char → Bool) (text rest : List Char) (column : Nat) :
    (skipFrom test text rest column).text = text := by
  induction rest generalizing column with
  | nil => rfl
  | cons char rest inductionHypothesis =>
      unfold skipFrom
      split
      · exact inductionHypothesis (column + 1)
      · rfl

/-- What remains begins with the first character that fails the test. -/
theorem skipFrom_rest (test : Char → Bool) (text rest : List Char) (column : Nat) :
    (skipFrom test text rest column).rest = rest.dropWhile test := by
  induction rest generalizing column with
  | nil => rfl
  | cons char rest inductionHypothesis =>
      unfold skipFrom
      by_cases passes : test char
      · simp [passes, inductionHypothesis]
      · simp [passes]

@[simp] theorem skipWhile_text (test : Char → Bool) (place : Place) :
    (place.skipWhile test).text = place.text :=
  skipFrom_text test place.text place.rest place.column

@[simp] theorem skipWhile_rest (test : Char → Bool) (place : Place) :
    (place.skipWhile test).rest = place.rest.dropWhile test :=
  skipFrom_rest test place.text place.rest place.column

end PriceFormula.Text.Place
