/-!
This file measures texts in bytes of their UTF-8 form and cuts them at byte offsets.
A cut inside a character fails.
-/

namespace PriceFormula.Text

/-- The number of bytes that the UTF-8 form of a text takes. -/
def utf8Length : List Char → Nat
  | [] => 0
  | char :: rest => char.utf8Size + utf8Length rest

/-- The text after its first `count` bytes, which must end between two characters. -/
def dropBytes? : Nat → List Char → Option (List Char)
  | 0, text => some text
  | _ + 1, [] => none
  | count + 1, char :: rest =>
    if char.utf8Size ≤ count + 1 then dropBytes? (count + 1 - char.utf8Size) rest else none

/-- The first `count` bytes of a text, which must end between two characters. -/
def takeBytes? : Nat → List Char → Option (List Char)
  | 0, _ => some []
  | _ + 1, [] => none
  | count + 1, char :: rest =>
    if char.utf8Size ≤ count + 1 then
      (takeBytes? (count + 1 - char.utf8Size) rest).map (char :: ·)
    else none

/-- The bytes of a text from one offset up to a later one. -/
def sliceBytes? (start stop : Nat) (text : List Char) : Option (List Char) :=
  (dropBytes? start text).bind (takeBytes? (stop - start))

@[simp] theorem utf8Length_nil : utf8Length [] = 0 := rfl

@[simp] theorem utf8Length_cons (char : Char) (rest : List Char) :
    utf8Length (char :: rest) = char.utf8Size + utf8Length rest := rfl

theorem utf8Length_dropWhile_le (test : Char → Bool) (text : List Char) :
    utf8Length (text.dropWhile test) ≤ utf8Length text := by
  induction text with
  | nil => exact Nat.le_refl _
  | cons char rest inductionHypothesis =>
      by_cases passes : test char
      · simp [passes]
        omega
      · simp [passes]

end PriceFormula.Text
