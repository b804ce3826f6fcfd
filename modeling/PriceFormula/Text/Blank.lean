/-!
This file says which characters separate the words of a text, and removes them from its ends.
-/

namespace PriceFormula.Text

/-- A blank is a character with the Unicode property `White_Space`. -/
def isBlank (char : Char) : Bool :=
  let point := char.toNat
  (9 ≤ point && point ≤ 13) || point == 0x20 || point == 0x85 || point == 0xA0 ||
    point == 0x1680 || (0x2000 ≤ point && point ≤ 0x200A) || point == 0x2028 ||
    point == 0x2029 || point == 0x202F || point == 0x205F || point == 0x3000

def isVisible (char : Char) : Bool :=
  !isBlank char

/-- The blanks at both ends are removed, those inside are kept. -/
def trim (text : List Char) : List Char :=
  ((text.dropWhile isBlank).reverse.dropWhile isBlank).reverse

end PriceFormula.Text
