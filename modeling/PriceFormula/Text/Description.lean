import PriceFormula.Text.Place

/-!
This file describes places for people: by the column alone, or over several lines with the
text in quotes. The text is expected in ASCII.
-/

namespace PriceFormula.Text

/-- A character as it stands between quotes; control characters are written by their code. -/
def escape (char : Char) : List Char :=
  if char = '"' ∨ char = '\\' then ['\\', char]
  else if char = '\t' then ['\\', 't']
  else if char = '\n' then ['\\', 'n']
  else if char = '\r' then ['\\', 'r']
  else if char = '\x00' then ['\\', '0']
  else if char.toNat < 0x20 ∨ char.toNat = 0x7F then
    ['\\', 'u', '\x7b'] ++ Nat.toDigits 16 char.toNat ++ ['\x7d']
  else [char]

def quoted (text : List Char) : String :=
  "\"" ++ String.ofList (text.flatMap escape) ++ "\""

namespace Place

def summary (place : Place) : String :=
  "Cursor \x7b col: Col(" ++ toString place.column ++ ") \x7d"

def details (place : Place) : String :=
  "Cursor \x7b\n    col: Col(\n        " ++ toString place.column ++ ",\n    ),\n    source: " ++
    quoted place.text ++ ",\n\x7d"

end Place

end PriceFormula.Text
