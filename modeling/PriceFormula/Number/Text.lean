import PriceFormula.Number.Shortest

/-!
This file writes doubles. Finite numbers are written by their shortest decimal, and the
sign of zero is kept.
-/

namespace PriceFormula.Number

def magnitudeText (rank : Nat) : List Char :=
  if rank = infiniteRank then ['i', 'n', 'f'] else (shortest rank).text

/-- The text of a double; what is not a number has no sign. -/
def text (value : Float) : String :=
  if infiniteRank < rank value then "NaN"
  else
    String.ofList ((if isNegative value then ['-'] else []) ++ magnitudeText (rank value))

end PriceFormula.Number
