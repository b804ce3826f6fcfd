import PriceFormula.Number.Decimal

/-!
This file reads doubles from words. A word is a decimal with an optional sign, point and
power of ten, or a name of infinity or of what is not a number in any letter case.
-/

namespace PriceFormula.Number

/-- A decimal as it is written: digits on both sides of the point and a power of ten. -/
structure Numeral where
  whole : List Char
  fraction : List Char
  power : Int

namespace Numeral

def digits (numeral : Numeral) : List Char :=
  numeral.whole ++ numeral.fraction

def toDecimal (numeral : Numeral) : Decimal :=
  ⟨Nat.ofDigitChars 10 numeral.digits 0, numeral.power - numeral.fraction.length⟩

/-- The rank nearest to the numeral. Values beyond all doubles are settled by their size. -/
def rank (numeral : Numeral) : Nat :=
  let decimal := numeral.toDecimal
  if decimal.coefficient = 0 ∨ decimal.exponent + numeral.digits.length < -330 then 0
  else if 310 < decimal.exponent then infiniteRank
  else decimal.nearestRank

end Numeral

/-- One leading sign is taken off; the flag says whether it was a minus. -/
def splitSign : List Char → Bool × List Char
  | '-' :: rest => (true, rest)
  | '+' :: rest => (false, rest)
  | word => (false, word)

/-- The power of ten at the end of a numeral; nothing at all means zero. -/
def readPower? : List Char → Option Int
  | [] => some 0
  | mark :: rest =>
    let (negative, digits) := splitSign rest
    if (mark = 'e' ∨ mark = 'E') ∧ digits ≠ [] ∧ digits.all Char.isDigit then
      let power : Int := Nat.ofDigitChars 10 digits 0
      some (if negative then -power else power)
    else none

/-- The digits behind a point, if there is one, and what follows them. -/
def splitFraction : List Char → List Char × List Char
  | '.' :: rest => (rest.takeWhile Char.isDigit, rest.dropWhile Char.isDigit)
  | word => ([], word)

/-- Reads an unsigned numeral, which has a digit before or behind its point. -/
def readNumeral? (word : List Char) : Option Numeral :=
  let whole := word.takeWhile Char.isDigit
  let (fraction, rest) := splitFraction (word.dropWhile Char.isDigit)
  if whole = [] ∧ fraction = [] then none
  else (readPower? rest).map fun power => ⟨whole, fraction, power⟩

/-- Reads a name of infinity or of what is not a number. -/
def readName? (negative : Bool) (word : List Char) : Option Float :=
  let name := String.ofList (word.map Char.toLower)
  if name = "inf" ∨ name = "infinity" then some (ofRank negative infiniteRank)
  else if name = "nan" then some notANumber
  else none

/-- Reads a whole word as the nearest double. -/
def read? (word : List Char) : Option Float :=
  let (negative, magnitude) := splitSign word
  match readNumeral? magnitude with
  | some numeral => some (ofRank negative numeral.rank)
  | none => readName? negative magnitude

end PriceFormula.Number
