import PriceFormula.Number.Text
import PriceFormula.Proofs.Numerals

/-!
This file reads the texts of doubles. The main statement is that the text of a finite double is a
number word that is read as the same double again.
-/

namespace PriceFormula.Number

namespace Decimal

/-- A decimal is written with numeric characters only. -/
theorem isNumeric_of_mem_text (decimal : Decimal) :
    ∀ char ∈ decimal.text, isNumeric char := by
  intro char member
  obtain ⟨coefficient, exponent⟩ := decimal
  cases exponent with
  | ofNat power =>
      exact isNumeric_of_isDigit (Nat.isDigit_of_mem_toDigits (by decide) (by decide) member)
  | negSucc power =>
      simp only [text, List.mem_append, List.mem_cons] at member
      rcases member with whole | rfl | fraction
      · exact isNumeric_of_isDigit (isDigit_of_mem_padded (List.mem_of_mem_take whole))
      · decide
      · exact isNumeric_of_isDigit (isDigit_of_mem_padded (List.mem_of_mem_drop fraction))

/-- The rank nearest to nothing is the least one. -/
theorem nearestRank_zero (exponent : Int) : nearestRank ⟨0, exponent⟩ = 0 := by
  have least {denominator : Nat} (positive : 0 < denominator) :
      Number.nearestRank 0 denominator = 0 := by
    have exact := nearestRank_units (Nat.zero_le infiniteRank) positive
    rwa [units_of_lt (by decide), Nat.zero_mul] at exact
  cases exponent with
  | ofNat power =>
      rw [nearestRank_ofNat, Nat.zero_mul, Nat.zero_mul]
      exact least Nat.one_pos
  | negSucc power =>
      rw [nearestRank_negSucc, Nat.zero_mul]
      exact least (Nat.pow_pos (by decide))

end Decimal

/-- Without a power of ten a numeral is never settled by its size. -/
theorem Numeral.rank_of_digits_alone (whole fraction : List Char) :
    rank ⟨whole, fraction, 0⟩ = (toDecimal ⟨whole, fraction, 0⟩).nearestRank := by
  have small : ¬ 310 < (toDecimal ⟨whole, fraction, 0⟩).exponent := by
    simp only [toDecimal]
    omega
  have large : ¬ (toDecimal ⟨whole, fraction, 0⟩).exponent +
      (digits ⟨whole, fraction, 0⟩).length < -330 := by
    simp only [toDecimal, digits, List.length_append]
    omega
  simp only [rank, small, large, or_false, ↓reduceIte]
  split
  · next zero =>
    have value : toDecimal ⟨whole, fraction, 0⟩ =
        ⟨0, (toDecimal ⟨whole, fraction, 0⟩).exponent⟩ := by
      rw [← zero]
    rw [value, Decimal.nearestRank_zero]
  · rfl

/-- Digits with a point in front of the last places are read with these places. -/
theorem Decimal.readNumeral?_places {digits : List Char} (places : Nat)
    (numeric : ∀ char ∈ digits, char.isDigit) (enough : places + 1 < digits.length) :
    let whole := digits.length - (places + 1)
    ∃ numeral, readNumeral? (digits.take whole ++ '.' :: digits.drop whole) = some numeral ∧
      numeral.rank = nearestRank ⟨Nat.ofDigitChars 10 digits 0, .negSucc places⟩ := by
  intro whole
  have length : (digits.drop whole).length = places + 1 := by
    rw [List.length_drop]
    omega
  have filled : ¬ (digits.take whole = [] ∧ digits.drop whole = []) := by
    rintro ⟨_, none⟩
    rw [none] at length
    cases length
  have apart : ∀ char ∈ ([] : List Char).head?, ¬ char.isDigit := nofun
  have read := readNumeral?_pointed filled
    (fun char member => numeric char (List.mem_of_mem_take member))
    (fun char member => numeric char (List.mem_of_mem_drop member)) apart
  rw [List.append_nil] at read
  refine ⟨_, read, ?_⟩
  have value : Numeral.toDecimal ⟨digits.take whole, digits.drop whole, 0⟩ =
      ⟨Nat.ofDigitChars 10 digits 0, .negSucc places⟩ := by
    rw [Numeral.toDecimal, Numeral.digits, List.take_append_drop, length, Int.negSucc_eq]
    simp
  rw [Numeral.rank_of_digits_alone, value]

/-- A decimal that is written with all its places is read with its own nearest rank. -/
theorem Decimal.readNumeral?_text (decimal : Decimal) :
    ∃ numeral, readNumeral? decimal.text = some numeral ∧ numeral.rank = decimal.nearestRank := by
  obtain ⟨coefficient, exponent⟩ := decimal
  cases exponent with
  | ofNat power =>
      let digits := Nat.toDigits 10 (coefficient * Nat.pow 10 power)
      have numeric : ∀ char ∈ digits, char.isDigit :=
        fun _ => Nat.isDigit_of_mem_toDigits (by decide) (by decide)
      have apart : ∀ char ∈ ([] : List Char).head?, ¬ char.isDigit ∧ char ≠ '.' := nofun
      have read := readNumeral?_whole Nat.toDigits_ne_nil numeric apart
      rw [List.append_nil] at read
      refine ⟨⟨digits, [], 0⟩, read, ?_⟩
      have value : Numeral.toDecimal ⟨digits, [], 0⟩ =
          ⟨coefficient * Nat.pow 10 power, .ofNat 0⟩ := by
        simp [Numeral.toDecimal, Numeral.digits, digits]
      rw [Numeral.rank_of_digits_alone, value, nearestRank_ofNat, nearestRank_ofNat]
      simp only [Nat.pow_eq, Nat.pow_zero, Nat.mul_one]
  | negSucc power =>
      let digits := Nat.toDigits 10 coefficient
      let padded := List.replicate (power + 2 - digits.length) '0' ++ digits
      have enough : power + 1 < padded.length := by
        simp only [padded, List.length_append, List.length_replicate]
        omega
      obtain ⟨numeral, read, nearest⟩ :=
        readNumeral?_places power (fun _ => isDigit_of_mem_padded) enough
      rw [ofDigitChars_padded] at nearest
      exact ⟨numeral, read, nearest⟩

/-! ### Texts of doubles -/

/-- A finite double is written as a sign and its shortest decimal. -/
theorem toList_text {value : Float} (finite : value.isFinite) :
    (text value).toList =
      (if isNegative value then ['-'] else []) ++ (shortest (rank value)).text := by
  have below := isFinite_iff.1 finite
  rw [text, if_neg (Nat.lt_asymm below), String.toList_ofList, magnitudeText,
    if_neg (Nat.ne_of_lt below)]

/-- The text of a finite double is read as the same double again. -/
theorem readNumber?_text {value : Float} (finite : value.isFinite) :
    Token.readNumber? (text value).toList = some value := by
  have below := isFinite_iff.1 finite
  obtain ⟨numeral, read, nearest⟩ := (shortest (rank value)).readNumeral?_text
  have signed : splitSign (text value).toList =
      (isNegative value, (shortest (rank value)).text) := by
    rw [toList_text finite]
    exact splitSign_of_readNumeral? (isNegative value) read
  refine Token.readNumber?_eq_some_iff.2 ⟨numeral, ?_, ?_⟩
  · rw [signed, read]
  · rw [signed, nearest, nearestRank_shortest below.le, ofRank_rank]

/-- The text of a double is a single word. -/
theorem isVisible_of_mem_text (value : Float) :
    ∀ char ∈ (text value).toList, Text.isVisible char := by
  unfold text
  split
  · exact List.all_eq_true.1 (by decide)
  · rw [String.toList_ofList, List.forall_mem_append]
    constructor
    · split
      · exact List.all_eq_true.1 (by decide)
      · exact List.forall_mem_nil _
    · unfold magnitudeText
      split
      · exact List.all_eq_true.1 (by decide)
      · exact fun char member =>
          isVisible_of_isNumeric ((shortest _).isNumeric_of_mem_text char member)

end PriceFormula.Number
