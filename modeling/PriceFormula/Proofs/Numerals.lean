import PriceFormula.Number.Shortest
import PriceFormula.Proofs.Doubles
import PriceFormula.Proofs.Tokens

/-!
This file says which words are numbers and that every number has one. A number word is a numeral
with an optional sign; it has no blanks, and it never stands for what is not a number.
-/

namespace PriceFormula

/-- No blank is a printable character of ASCII. -/
theorem Text.isVisible_of_printable {char : Char} (low : 33 ≤ char.toNat)
    (high : char.toNat ≤ 126) : isVisible char := by
  simp only [isVisible, isBlank, Bool.not_eq_true', Bool.or_eq_false_iff, Bool.and_eq_false_iff,
    decide_eq_false_iff_not, beq_eq_false_iff_ne]
  omega

namespace Number

/-- The characters that numerals and their signs are written with. -/
def isNumeric (char : Char) : Bool :=
  char.isDigit || char == '.' || char == 'e' || char == 'E' || char == '+' || char == '-'

theorem isNumeric_of_isDigit {char : Char} (digit : char.isDigit) : isNumeric char := by
  simp [isNumeric, digit]

/-- The digits stand side by side. -/
theorem toNat_of_isDigit {char : Char} (digit : char.isDigit) :
    48 ≤ char.toNat ∧ char.toNat ≤ 57 := by
  simp only [Char.isDigit, Bool.and_eq_true, decide_eq_true_eq] at digit
  exact digit

/-- No digit is a blank. -/
theorem isVisible_of_isDigit {char : Char} (digit : char.isDigit) : Text.isVisible char := by
  have bounds := toNat_of_isDigit digit
  exact Text.isVisible_of_printable (by omega) (by omega)

theorem isVisible_of_isNumeric {char : Char} (numeric : isNumeric char) :
    Text.isVisible char := by
  simp only [isNumeric, Bool.or_eq_true, beq_iff_eq] at numeric
  rcases numeric with ((((digit | rfl) | rfl) | rfl) | rfl) | rfl
  · exact isVisible_of_isDigit digit
  all_goals decide

/-! ### Characters of number words -/

/-- A sign in front is numeric as well. -/
theorem isNumeric_of_splitSign {word : List Char}
    (numeric : ∀ char ∈ (splitSign word).2, isNumeric char) : ∀ char ∈ word, isNumeric char := by
  unfold splitSign at numeric
  split at numeric
  · exact List.forall_mem_cons.2 ⟨by decide, numeric⟩
  · exact List.forall_mem_cons.2 ⟨by decide, numeric⟩
  · exact numeric

theorem isNumeric_of_readPower? {word : List Char} {power : Int}
    (read : readPower? word = some power) : ∀ char ∈ word, isNumeric char := by
  cases word with
  | nil => exact List.forall_mem_nil _
  | cons mark rest =>
      simp only [readPower?, Option.ite_none_right_eq_some] at read
      obtain ⟨⟨marked, _, digits⟩, _⟩ := read
      refine List.forall_mem_cons.2 ⟨?_, isNumeric_of_splitSign fun char member => ?_⟩
      · rcases marked with rfl | rfl <;> decide
      · exact isNumeric_of_isDigit (List.all_eq_true.1 digits char member)

theorem isNumeric_of_takeWhile {word : List Char}
    (numeric : ∀ char ∈ word.dropWhile Char.isDigit, isNumeric char) :
    ∀ char ∈ word, isNumeric char := by
  intro char member
  rw [← List.takeWhile_append_dropWhile (p := Char.isDigit) (l := word)] at member
  rcases List.mem_append.1 member with digit | rest
  · exact isNumeric_of_isDigit (List.mem_takeWhile_imp digit)
  · exact numeric char rest

theorem isNumeric_of_splitFraction {word : List Char}
    (numeric : ∀ char ∈ (splitFraction word).2, isNumeric char) :
    ∀ char ∈ word, isNumeric char := by
  unfold splitFraction at numeric
  split at numeric
  · exact List.forall_mem_cons.2 ⟨by decide, isNumeric_of_takeWhile numeric⟩
  · exact numeric

/-- A numeral is made of numeric characters. -/
theorem isNumeric_of_readNumeral? {word : List Char} {numeral : Numeral}
    (read : readNumeral? word = some numeral) : ∀ char ∈ word, isNumeric char := by
  simp only [readNumeral?, Option.ite_none_left_eq_some, Option.map_eq_some_iff] at read
  obtain ⟨_, power, behind, _⟩ := read
  exact isNumeric_of_takeWhile (isNumeric_of_splitFraction (isNumeric_of_readPower? behind))

/-! ### Numerals by their parts -/

/-- Without a point the digits are the whole part, and a power of ten may follow. -/
theorem readNumeral?_whole {digits rest : List Char} (filled : digits ≠ [])
    (numeric : ∀ char ∈ digits, char.isDigit)
    (apart : ∀ char ∈ rest.head?, ¬ char.isDigit ∧ char ≠ '.') :
    readNumeral? (digits ++ rest) =
      (readPower? rest).map fun power => ⟨digits, [], power⟩ := by
  obtain ⟨whole, behind⟩ := Text.takeWhile_append_of_head numeric fun char first =>
    (apart char first).1
  have noFraction : splitFraction rest = ([], rest) := by
    unfold splitFraction
    split
    · exact absurd rfl (apart '.' rfl).2
    · rfl
  simp only [readNumeral?, whole, behind, noFraction, filled, false_and, ↓reduceIte]

/-- The point divides the digits, of which one side may be missing. -/
theorem readNumeral?_pointed {whole fraction rest : List Char}
    (filled : ¬ (whole = [] ∧ fraction = [])) (numeric : ∀ char ∈ whole, char.isDigit)
    (alsoNumeric : ∀ char ∈ fraction, char.isDigit) (apart : ∀ char ∈ rest.head?, ¬ char.isDigit) :
    readNumeral? (whole ++ '.' :: (fraction ++ rest)) =
      (readPower? rest).map fun power => ⟨whole, fraction, power⟩ := by
  have point : ∀ char ∈ ('.' :: (fraction ++ rest)).head?, ¬ char.isDigit := by
    rintro _ ⟨⟩
    decide
  obtain ⟨before, behind⟩ := Text.takeWhile_append_of_head numeric point
  obtain ⟨digits, power⟩ := Text.takeWhile_append_of_head alsoNumeric apart
  have divided : splitFraction ('.' :: (fraction ++ rest)) = (fraction, rest) := by
    rw [splitFraction, digits, power]
  simp only [readNumeral?, before, behind, divided, filled, ↓reduceIte]

/-! ### Words that are read as numbers -/

/-- A numeral starts with a digit, or with its point. -/
theorem exists_start_of_readNumeral? {word : List Char} {numeral : Numeral}
    (read : readNumeral? word = some numeral) :
    ∃ char rest, word = char :: rest ∧ (char.isDigit || char == '.') := by
  cases word with
  | nil => cases read
  | cons char rest =>
      refine ⟨char, rest, rfl, ?_⟩
      by_contra other
      rw [Bool.or_eq_true, not_or, beq_iff_eq] at other
      have noWhole : (char :: rest).takeWhile Char.isDigit = [] :=
        List.takeWhile_cons_of_neg other.1
      have whole : (char :: rest).dropWhile Char.isDigit = char :: rest :=
        List.dropWhile_cons_of_neg other.1
      have noFraction : splitFraction (char :: rest) = ([], char :: rest) := by
        unfold splitFraction
        split
        · next same => exact absurd (List.cons.inj same).1 other.2
        · rfl
      simp [readNumeral?, noWhole, whole, noFraction] at read

/-- A numeral without a sign starts with none. -/
theorem not_sign_of_start {char : Char} (start : char.isDigit || char == '.') :
    char ≠ '-' ∧ char ≠ '+' := by
  have differs (sign : Char) (never : ¬ (sign.isDigit || sign == '.')) : char ≠ sign := by
    intro same
    exact never (same ▸ start)
  exact ⟨differs '-' (by decide), differs '+' (by decide)⟩

/-- A minus in front of a numeral is its sign, and there is no sign in the numeral itself. -/
theorem splitSign_of_readNumeral? (negative : Bool) {word : List Char} {numeral : Numeral}
    (read : readNumeral? word = some numeral) :
    splitSign ((if negative then ['-'] else []) ++ word) = (negative, word) := by
  obtain ⟨char, rest, rfl, start⟩ := exists_start_of_readNumeral? read
  obtain ⟨notMinus, notPlus⟩ := not_sign_of_start start
  cases negative with
  | true => rfl
  | false => exact splitSign_cons rest notMinus notPlus

/-- No name of infinity starts like a numeral. -/
theorem readName?_of_start (negative : Bool) {char : Char} (rest : List Char)
    (start : char.isDigit || char == '.') : readName? negative (char :: rest) = none := by
  have bounds : 46 ≤ char.toNat ∧ char.toNat ≤ 57 := by
    rw [Bool.or_eq_true, beq_iff_eq] at start
    rcases start with digit | rfl
    · have bounds := toNat_of_isDigit digit
      omega
    · decide
  have lower : char.toLower = char := by
    unfold Char.toLower
    rw [dif_neg]
    rintro ⟨upper, _⟩
    have upper : 65 ≤ char.toNat := upper
    omega
  have differs (other : Char) (others : List Char) (letter : 57 < other.toNat) :
      String.ofList ((char :: rest).map Char.toLower) ≠ String.ofList (other :: others) := by
    intro same
    rw [List.map_cons, lower] at same
    have first := (List.cons.inj (String.ofList_injective same)).1
    rw [← first] at letter
    omega
  have noShort := differs 'i' ['n', 'f'] (by decide)
  have noLong := differs 'i' ['n', 'f', 'i', 'n', 'i', 't', 'y'] (by decide)
  have noNan := differs 'n' ['a', 'n'] (by decide)
  simp only [readName?]
  rw [if_neg (not_or.2 ⟨noShort, noLong⟩), if_neg noNan]

/-- Rounding never passes infinity. -/
theorem nearestRank_le (numerator denominator : Nat) :
    nearestRank numerator denominator ≤ infiniteRank :=
  Nat.min_le_right _ _

/-- No decimal is rounded beyond infinity. -/
theorem Decimal.nearestRank_le (decimal : Decimal) : decimal.nearestRank ≤ infiniteRank := by
  unfold nearestRank
  split <;> exact Number.nearestRank_le _ _

theorem Numeral.rank_le (numeral : Numeral) : numeral.rank ≤ infiniteRank := by
  simp only [rank]
  split_ifs
  · exact Nat.zero_le _
  · exact Nat.le_refl _
  · exact numeral.toDecimal.nearestRank_le

end Number

namespace Token

open Number

/-- Number words are the numerals with an optional sign. -/
theorem readNumber?_eq_some_iff {word : List Char} {value : Float} :
    readNumber? word = some value ↔
      ∃ numeral, readNumeral? (splitSign word).2 = some numeral ∧
        ofRank (splitSign word).1 numeral.rank = value := by
  constructor
  · intro read
    simp only [readNumber?, Option.ite_none_right_eq_some, Number.read?] at read
    obtain ⟨numeric, read⟩ := read
    cases found : readNumeral? (splitSign word).2 with
    | some numeral =>
        simp only [found, Option.some.injEq] at read
        exact ⟨numeral, rfl, read⟩
    | none =>
        rw [looksNumeric] at numeric
        cases magnitude : (splitSign word).2 with
        | nil => simp [magnitude] at numeric
        | cons char rest =>
            simp only [magnitude] at numeric found read
            simp only [found, readName?_of_start _ rest numeric] at read
            cases read
  · rintro ⟨numeral, found, same⟩
    obtain ⟨char, rest, magnitude, start⟩ := exists_start_of_readNumeral? found
    have numeric : looksNumeric word := by simpa [looksNumeric, magnitude] using start
    rw [readNumber?, if_pos numeric, Number.read?]
    simp only [found, same]

/-- Whatever is read as a number is made of numeric characters. -/
theorem isNumeric_of_readNumber? {word : List Char} {value : Float}
    (read : readNumber? word = some value) : ∀ char ∈ word, isNumeric char := by
  obtain ⟨numeral, found, _⟩ := readNumber?_eq_some_iff.1 read
  exact isNumeric_of_splitSign (isNumeric_of_readNumeral? found)

theorem isVisible_of_readNumber? {word : List Char} {value : Float}
    (read : readNumber? word = some value) : ∀ char ∈ word, Text.isVisible char :=
  fun char member => isVisible_of_isNumeric (isNumeric_of_readNumber? read char member)

/-- What is read as a number is never the double that is none. -/
theorem isNaN_of_readNumber? {word : List Char} {value : Float}
    (read : readNumber? word = some value) : value.isNaN = false := by
  obtain ⟨numeral, _, same⟩ := readNumber?_eq_some_iff.1 read
  rw [← same]
  exact isNaN_ofRank _ numeral.rank_le

end Token

/-! ### A word for every number -/

namespace Number

/-- All digits of a magnitude. The zeros in front keep a numeral with these digits clear of the
values that are settled by their size. -/
def exactDigits (rank : Nat) : List Char :=
  List.replicate 744 '0' ++ Nat.toDigits 10 (Shortest.exact rank).coefficient

/-- A word for a number that gives its magnitude with all digits. -/
def exactWord (value : Float) : List Char :=
  (if isNegative value then ['-'] else []) ++
    (exactDigits (rank value) ++ ['e', '-', '1', '0', '7', '4'])

/-- Padding with zeros adds digits only. -/
theorem isDigit_of_mem_padded {zeros number : Nat} {char : Char}
    (member : char ∈ List.replicate zeros '0' ++ Nat.toDigits 10 number) : char.isDigit := by
  rcases List.mem_append.1 member with zero | digit
  · rw [List.eq_of_mem_replicate zero]
    decide
  · exact Nat.isDigit_of_mem_toDigits (by decide) (by decide) digit

/-- Enough digits keep a numeral clear of the values that are settled by their size. -/
theorem Numeral.rank_of_digits {digits : List Char} (many : 744 ≤ digits.length) :
    rank ⟨digits, [], -1074⟩ =
      if Nat.ofDigitChars 10 digits 0 = 0 then 0
      else Decimal.nearestRank ⟨Nat.ofDigitChars 10 digits 0, -1074⟩ := by
  have decimal : toDecimal ⟨digits, [], -1074⟩ = ⟨Nat.ofDigitChars 10 digits 0, -1074⟩ := by
    simp [toDecimal, Numeral.digits]
  have length : (Numeral.digits ⟨digits, [], -1074⟩).length = digits.length := by
    simp [Numeral.digits]
  have large : ¬ (-1074 : Int) + digits.length < -330 := by omega
  have small : ¬ (310 : Int) < -1074 := by decide
  simp only [rank, decimal, length, large, small, or_false, ↓reduceIte]

/-- Zeros in front do not count. -/
theorem ofDigitChars_padded (zeros number : Nat) :
    Nat.ofDigitChars 10 (List.replicate zeros '0' ++ Nat.toDigits 10 number) 0 = number := by
  rw [Nat.ofDigitChars_append, Nat.ofDigitChars_replicate_zero, Nat.mul_zero,
    Nat.ofDigitChars_ten_toDigits]

/-- Only the least rank has no magnitude. -/
theorem eq_zero_of_units_mul {rank power : Nat} (zero : units rank * Nat.pow 5 power = 0) :
    rank = 0 := by
  have positive : Nat.pow 5 power ≠ 0 := Nat.ne_of_gt (Nat.pow_pos (by decide))
  have none : units rank = 0 := (Nat.mul_eq_zero.1 zero).resolve_right positive
  rw [← rankBelow_units rank, none]
  rfl

/-- All digits of a magnitude are read back to its rank. -/
theorem rank_exactDigits {rank : Nat} (finite : rank ≤ infiniteRank) :
    Numeral.rank ⟨exactDigits rank, [], -1074⟩ = rank := by
  have many : 744 ≤ (exactDigits rank).length := by
    rw [exactDigits, List.length_append, List.length_replicate]
    exact Nat.le_add_right _ _
  have coefficient : Nat.ofDigitChars 10 (exactDigits rank) 0 =
      (Shortest.exact rank).coefficient := ofDigitChars_padded 744 _
  rw [Numeral.rank_of_digits many, coefficient]
  split
  · next zero => exact (eq_zero_of_units_mul zero).symm
  · exact Shortest.nearestRank_exact finite

/-- Every number is read from a word of its own. -/
theorem readNumber?_exactWord {value : Float} (number : value.isNaN = false) :
    Token.readNumber? (exactWord value) = some value := by
  have read : readNumeral? (exactDigits (rank value) ++ ['e', '-', '1', '0', '7', '4']) =
      some ⟨exactDigits (rank value), [], -1074⟩ := by
    have filled : exactDigits (rank value) ≠ [] :=
      List.append_ne_nil_of_right_ne_nil _ Nat.toDigits_ne_nil
    have power : readPower? ['e', '-', '1', '0', '7', '4'] = some (-1074) := by decide
    have apart : ∀ char ∈ ['e', '-', '1', '0', '7', '4'].head?, ¬ char.isDigit ∧ char ≠ '.' := by
      rintro _ ⟨⟩
      decide
    rw [readNumeral?_whole filled (fun _ => isDigit_of_mem_padded) apart, power, Option.map_some]
  have signed : splitSign (exactWord value) =
      (isNegative value, exactDigits (rank value) ++ ['e', '-', '1', '0', '7', '4']) :=
    splitSign_of_readNumeral? (isNegative value) read
  refine Token.readNumber?_eq_some_iff.2 ⟨⟨exactDigits (rank value), [], -1074⟩, ?_, ?_⟩
  · rw [signed, read]
  · rw [signed, rank_exactDigits (isNaN_eq_false_iff.1 number), ofRank_rank]

end Number

end PriceFormula
