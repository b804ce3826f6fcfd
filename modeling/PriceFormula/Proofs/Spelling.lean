import PriceFormula.Proofs.Writing

/-!
This file gives the grammar of the words that are tokens, character by character. The main
statement is that the three tests for operators, numbers and identifiers accept exactly the words of
this grammar and never two of them the same word, so that they can be made in any order.
-/

namespace PriceFormula

/-! ### The grammar of numerals -/

/-- The ten digits of ASCII, and no others. -/
def IsDigit (char : Char) : Prop :=
  '0' ≤ char ∧ char ≤ '9'

instance : DecidablePred IsDigit := fun _ => inferInstanceAs (Decidable (_ ∧ _))

/-- The letters of ASCII, and no others. -/
def IsLetter (char : Char) : Prop :=
  ('A' ≤ char ∧ char ≤ 'Z') ∨ ('a' ≤ char ∧ char ≤ 'z')

/-- A character is a digit if it is between zero and nine. -/
theorem isDigit_iff {char : Char} : char.isDigit ↔ IsDigit char := by
  simp [Char.isDigit, IsDigit, Char.le_def]

/-- A character is a letter if it stands in one of the two alphabets of ASCII. -/
theorem isAlpha_iff {char : Char} : char.isAlpha ↔ IsLetter char := by
  simp [Char.isAlpha, Char.isUpper, Char.isLower, IsLetter, Char.le_def]

namespace Number

/-- At most one sign. -/
inductive IsSign : List Char → Prop where
  | none : IsSign []
  | plus : IsSign ['+']
  | minus : IsSign ['-']

/-- Digits with at most one point, which may also stand in front of them or behind them. -/
inductive IsMantissa : List Char → Prop where
  | whole {digits : List Char} (filled : digits ≠ []) (numeric : ∀ char ∈ digits, IsDigit char) :
      IsMantissa digits
  | pointed {whole fraction : List Char} (filled : whole ++ fraction ≠ [])
      (numeric : ∀ char ∈ whole ++ fraction, IsDigit char) : IsMantissa (whole ++ '.' :: fraction)

/-- At most one power of ten, whose digits may not be missing. -/
inductive IsPower : List Char → Prop where
  | none : IsPower []
  | marked {mark : Char} {sign digits : List Char} (marks : mark = 'e' ∨ mark = 'E')
      (signed : IsSign sign) (filled : digits ≠ []) (numeric : ∀ char ∈ digits, IsDigit char) :
      IsPower (mark :: (sign ++ digits))

/-- A numeral with an optional sign in front and an optional power of ten behind. -/
inductive IsNumeral : List Char → Prop where
  | intro {sign mantissa power : List Char} (signed : IsSign sign)
      (mantissaFormed : IsMantissa mantissa) (powerFormed : IsPower power) :
      IsNumeral (sign ++ (mantissa ++ power))

/-- Every word starts with at most one sign that is taken off. -/
theorem exists_sign (word : List Char) :
    ∃ sign, IsSign sign ∧ word = sign ++ (splitSign word).2 := by
  unfold splitSign
  split
  · exact ⟨['-'], .minus, rfl⟩
  · exact ⟨['+'], .plus, rfl⟩
  · exact ⟨[], .none, rfl⟩

/-- A sign is taken off whatever does not start with another sign. -/
theorem splitSign_append {sign rest : List Char} (signed : IsSign sign)
    (apart : ∀ char ∈ rest.head?, char ≠ '-' ∧ char ≠ '+') :
    (splitSign (sign ++ rest)).2 = rest := by
  cases signed with
  | none =>
      cases rest with
      | nil => rfl
      | cons char rest =>
          obtain ⟨notMinus, notPlus⟩ := apart char rfl
          rw [List.nil_append, splitSign_cons rest notMinus notPlus]
  | plus => rfl
  | minus => rfl

theorem all_isDigit_iff {digits : List Char} :
    digits.all Char.isDigit ↔ ∀ char ∈ digits, IsDigit char := by
  simp only [List.all_eq_true, isDigit_iff]

/-- The powers of ten that are read are those of the grammar. -/
theorem isSome_readPower?_iff {word : List Char} : (readPower? word).isSome ↔ IsPower word := by
  constructor
  · intro read
    cases word with
    | nil => exact .none
    | cons mark rest =>
        obtain ⟨sign, signed, same⟩ := exists_sign rest
        simp only [readPower?] at read
        split at read
        · next formed =>
          obtain ⟨marks, filled, numeric⟩ := formed
          rw [same]
          exact .marked marks signed filled (all_isDigit_iff.1 numeric)
        · cases read
  · intro formed
    cases formed with
    | none => rfl
    | marked marks signed filled numeric =>
        have unsigned := splitSign_append signed fun char first => by
          have digit := isDigit_iff.2 (numeric char (List.mem_of_mem_head? first))
          exact not_sign_of_start (by rw [digit, Bool.true_or])
        simp only [readPower?, unsigned, marks, filled, all_isDigit_iff.2 numeric, ne_eq,
          not_false_eq_true, and_self, ↓reduceIte, Option.isSome_some]

/-- A power of ten does not prolong the digits in front of it. -/
theorem head_of_isPower {power : List Char} (formed : IsPower power) :
    ∀ char ∈ power.head?, ¬ char.isDigit ∧ char ≠ '.' := by
  cases formed with
  | none => exact nofun
  | marked marks =>
      rintro _ ⟨⟩
      rcases marks with rfl | rfl <;> decide

/-- There is a fraction behind a point, and nowhere else. -/
theorem splitFraction_cases (word : List Char) :
    (∃ rest, word = '.' :: rest ∧
      splitFraction word = (rest.takeWhile Char.isDigit, rest.dropWhile Char.isDigit)) ∨
    splitFraction word = ([], word) := by
  unfold splitFraction
  split
  · next rest => exact .inl ⟨rest, rfl, rfl⟩
  · exact .inr rfl

theorem isDigit_of_mem_takeWhile {word : List Char} :
    ∀ char ∈ word.takeWhile Char.isDigit, IsDigit char :=
  fun _ member => isDigit_iff.1 (List.mem_takeWhile_imp member)

/-- A numeral is read if it is a mantissa with a power of ten behind it. -/
theorem isSome_readNumeral?_iff {word : List Char} :
    (readNumeral? word).isSome ↔
      ∃ mantissa power, word = mantissa ++ power ∧ IsMantissa mantissa ∧ IsPower power := by
  constructor
  · intro read
    have cut := List.takeWhile_append_dropWhile (p := Char.isDigit) (l := word)
    simp only [readNumeral?] at read
    split at read
    · cases read
    · next filled =>
      rw [Option.isSome_map, isSome_readPower?_iff] at read
      rcases splitFraction_cases (word.dropWhile Char.isDigit) with
        ⟨rest, point, divided⟩ | divided
      · rw [divided] at filled read
        have whole : word = word.takeWhile Char.isDigit ++
            '.' :: rest.takeWhile Char.isDigit ++ rest.dropWhile Char.isDigit := by
          rw [List.append_assoc, List.cons_append, List.takeWhile_append_dropWhile, ← point, cut]
        refine ⟨_, _, whole, .pointed ?_ ?_, read⟩
        · rwa [ne_eq, List.append_eq_nil_iff]
        · exact List.forall_mem_append.2 ⟨isDigit_of_mem_takeWhile, isDigit_of_mem_takeWhile⟩
      · rw [divided] at filled read
        have nonempty : word.takeWhile Char.isDigit ≠ [] := fun empty => filled ⟨empty, rfl⟩
        exact ⟨_, _, cut.symm, .whole nonempty isDigit_of_mem_takeWhile, read⟩
  · rintro ⟨mantissa, power, rfl, formed, behind⟩
    -- The digits of the mantissa end where the power starts, as it starts with no digit.
    have apart := head_of_isPower behind
    cases formed with
    | whole filled numeric =>
        rw [readNumeral?_whole filled (fun char member => isDigit_iff.2 (numeric char member))
          apart, Option.isSome_map, isSome_readPower?_iff]
        exact behind
    | @pointed whole fraction filled numeric =>
        rw [List.forall_mem_append] at numeric
        rw [List.append_assoc, List.cons_append, readNumeral?_pointed _
          (fun char member => isDigit_iff.2 (numeric.1 char member))
          (fun char member => isDigit_iff.2 (numeric.2 char member))
          (fun char first => (apart char first).1), Option.isSome_map, isSome_readPower?_iff]
        · exact behind
        · rwa [← List.append_eq_nil_iff]

end Number

namespace Token

open Number Text

/-- With a sign in front the numerals are those of the grammar. -/
theorem isSome_readNumeral?_splitSign_iff {word : List Char} :
    (readNumeral? (splitSign word).2).isSome ↔ IsNumeral word := by
  constructor
  · intro read
    obtain ⟨mantissa, power, same, formed, behind⟩ := isSome_readNumeral?_iff.1 read
    obtain ⟨sign, signed, whole⟩ := exists_sign word
    rw [whole, same]
    exact .intro signed formed behind
  · intro formed
    cases formed with
    | @intro sign mantissa power signed mantissaFormed powerFormed =>
        have read : (readNumeral? (mantissa ++ power)).isSome :=
          isSome_readNumeral?_iff.2 ⟨mantissa, power, rfl, mantissaFormed, powerFormed⟩
        obtain ⟨numeral, found⟩ := Option.isSome_iff_exists.1 read
        obtain ⟨char, rest, same, start⟩ := exists_start_of_readNumeral? found
        have unsigned : ∀ first ∈ (mantissa ++ power).head?, first ≠ '-' ∧ first ≠ '+' := by
          rw [same]
          rintro _ ⟨⟩
          exact not_sign_of_start start
        rwa [splitSign_append signed unsigned]

/-- The test for numbers accepts exactly the numerals. -/
theorem isSome_readNumber?_iff {word : List Char} :
    (readNumber? word).isSome ↔ IsNumeral word := by
  rw [← isSome_readNumeral?_splitSign_iff]
  simp only [Option.isSome_iff_exists, readNumber?_eq_some_iff]
  constructor
  · rintro ⟨_, numeral, found, _⟩
    exact ⟨numeral, found⟩
  · rintro ⟨numeral, found⟩
    exact ⟨_, numeral, found, rfl⟩

/-! ### The grammar of identifiers -/

/-- ASCII letters, digits and underscores, no digit first. -/
inductive IsName : List Char → Prop where
  | intro {first : Char} {rest : List Char} (starts : IsLetter first ∨ first = '_')
      (continues : ∀ char ∈ rest, IsLetter char ∨ IsDigit char ∨ char = '_') :
      IsName (first :: rest)

/-- The identifiers are the names of the grammar. -/
theorem isIdentifier_iff {word : List Char} : isIdentifier word ↔ IsName word := by
  have starts (char : Char) : startsIdentifier char ↔ IsLetter char ∨ char = '_' := by
    rw [startsIdentifier, Bool.or_eq_true, isAlpha_iff, beq_iff_eq]
  have continues (char : Char) :
      continuesIdentifier char ↔ IsLetter char ∨ IsDigit char ∨ char = '_' := by
    rw [continuesIdentifier, Char.isAlphanum, Bool.or_eq_true, Bool.or_eq_true, isAlpha_iff,
      isDigit_iff, beq_iff_eq, or_assoc]
  cases word with
  | nil =>
      refine iff_of_false Bool.false_ne_true fun name => ?_
      cases name
  | cons first rest =>
      rw [isIdentifier, Bool.and_eq_true, List.all_eq_true, starts]
      simp only [continues]
      constructor
      · rintro ⟨start, others⟩
        exact .intro start others
      · intro name
        cases name with
        | intro start others => exact ⟨start, others⟩

/-! ### The three tests -/

/-- The tests of a word, each with the token that it finds. -/
def tests : List (List Char → Option Kind) :=
  [fun word => (Operator.ofWord? word).map .operator,
    fun word => (readNumber? word).map .number,
    fun word => if isIdentifier word then some (.identifier (String.ofList word)) else none]

/-- Whatever a test finds is spelled by the word. -/
theorem spells_of_mem_tests {test : List Char → Option Kind} (member : test ∈ tests)
    {word : List Char} {kind : Kind} (found : test word = some kind) : Spells word kind := by
  simp only [tests, List.mem_cons, List.not_mem_nil, or_false] at member
  rcases member with rfl | rfl | rfl
  · obtain ⟨operator, read, rfl⟩ := Option.map_eq_some_iff.1 found
    rw [Operator.ofWord?_eq_some_iff.1 read]
    exact .operator operator
  · obtain ⟨value, read, rfl⟩ := Option.map_eq_some_iff.1 found
    exact .number read
  · rw [Option.ite_none_right_eq_some] at found
    obtain ⟨named, same⟩ := found
    cases same
    exact .identifier named

/-- Whatever a word spells is found by a test. -/
theorem exists_test_of_spells {word : List Char} {kind : Kind} (spells : Spells word kind) :
    ∃ test ∈ tests, test word = some kind := by
  simp only [tests, List.exists_mem_cons_iff]
  cases spells with
  | operator operator =>
      left
      rw [Operator.ofWord?_symbol]
      rfl
  | number read =>
      right
      left
      rw [read]
      rfl
  | identifier named =>
      right
      right
      left
      exact if_pos named

/-- Whatever the order of the tests, the first one that accepts a word finds its token. -/
theorem findSome?_tests {order : List (List Char → Option Kind)} (permuted : order.Perm tests)
    (word : List Char) : (order.findSome? fun test => test word) = classify? word := by
  cases found : order.findSome? fun test => test word with
  | some kind =>
      obtain ⟨test, member, accepts⟩ := List.exists_of_findSome?_eq_some found
      exact (classify?_eq_some_iff.2
        (spells_of_mem_tests (permuted.mem_iff.1 member) accepts)).symm
  | none =>
      cases classified : classify? word with
      | none => rfl
      | some kind =>
          obtain ⟨test, member, accepts⟩ :=
            exists_test_of_spells (classify?_eq_some_iff.1 classified)
          rw [List.findSome?_eq_none_iff] at found
          rw [found test (permuted.mem_iff.2 member)] at accepts
          cases accepts

/-- No two tests accept the same word. -/
theorem pairwise_tests (word : List Char) :
    tests.Pairwise fun test other => (test word).isSome → other word = none := by
  have afterSymbol (operator : Operator) (found : Operator.ofWord? word = some operator) :
      readNumber? word = none ∧ isIdentifier word = false := by
    rw [Operator.ofWord?_eq_some_iff.1 found]
    exact ⟨readNumber?_symbol operator, isIdentifier_symbol operator⟩
  have afterNumber (value : Float) (read : readNumber? word = some value) :
      isIdentifier word = false := by
    rw [Bool.eq_false_iff]
    intro named
    rw [readNumber?_of_isIdentifier named] at read
    cases read
  simp only [tests, List.pairwise_cons, List.forall_mem_cons, List.not_mem_nil, false_implies,
    implies_true, List.Pairwise.nil, and_true, Option.isSome_map, Option.map_eq_none_iff,
    ite_eq_right_iff, reduceCtorEq, imp_false, Bool.not_eq_true]
  refine ⟨⟨fun accepted => ?_, fun accepted => ?_⟩, fun accepted => ?_⟩
  · obtain ⟨operator, found⟩ := Option.isSome_iff_exists.1 accepted
    exact (afterSymbol operator found).1
  · obtain ⟨operator, found⟩ := Option.isSome_iff_exists.1 accepted
    exact (afterSymbol operator found).2
  · obtain ⟨value, read⟩ := Option.isSome_iff_exists.1 accepted
    exact afterNumber value read

/-! ### Names of infinity -/

/-- A spelling of infinity or of what is not a number, in any letter case. -/
def IsSpecial (word : List Char) : Prop :=
  word.map Char.toLower ∈
    [['i', 'n', 'f'], ['i', 'n', 'f', 'i', 'n', 'i', 't', 'y'], ['n', 'a', 'n']]

/-- Letters are the only characters with letters as their lower case. -/
theorem isAlpha_of_toLower {char : Char} (letter : char.toLower.isAlpha) : char.isAlpha := by
  unfold Char.toLower at letter
  split at letter
  · next upper =>
    have upper : char.isUpper := decide_eq_true upper
    rw [Char.isAlpha, upper, Bool.true_or]
  · exact letter

/-- The special words are made of letters. -/
theorem IsSpecial.isAlpha {word : List Char} (special : IsSpecial word) :
    word ≠ [] ∧ ∀ char ∈ word, char.isAlpha := by
  have letters : word.map Char.toLower ≠ [] ∧ ∀ char ∈ word.map Char.toLower, char.isAlpha := by
    simp only [IsSpecial, List.mem_cons, List.not_mem_nil, or_false] at special
    rcases special with same | same | same
    all_goals
      rw [same]
      exact ⟨List.cons_ne_nil _ _, List.all_eq_true.1 rfl⟩
  obtain ⟨filled, alpha⟩ := letters
  rw [ne_eq, List.map_eq_nil_iff] at filled
  refine ⟨filled, fun char member => ?_⟩
  exact isAlpha_of_toLower (alpha char.toLower (List.mem_map_of_mem member))

/-- Words of letters are identifiers. -/
theorem isIdentifier_of_isAlpha {word : List Char} (filled : word ≠ [])
    (alpha : ∀ char ∈ word, char.isAlpha) : isIdentifier word := by
  obtain ⟨first, rest, rfl⟩ := List.exists_cons_of_ne_nil filled
  rw [List.forall_mem_cons] at alpha
  rw [isIdentifier_iff]
  exact .intro (.inl (isAlpha_iff.1 alpha.1)) fun char member =>
    .inl (isAlpha_iff.1 (alpha.2 char member))

/-- No sign can stand in front of an identifier. -/
theorem classify?_signed {word : List Char} (named : isIdentifier word) {sign : Char}
    (signs : sign = '+' ∨ sign = '-') : classify? (sign :: word) = none := by
  cases word with
  | nil => cases named
  | cons first rest =>
      have starts : startsIdentifier first := ((Bool.and_eq_true _ _).mp named).1
      obtain ⟨_, _, notPoint, notDigit⟩ := startsIdentifier_not_numeric starts
      have noSymbol : Operator.ofWord? (sign :: first :: rest) = none := by
        rcases signs with rfl | rfl <;> rfl
      have unsigned : (Number.splitSign (sign :: first :: rest)).2 = first :: rest := by
        rcases signs with rfl | rfl <;> rfl
      have noNumber : looksNumeric (sign :: first :: rest) = false := by
        simp [looksNumeric, unsigned, notDigit, notPoint]
      have noIdentifier : isIdentifier (sign :: first :: rest) = false := by
        rcases signs with rfl | rfl <;> rfl
      simp only [classify?, noSymbol, readNumber?, noNumber, noIdentifier, Bool.false_eq_true,
        ↓reduceIte]

/-- The names that prices are read from are the special words. -/
theorem isSome_readName?_iff {negative : Bool} {word : List Char} :
    (Number.readName? negative word).isSome ↔ IsSpecial word := by
  have spelled (name : List Char) :
      String.ofList (word.map Char.toLower) = String.ofList name ↔ word.map Char.toLower = name :=
    String.ofList_inj
  have short := spelled ['i', 'n', 'f']
  have long := spelled ['i', 'n', 'f', 'i', 'n', 'i', 't', 'y']
  have neither := spelled ['n', 'a', 'n']
  simp only [Number.readName?, IsSpecial, List.mem_cons, List.not_mem_nil, or_false]
  rw [← short, ← long, ← neither, ← or_assoc]
  split
  · next infinite => exact iff_of_true rfl (.inl infinite)
  · next finite =>
    split
    · next same => exact iff_of_true rfl (.inr same)
    · next other => exact iff_of_false Bool.false_ne_true (not_or.2 ⟨finite, other⟩)

/-- A sign that is taken off has a special name behind it exactly when the word has. -/
theorem isSpecial_splitSign_iff {word : List Char} :
    IsSpecial (splitSign word).2 ↔
      ∃ sign name, IsSign sign ∧ IsSpecial name ∧ word = sign ++ name := by
  constructor
  · intro special
    obtain ⟨sign, signed, whole⟩ := exists_sign word
    exact ⟨sign, _, signed, special, whole⟩
  · rintro ⟨sign, name, signed, special, rfl⟩
    have unsigned : ∀ char ∈ name.head?, char ≠ '-' ∧ char ≠ '+' := by
      intro char first
      have letter := special.isAlpha.2 char (List.mem_of_mem_head? first)
      have starts : startsIdentifier char := by rw [startsIdentifier, letter, Bool.true_or]
      obtain ⟨notMinus, notPlus, _⟩ := startsIdentifier_not_numeric starts
      exact ⟨notMinus, notPlus⟩
    rwa [splitSign_append signed unsigned]

/-- Without the look at the first character, names of infinity would be read as numbers too. -/
theorem isSome_read?_iff {word : List Char} :
    (Number.read? word).isSome ↔
      IsNumeral word ∨ ∃ sign name, IsSign sign ∧ IsSpecial name ∧ word = sign ++ name := by
  rw [← isSome_readNumeral?_splitSign_iff, ← isSpecial_splitSign_iff]
  simp only [Number.read?]
  cases readNumeral? (splitSign word).2 with
  | some numeral => exact iff_of_true rfl (.inl rfl)
  | none => simp only [isSome_readName?_iff, Option.isSome_none, Bool.false_eq_true, false_or]

/-- There are four words for operators. -/
theorem exists_operator_iff {word : List Char} :
    (∃ operator, classify? word = some (.operator operator)) ↔
      word ∈ [['+'], ['-'], ['*'], ['/']] := by
  simp only [classify?_eq_some_iff, List.mem_cons, List.not_mem_nil, or_false]
  constructor
  · rintro ⟨operator, spells⟩
    cases spells
    cases operator <;> simp [Operator.symbol]
  · rintro (rfl | rfl | rfl | rfl)
    · exact ⟨.add, .operator .add⟩
    · exact ⟨.subtract, .operator .subtract⟩
    · exact ⟨.multiply, .operator .multiply⟩
    · exact ⟨.divide, .operator .divide⟩

/-- The words for numbers are the numerals of the grammar. -/
theorem exists_number_iff {word : List Char} :
    (∃ value, classify? word = some (.number value)) ↔ IsNumeral word := by
  simp only [classify?_eq_some_iff, ← isSome_readNumber?_iff, Option.isSome_iff_exists]
  constructor
  · rintro ⟨value, spells⟩
    cases spells with
    | number read => exact ⟨value, read⟩
  · rintro ⟨value, read⟩
    exact ⟨value, .number read⟩

/-- The words for identifiers are the names of the grammar. -/
theorem exists_identifier_iff {word : List Char} :
    (∃ name, classify? word = some (.identifier name)) ↔ IsName word := by
  simp only [classify?_eq_some_iff, ← isIdentifier_iff]
  constructor
  · rintro ⟨name, spells⟩
    cases spells with
    | identifier named => exact named
  · intro named
    exact ⟨_, .identifier named⟩

/-- A word that is no token is reported where it starts. -/
theorem ofSpan_of_classify?_eq_none {span : Span} (unclassified : classify? span.lexeme = none) :
    ofSpan span = .error ⟨span.column, .invalidToken (String.ofList span.lexeme)⟩ := by
  simp only [ofSpan, unclassified]

/-- The three tests exclude each other, so that any order of them classifies a word alike. They
accept the four symbols, the numerals and the names of the grammar, and every other word is an
invalid token. No number word stands for what is not a number. The names of infinity and of what is
not a number could be read as numbers, but they are identifiers in any letter case, and with a sign
they are invalid. -/
theorem classify?_follows_grammar (word : List Char) :
    (tests.Pairwise fun test other => (test word).isSome → other word = none) ∧
    (∀ order : List (List Char → Option Kind), order.Perm tests →
      (order.findSome? fun test => test word) = classify? word) ∧
    ((∃ operator, classify? word = some (.operator operator)) ↔
      word ∈ [['+'], ['-'], ['*'], ['/']]) ∧
    ((∃ value, classify? word = some (.number value)) ↔ IsNumeral word) ∧
    ((∃ name, classify? word = some (.identifier name)) ↔ IsName word) ∧
    (word ∉ [['+'], ['-'], ['*'], ['/']] → ¬ IsNumeral word → ¬ IsName word →
      ∀ span, span.lexeme = word →
        ofSpan span = .error ⟨span.column, .invalidToken (String.ofList word)⟩) ∧
    (∀ value, classify? word = some (.number value) → value.isNaN = false) ∧
    ((Number.read? word).isSome ↔
      IsNumeral word ∨ ∃ sign name, IsSign sign ∧ IsSpecial name ∧ word = sign ++ name) ∧
    (IsSpecial word → classify? word = some (.identifier (String.ofList word)) ∧
      classify? ('+' :: word) = none ∧ classify? ('-' :: word) = none) := by
  refine ⟨pairwise_tests word, fun order permuted => findSome?_tests permuted word,
    exists_operator_iff, exists_number_iff, exists_identifier_iff, ?_, ?_, isSome_read?_iff, ?_⟩
  · rintro noSymbol noNumeral noName span rfl
    apply ofSpan_of_classify?_eq_none
    cases classified : classify? span.lexeme with
    | none => rfl
    | some kind =>
        cases kind with
        | operator operator => exact absurd (exists_operator_iff.1 ⟨_, classified⟩) noSymbol
        | number value => exact absurd (exists_number_iff.1 ⟨_, classified⟩) noNumeral
        | identifier name => exact absurd (exists_identifier_iff.1 ⟨_, classified⟩) noName
  · intro value classified
    cases classify?_eq_some_iff.1 classified with
    | number read => exact isNaN_of_readNumber? read
  · intro special
    have named := isIdentifier_of_isAlpha special.isAlpha.1 special.isAlpha.2
    exact ⟨classify?_of_isIdentifier named, classify?_signed named (.inl rfl),
      classify?_signed named (.inr rfl)⟩

/-- A numeral with all its parts, a name of infinity, and a power of ten without digits. -/
theorem classify?_at_edges_of_grammar :
    (IsNumeral ['+', '.', '5', 'E', '-', '3'] ∧
      ∃ value, classify? ['+', '.', '5', 'E', '-', '3'] = some (.number value)) ∧
    (IsSpecial ['i', 'N', 'f'] ∧ classify? ['i', 'N', 'f'] = some (.identifier "iNf") ∧
      classify? ['-', 'i', 'N', 'f'] = none) ∧
    (['1', 'e'] ∉ [['+'], ['-'], ['*'], ['/']] ∧ ¬ IsNumeral ['1', 'e'] ∧ ¬ IsName ['1', 'e'] ∧
      ofSpan ((Place.start ['1', 'e']).spanWhile isVisible) =
        .error ⟨1, .invalidToken "1e"⟩) := by
  have numeral : IsNumeral ['+', '.', '5', 'E', '-', '3'] := by
    have mantissa : IsMantissa ([] ++ '.' :: ['5']) :=
      .pointed (by decide) (List.forall_mem_singleton.2 (by decide))
    have power : IsPower ('E' :: (['-'] ++ ['3'])) :=
      .marked (.inr rfl) .minus (by decide) (List.forall_mem_singleton.2 (by decide))
    exact .intro .plus mantissa power
  have special : IsSpecial ['i', 'N', 'f'] := List.mem_cons_self
  have unclassified : classify? ['1', 'e'] = none := rfl
  obtain ⟨_, _, _, numbers, _⟩ := classify?_follows_grammar ['+', '.', '5', 'E', '-', '3']
  obtain ⟨_, _, _, _, _, _, _, _, named⟩ := classify?_follows_grammar ['i', 'N', 'f']
  obtain ⟨_, _, _, numerals, names, invalid, _⟩ := classify?_follows_grammar ['1', 'e']
  obtain ⟨identifier, _, signed⟩ := named special
  simp only [unclassified, reduceCtorEq, exists_false, false_iff] at numerals names
  exact ⟨⟨numeral, numbers.2 numeral⟩, ⟨special, identifier, signed⟩, by decide, numerals, names,
    invalid (by decide) numerals names _ rfl⟩

end Token

end PriceFormula
