import PriceFormula.Proofs.Unbound
import PriceFormula.Proofs.Writing
import PriceFormula.Quote

/-!
This file classifies the totals of quotes with an adjustment. The prices are numbers, so a
calculation stops at a division by zero or at a name that is no price. The main statement locates
both in the words of the adjustment: the calculation goes through them from left to right.
-/

namespace PriceFormula

open Text

namespace Formula

variable (policy : Policy) (bindings : Bindings)

/-! ### Divisions by zero -/

/-- The calculation of a formula comes to a division by zero. These tokens stand in front of the
division, and all that is calculated before it has a value. -/
inductive DividesByZero : Formula → List Token.Kind → Formula → Formula → Prop where
  | here {dividend divisor : Formula} {value zero : Float}
      (dividendValue : dividend.evaluate policy bindings = .ok value)
      (divisorValue : divisor.evaluate policy bindings = .ok zero) (isZero : (zero == 0) = true) :
      DividesByZero (.binary .divide dividend divisor) [] dividend divisor
  | left {operator : Operator} {left right dividend divisor : Formula} {before : List Token.Kind}
      (inside : DividesByZero left before dividend divisor) :
      DividesByZero (.binary operator left right) before dividend divisor
  | right {operator : Operator} {left right dividend divisor : Formula} {before : List Token.Kind}
      {value : Float} (leftValue : left.evaluate policy bindings = .ok value)
      (inside : DividesByZero right before dividend divisor) :
      DividesByZero (.binary operator left right) (left.symbols ++ .operator operator :: before)
        dividend divisor

variable {policy bindings}

/-- Whatever stands behind the division, it is the failure of the formula. -/
theorem DividesByZero.evaluate {formula dividend divisor : Formula} {before : List Token.Kind}
    (divides : DividesByZero policy bindings formula before dividend divisor) :
    formula.evaluate policy bindings = .error .divisionByZero := by
  induction divides with
  | here dividendValue divisorValue isZero =>
      rw [evaluate_binary, dividendValue, divisorValue]
      exact if_pos isZero
  | left _ inductionHypothesis =>
      rw [evaluate_binary, inductionHypothesis]
      rfl
  | right leftValue _ inductionHypothesis =>
      rw [evaluate_binary, leftValue, inductionHypothesis]
      rfl

/-- What starts the right operand stands in the whole behind the left one. -/
theorem isPrefix_of_right (left : Formula) (operator : Operator)
    {before part whole : List Token.Kind} (inside : before ++ part <+: whole) :
    (left.symbols ++ .operator operator :: before) ++ part <+:
      left.symbols ++ .operator operator :: whole := by
  rw [List.append_assoc, List.cons_append]
  exact (List.prefix_append_right_inj _).2 (List.cons_prefix_cons.2 ⟨rfl, inside⟩)

/-- The division stands in the formula behind the tokens in front of it. -/
theorem DividesByZero.isPrefix {formula dividend divisor : Formula} {before : List Token.Kind}
    (divides : DividesByZero policy bindings formula before dividend divisor) :
    before ++ (binary .divide dividend divisor).symbols <+: formula.symbols := by
  induction divides with
  | here => exact List.prefix_refl _
  | left _ inductionHypothesis => exact inductionHypothesis.trans (List.prefix_append _ _)
  | right _ _ inductionHypothesis => exact isPrefix_of_right _ _ inductionHypothesis

/-- An operation on values has a value, or it is a division by zero. -/
theorem evaluate_binary_of_values (operator : Operator) {left right : Formula}
    {leftValue rightValue : Float} (leftOk : left.evaluate policy bindings = .ok leftValue)
    (rightOk : right.evaluate policy bindings = .ok rightValue) :
    (∃ value, (binary operator left right).evaluate policy bindings = .ok value) ∨
      DividesByZero policy bindings (.binary operator left right) [] left right := by
  rw [evaluate_binary, leftOk, rightOk]
  cases operator with
  | add | subtract | multiply => exact .inl ⟨_, rfl⟩
  | divide =>
      by_cases isZero : (rightValue == 0) = true
      · exact .inr (.here leftOk rightOk isZero)
      · exact .inl ⟨_, if_neg isZero⟩

/-- When all names have values, only a division by zero stops the calculation. -/
theorem evaluate_of_valued {formula : Formula}
    (valued : ∀ name, .identifier name ∈ formula.symbols →
      ∃ value, (named name).evaluate policy bindings = .ok value) :
    (∃ value, formula.evaluate policy bindings = .ok value) ∨
      ∃ before dividend divisor, DividesByZero policy bindings formula before dividend divisor := by
  induction formula with
  | literal value => exact .inl ⟨value, evaluate_literal policy bindings value⟩
  | named name => exact .inl (valued name (List.mem_singleton_self _))
  | binary operator left right leftHypothesis rightHypothesis =>
      have valuedLeft := leftHypothesis fun name member =>
        valued name (List.mem_append_left _ member)
      have valuedRight := rightHypothesis fun name member =>
        valued name (List.mem_append_right _ (List.mem_cons_of_mem _ member))
      rcases valuedLeft with ⟨leftValue, leftOk⟩ | ⟨_, _, _, inLeft⟩
      · rcases valuedRight with ⟨rightValue, rightOk⟩ | ⟨_, _, _, inRight⟩
        · exact (evaluate_binary_of_values operator leftOk rightOk).imp_right
            fun divides => ⟨_, _, _, divides⟩
        · exact .inr ⟨_, _, _, .right leftOk inRight⟩
      · exact .inr ⟨_, _, _, .left inLeft⟩

/-- A name in an operation stands in one of the operands. -/
theorem split_binary_symbols {operator : Operator} {left right : Formula}
    {front back : List Token.Kind} {name : String}
    (split : (binary operator left right).symbols = front ++ .identifier name :: back) :
    (∃ rest, left.symbols = front ++ .identifier name :: rest) ∨
      ∃ past, front = left.symbols ++ .operator operator :: past ∧
        right.symbols = past ++ .identifier name :: back := by
  rcases List.append_eq_append_iff.1 split with ⟨past, inFront, behind⟩ | ⟨rest, inLeft, behind⟩
  · cases past with
    | nil => cases behind
    | cons first past =>
        obtain ⟨rfl, same⟩ := List.cons.inj behind
        exact .inr ⟨past, inFront, same⟩
  · cases rest with
    | nil => cases behind
    | cons first rest =>
        obtain ⟨rfl, _⟩ := List.cons.inj behind
        exact .inl ⟨rest, inLeft⟩

/-- The first name without a value stops the calculation, unless a division by zero in front of it
does. -/
theorem evaluate_of_first_failure {formula : Formula} {front back : List Token.Kind}
    {name : String} {failure : Failure}
    (split : formula.symbols = front ++ .identifier name :: back)
    (valued : ∀ earlier, .identifier earlier ∈ front →
      ∃ value, (named earlier).evaluate policy bindings = .ok value)
    (failed : (named name).evaluate policy bindings = .error failure) :
    formula.evaluate policy bindings = .error failure ∨
      ∃ before dividend divisor, DividesByZero policy bindings formula before dividend divisor ∧
        before ++ (binary .divide dividend divisor).symbols <+: front := by
  induction formula generalizing front back with
  | literal value =>
      rcases List.singleton_eq_append_iff.1 split with ⟨_, same⟩ | ⟨_, none⟩
      · cases same
      · cases none
  | named other =>
      rcases List.singleton_eq_append_iff.1 split with ⟨_, same⟩ | ⟨_, none⟩
      · cases same
        exact .inl failed
      · cases none
  | binary operator left right leftHypothesis rightHypothesis =>
      -- The name stands in the left operand, or behind all of it. In the second case all names of
      -- the left operand have values, so only a division by zero in it could come first.
      rcases split_binary_symbols split with ⟨rest, inLeft⟩ | ⟨past, rfl, inRight⟩
      · rcases leftHypothesis inLeft valued with stopped | ⟨_, _, _, divides, inFront⟩
        · left
          rw [evaluate_binary, stopped]
          rfl
        · exact .inr ⟨_, _, _, .left divides, inFront⟩
      · have valuedLeft := evaluate_of_valued fun earlier member =>
          valued earlier (List.mem_append_left _ member)
        rcases valuedLeft with ⟨leftValue, leftOk⟩ | ⟨_, _, _, divides⟩
        · have valuedPast := fun earlier member =>
            valued earlier (List.mem_append_right _ (List.mem_cons_of_mem _ member))
          rcases rightHypothesis inRight valuedPast with stopped | ⟨_, _, _, divides, inPast⟩
          · left
            rw [evaluate_binary, leftOk, stopped]
            rfl
          · exact .inr ⟨_, _, _, .right leftOk divides, isPrefix_of_right _ _ inPast⟩
        · exact .inr ⟨_, _, _, .left divides, divides.isPrefix.trans (List.prefix_append _ _)⟩

end Formula

namespace Token

/-! ### Words and their tokens -/

/-- Every token is spelled by one of the words. -/
theorem exists_word_of_mem {words : List (List Char)} {kinds : List Kind}
    (spells : List.Forall₂ Spells words kinds) {kind : Kind} (member : kind ∈ kinds) :
    ∃ word ∈ words, Spells word kind := by
  induction spells with
  | nil => cases member
  | cons spelled _ inductionHypothesis =>
      rcases List.mem_cons.1 member with rfl | later
      · exact ⟨_, List.mem_cons_self, spelled⟩
      · obtain ⟨word, inside, spelled⟩ := inductionHypothesis later
        exact ⟨word, List.mem_cons_of_mem _ inside, spelled⟩

/-- A word among others splits their tokens. -/
theorem exists_split_of_word {front back : List (List Char)} {word : List Char}
    {kinds : List Kind} (spells : List.Forall₂ Spells (front ++ word :: back) kinds) :
    ∃ frontKinds kind backKinds, kinds = frontKinds ++ kind :: backKinds ∧
      List.Forall₂ Spells front frontKinds ∧ Spells word kind ∧
      List.Forall₂ Spells back backKinds := by
  induction front generalizing kinds with
  | nil =>
      obtain ⟨kind, others, spelled, inBack, rfl⟩ := List.forall₂_cons_left_iff.1 spells
      exact ⟨[], kind, others, rfl, .nil, spelled, inBack⟩
  | cons first rest inductionHypothesis =>
      obtain ⟨firstKind, others, start, behind, rfl⟩ := List.forall₂_cons_left_iff.1 spells
      obtain ⟨frontKinds, kind, backKinds, rfl, inFront, spelled⟩ := inductionHypothesis behind
      exact ⟨firstKind :: frontKinds, kind, backKinds, rfl, .cons start inFront, spelled⟩

/-- The first tokens have the first words. -/
theorem exists_words_of_prefix {words : List (List Char)} {kinds start : List Kind}
    (spells : List.Forall₂ Spells words kinds) (isPrefix : start <+: kinds) :
    ∃ passed rest, words = passed ++ rest ∧ List.Forall₂ Spells passed start := by
  obtain ⟨rest, rfl⟩ := isPrefix
  exact ⟨_, _, (List.take_append_drop _ _).symm, List.forall₂_take_append words start rest spells⟩

/-- An identifier spells nothing but its name. -/
theorem kind_of_isIdentifier {word : List Char} {kind : Kind} (spells : Spells word kind)
    (named : isIdentifier word) : kind = .identifier (String.ofList word) :=
  rightUnique_spells spells (.identifier named)

/-- A name is spelled by itself only. -/
theorem identifier_of_spells {word : List Char} {name : String}
    (spells : Spells word (.identifier name)) : isIdentifier word ∧ String.ofList word = name := by
  cases spells with
  | identifier named => exact ⟨named, rfl⟩

end Token

/-! ### Totals of adjusted quotes -/

namespace Quote

/-- The word names something, but neither of the prices. -/
def isForeign (word : List Char) : Bool :=
  Token.isIdentifier word && String.ofList word != partsName && String.ofList word != laborName

variable (quote : Quote)

/-- The two prices are all that is bound. -/
theorem find?_bindings (name : String) :
    quote.bindings.find? name =
      if name = partsName then some (.literal quote.parts)
      else if name = laborName then some (.literal quote.labor) else none := by
  rw [bindings, Bindings.ofList, List.foldl_cons, List.foldl_cons, List.foldl_nil,
    Bindings.find?_define, Bindings.find?_define]
  rfl

/-- A name is one of the prices, or the policy decides about it. -/
theorem evaluate_named (policy : Policy) (name : String) :
    (Formula.named name).evaluate policy quote.bindings =
      if name = partsName then .ok quote.parts
      else if name = laborName then .ok quote.labor else policy.unbound name := by
  have found := quote.find?_bindings name
  rw [Formula.evaluate_eq_outcome]
  split_ifs at found ⊢
  · rw [Evaluation.outcome_bound List.not_mem_nil found, Evaluation.outcome_literal]
  · rw [Evaluation.outcome_bound List.not_mem_nil found, Evaluation.outcome_literal]
  · rw [Evaluation.outcome_unbound List.not_mem_nil found]

variable {quote}

/-- Prices are literals, so nothing is defined in terms of itself. -/
theorem evaluate_ne_cyclicVariable (policy : Policy) (formula : Formula) (name : String) :
    formula.evaluate policy quote.bindings ≠ .error (.cyclicVariable name) := by
  induction formula with
  | literal value =>
      rw [Formula.evaluate_literal]
      exact nofun
  | named other =>
      rw [evaluate_named]
      split_ifs
      · exact nofun
      · exact nofun
      · cases policy <;> exact nofun
  | binary operator left right leftHypothesis rightHypothesis =>
      rw [Formula.evaluate_eq_outcome] at leftHypothesis rightHypothesis ⊢
      intro failed
      rcases Evaluation.outcome_binary_eq_error failed with inLeft | inRight | division
      · exact leftHypothesis inLeft
      · exact rightHypothesis inRight
      · cases division

/-- If unbound names are zeros, every name has a value. -/
theorem exists_value_of_zero (name : String) :
    ∃ value, (Formula.named name).evaluate .zero quote.bindings = .ok value := by
  rw [evaluate_named]
  split_ifs
  · exact ⟨_, rfl⟩
  · exact ⟨_, rfl⟩
  · exact ⟨0, rfl⟩

/-- The names in the words have values when they are prices. -/
theorem exists_value_of_not_foreign (quote : Quote) (policy : Policy) {words : List (List Char)}
    {kinds : List Token.Kind} (spells : List.Forall₂ Token.Spells words kinds)
    (known : ∀ word ∈ words, ¬ isForeign word) (name : String)
    (member : .identifier name ∈ kinds) :
    ∃ value, (Formula.named name).evaluate policy quote.bindings = .ok value := by
  obtain ⟨word, inside, spelled⟩ := Token.exists_word_of_mem spells member
  obtain ⟨named, rfl⟩ := Token.identifier_of_spells spelled
  have priced := known word inside
  simp only [isForeign, named, Bool.true_and, Bool.and_eq_true, bne_iff_ne] at priced
  rw [evaluate_named]
  split_ifs with isParts isLabor
  · exact ⟨_, rfl⟩
  · exact ⟨_, rfl⟩
  · exact absurd ⟨isParts, isLabor⟩ priced

/-- A foreign name has no value, if unbound names are rejected. -/
theorem evaluate_foreign {word : List Char} (foreign : isForeign word) :
    (Formula.named (String.ofList word)).evaluate .reject quote.bindings =
      .error (.undefinedVariable (String.ofList word)) := by
  simp only [isForeign, Bool.and_eq_true, bne_iff_ne] at foreign
  rw [evaluate_named, if_neg foreign.1.2, if_neg foreign.2]
  rfl

/-- There is a value, or the only failure is a division by zero. -/
def Settled (outcome : Except Failure Float) : Prop :=
  (∃ value, outcome = .ok value) ∨ outcome = .error .divisionByZero

/-- Over names that have values, nothing but a division by zero can fail. -/
theorem settled_of_valued {policy : Policy} {formula : Formula}
    (valued : ∀ name, .identifier name ∈ formula.symbols →
      ∃ value, (Formula.named name).evaluate policy quote.bindings = .ok value) :
    Settled (formula.evaluate policy quote.bindings) := by
  rcases Formula.evaluate_of_valued valued with valued | ⟨_, _, _, divides⟩
  · exact .inl valued
  · exact .inr divides.evaluate

/-- Without foreign names both policies come to the same. -/
theorem evaluate_zero_of_settled {formula : Formula}
    (settled : Settled (formula.evaluate .reject quote.bindings)) :
    formula.evaluate .zero quote.bindings = formula.evaluate .reject quote.bindings := by
  simp only [Formula.evaluate_eq_outcome] at settled ⊢
  refine Evaluation.outcome_of_extends (.refl _) .zero fun name failed => ?_
  rw [failed] at settled
  rcases settled with ⟨_, impossible⟩ | impossible
  · cases impossible
  · cases impossible

/-- The leftmost foreign name is reported, unless a division by zero in front of it is. -/
theorem evaluate_of_foreign {formula : Formula} {front back : List (List Char)} {word : List Char}
    (spells : List.Forall₂ Token.Spells (front ++ word :: back) formula.symbols)
    (foreign : isForeign word) (known : ∀ earlier ∈ front, ¬ isForeign earlier) :
    formula.evaluate .reject quote.bindings = .error (.undefinedVariable (String.ofList word)) ∨
      ∃ before dividend divisor passed rest,
        Formula.DividesByZero .reject quote.bindings formula before dividend divisor ∧
        front = passed ++ rest ∧
        List.Forall₂ Token.Spells passed
          (before ++ (Formula.binary .divide dividend divisor).symbols) := by
  obtain ⟨frontKinds, kind, backKinds, split, inFront, spelled, _⟩ :=
    Token.exists_split_of_word spells
  have named : Token.isIdentifier word := by
    simp only [isForeign, Bool.and_eq_true] at foreign
    exact foreign.1.1
  rw [Token.kind_of_isIdentifier spelled named] at split
  have valued := quote.exists_value_of_not_foreign .reject inFront known
  rcases Formula.evaluate_of_first_failure split valued (evaluate_foreign foreign) with
    reported | ⟨before, dividend, divisor, divides, isPrefix⟩
  · exact .inl reported
  · obtain ⟨passed, rest, same, start⟩ := Token.exists_words_of_prefix inFront isPrefix
    exact .inr ⟨before, dividend, divisor, passed, rest, divides, same, start⟩

/-- One of the foreign words comes first. -/
theorem exists_leftmost_foreign {words : List (List Char)}
    (named : ∃ word ∈ words, isForeign word) :
    ∃ front word back, words = front ++ word :: back ∧ isForeign word ∧
      ∀ earlier ∈ front, ¬ isForeign earlier := by
  obtain ⟨word, found⟩ := Option.isSome_iff_exists.1 (List.find?_isSome.2 named)
  obtain ⟨foreign, front, back, split, none⟩ := List.find?_eq_some_iff_append.1 found
  exact ⟨front, word, back, split, foreign, fun earlier member => by
    simpa using none earlier member⟩

section Totals

variable (policy : Policy) {parts labor : Float} {adjustment : String}

/-- An adjustment that is read prices the quote by its formula. -/
theorem total_of_parse {formula : Formula} (read : Formula.parse adjustment = .ok formula) :
    (Quote.mk parts labor (some adjustment)).total policy =
      formula.evaluate policy (Quote.mk parts labor (some adjustment)).bindings := by
  simp only [total, evaluateText, read]

/-- Only a text that cannot be read is reported as such, with all its faults. -/
theorem total_eq_malformed_iff {faults : List (Diagnostic Fault)} :
    (Quote.mk parts labor (some adjustment)).total policy = .error (.malformed faults) ↔
      Formula.parse adjustment = .error faults := by
  cases read : Formula.parse adjustment with
  | error others =>
      simp only [total, evaluateText, read, Except.error.injEq, Failure.malformed.injEq]
  | ok formula =>
      rw [total_of_parse policy read]
      constructor
      · exact fun failed => absurd failed (formula.evaluate_ne_malformed policy _ faults)
      · exact nofun

/-- No adjustment leads into a cycle. -/
theorem total_ne_cyclicVariable (name : String) :
    (Quote.mk parts labor (some adjustment)).total policy ≠ .error (.cyclicVariable name) := by
  cases read : Formula.parse adjustment with
  | error faults =>
      rw [(total_eq_malformed_iff policy).2 read]
      exact nofun
  | ok formula =>
      rw [total_of_parse policy read]
      exact evaluate_ne_cyclicVariable policy formula name

end Totals

/-- No total is a name that is defined in terms of itself. A text that cannot be read fails with
its faults, and only such a text does. Any other text has a total or divides by zero if it names
no more than the prices, and the policy makes no difference. If it names something else, the
leftmost such name is rejected, unless a division by zero all of whose words stand left of it comes
first; when such names count as zero there is a total or a division by zero. -/
theorem total_of_adjusted (parts labor : Float) (adjustment : String) :
    let quote : Quote := ⟨parts, labor, some adjustment⟩
    let words := wordList adjustment.toList
    (∀ policy name, quote.total policy ≠ .error (.cyclicVariable name)) ∧
    (∀ policy faults, quote.total policy = .error (.malformed faults) ↔
      Formula.parse adjustment = .error faults) ∧
    ∀ formula, Formula.parse adjustment = .ok formula →
      ((∀ word ∈ words, ¬ isForeign word) →
        quote.total .zero = quote.total .reject ∧ Settled (quote.total .reject)) ∧
      ((∃ word ∈ words, isForeign word) →
        Settled (quote.total .zero) ∧
        ∃ front word back, words = front ++ word :: back ∧ isForeign word ∧
          (∀ earlier ∈ front, ¬ isForeign earlier) ∧
          (quote.total .reject = .error (.undefinedVariable (String.ofList word)) ∨
            quote.total .reject = .error .divisionByZero ∧
            ∃ before dividend divisor passed rest,
              Formula.DividesByZero .reject quote.bindings formula before dividend divisor ∧
              front = passed ++ rest ∧
              List.Forall₂ Token.Spells passed
                (before ++ (Formula.binary .divide dividend divisor).symbols))) := by
  intro quote words
  refine ⟨fun policy => total_ne_cyclicVariable policy,
    fun policy _ => total_eq_malformed_iff policy, fun formula read => ?_⟩
  have spells : List.Forall₂ Token.Spells words formula.symbols :=
    (Formula.isSum_of_parse_eq_ok read).spells
  rw [total_of_parse .zero read, total_of_parse .reject read]
  constructor
  · intro known
    have settled := settled_of_valued (quote.exists_value_of_not_foreign .reject spells known)
    exact ⟨evaluate_zero_of_settled settled, settled⟩
  · intro named
    -- The words in front of the leftmost foreign one have values, so only a division by zero among
    -- them can come before it.
    obtain ⟨front, word, back, split, foreign, known⟩ := exists_leftmost_foreign named
    rw [split] at spells
    refine ⟨settled_of_valued fun name _ => exists_value_of_zero name, front, word, back, split,
      foreign, known, ?_⟩
    refine (evaluate_of_foreign spells foreign known).imp_right fun stopped => ⟨?_, stopped⟩
    obtain ⟨_, _, _, _, _, divides, _⟩ := stopped
    exact divides.evaluate

/-- A division by zero hides the foreign name behind it in the same term. -/
theorem total_divided_before_foreign :
    let quote : Quote := ⟨6, 0, some "l + p / l * tax"⟩
    let formula : Formula := .binary .add (.named "l")
      (.binary .multiply (.binary .divide (.named "p") (.named "l")) (.named "tax"))
    Formula.parse "l + p / l * tax" = .ok formula ∧
      (∃ word ∈ wordList "l + p / l * tax".toList, isForeign word) ∧
      quote.total .reject = .error .divisionByZero ∧ Settled (quote.total .zero) := by
  intro quote formula
  have words : wordList "l + p / l * tax".toList =
      [['l'], ['+'], ['p'], ['/'], ['l'], ['*'], ['t', 'a', 'x']] := by decide
  have spells : List.Forall₂ Token.Spells (wordList "l + p / l * tax".toList) formula.symbols := by
    rw [words]
    exact .cons (.identifier (by decide)) (.cons (.operator .add)
      (.cons (.identifier (by decide)) (.cons (.operator .divide)
        (.cons (.identifier (by decide)) (.cons (.operator .multiply)
          (.cons (.identifier (by decide)) .nil))))))
  have read : Formula.parse "l + p / l * tax" = .ok formula :=
    Formula.parse_of_spells (by decide) spells (spaced_wordList _)
  have named : ∃ word ∈ wordList "l + p / l * tax".toList, isForeign word := by
    rw [words]
    decide
  obtain ⟨settled, _, word, _, _, _, _, stopped⟩ :=
    ((total_of_adjusted 6 0 "l + p / l * tax").2.2 formula read).2 named
  refine ⟨read, named, ?_, settled⟩
  rcases stopped with reported | ⟨divided, _⟩
  · have total : quote.total .reject = formula.evaluate .reject quote.bindings :=
      total_of_parse .reject read
    have divided : formula.evaluate .reject quote.bindings = .error .divisionByZero := by
      decide +kernel
    rw [total, divided] at reported
    cases reported
  · exact divided

end Quote

end PriceFormula
