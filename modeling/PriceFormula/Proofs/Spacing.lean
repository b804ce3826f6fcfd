import Mathlib.Data.List.Nodup
import PriceFormula.Proofs.Outcome
import PriceFormula.Proofs.Parsing
import PriceFormula.Proofs.Scanning

/-!
This file says that blanks carry no meaning. Reading never looks at a column, it only passes
columns on, so the words of a text alone decide how it is read. The columns of its faults are put
in afterwards, for the positions of the words.
-/

namespace PriceFormula

/-- The same content at another column. -/
def Located.relocate {Content : Type} (columns : Nat → Nat) (located : Located Content) :
    Located Content :=
  ⟨columns located.column, located.content⟩

/-- The same cause at another column. -/
def Diagnostic.relocate {Cause : Type} (columns : Nat → Nat) (diagnostic : Diagnostic Cause) :
    Diagnostic Cause :=
  ⟨columns diagnostic.column, diagnostic.cause⟩

namespace Form

/-! ### Faults at other columns -/

variable (columns : Nat → Nat)

/-- Moved marks report the same dangling operator where it was moved to. -/
theorem danglingOperator?_relocate (stop : Nat) : ∀ marks : List Mark,
    danglingOperator? (columns stop) (marks.map (Located.relocate columns)) =
      (danglingOperator? stop marks).map (Diagnostic.relocate columns)
  | [] => rfl
  | ⟨_, none⟩ :: rest => danglingOperator?_relocate stop rest
  | [⟨_, some _⟩] => rfl
  | ⟨_, some _⟩ :: ⟨_, some _⟩ :: _ => rfl
  | ⟨_, some _⟩ :: ⟨_, none⟩ :: rest => danglingOperator?_relocate stop rest

theorem surplusColumns_relocate : ∀ marks : List Mark,
    surplusColumns (marks.map (Located.relocate columns)) = (surplusColumns marks).map columns
  | [] => rfl
  | ⟨_, none⟩ :: ⟨column, none⟩ :: rest =>
      congrArg (columns column :: ·) (surplusColumns_relocate (⟨column, none⟩ :: rest))
  | ⟨_, none⟩ :: ⟨column, some operator⟩ :: rest =>
      surplusColumns_relocate (⟨column, some operator⟩ :: rest)
  | [⟨_, none⟩] => rfl
  | ⟨_, some _⟩ :: rest => surplusColumns_relocate rest

/-- The run rule finds the same fault among moved marks. -/
theorem runRule_relocate (stop : Nat) (run : List Mark) :
    runRule (columns stop) (run.map (Located.relocate columns)) =
      (runRule stop run).map (Diagnostic.relocate columns) := by
  match run with
  | [] => rfl
  | ⟨_, some _⟩ :: _ => rfl
  | ⟨column, none⟩ :: rest =>
    have surplus := surplusColumns_relocate columns (⟨column, none⟩ :: rest)
    rw [List.map_cons, Located.relocate] at surplus ⊢
    rw [runRule_operand, runRule_operand, danglingOperator?_relocate, surplus, List.head?_map,
      Option.map_or, Option.map_map, Option.map_map]
    rfl

theorem filledFault?_relocate (stop : Nat) (run : List Mark) :
    filledFault? (columns stop) (run.map (Located.relocate columns)) =
      (filledFault? stop run).map (Diagnostic.relocate columns) := by
  cases run with
  | nil => rfl
  | cons mark rest => exact runRule_relocate columns stop (mark :: rest)

/-- The cuts and the runs behind them at other columns. -/
def relocateParts (others : List (Located Operator × List Mark)) :
    List (Located Operator × List Mark) :=
  others.map fun part => (part.1.relocate columns, part.2.map (Located.relocate columns))

/-- The first run with a fault stays the first. -/
theorem runFault?_relocate (stop : Nat) (first : List Mark)
    (others : List (Located Operator × List Mark)) :
    runFault? (columns stop) (first.map (Located.relocate columns)) (relocateParts columns others) =
      (runFault? stop first others).map (Diagnostic.relocate columns) := by
  induction others generalizing first with
  | nil =>
      rw [relocateParts, List.map_nil, runFault?_nil, runFault?_nil]
      exact filledFault?_relocate columns stop first
  | cons part others inductionHypothesis =>
      obtain ⟨cut, next⟩ := part
      have behind := inductionHypothesis next
      rw [relocateParts] at behind ⊢
      rw [List.map_cons, runFault?_cons, runFault?_cons, behind, Option.map_or,
        ← filledFault?_relocate]
      rfl

theorem operandOf_relocate (run : List Mark) :
    operandOf (run.map (Located.relocate columns)) =
      (operandOf run).map (Located.relocate columns) := by
  cases run <;> rfl

/-- The outline moves with the runs and the cuts. -/
theorem outline_relocate (first : List Mark) (others : List (Located Operator × List Mark)) :
    outline (first.map (Located.relocate columns)) (relocateParts columns others) =
      (outline first others).map (Located.relocate columns) := by
  rw [outline, outline, relocateParts, List.flatMap_map, List.map_append, List.map_flatMap,
    operandOf_relocate]
  congr
  funext part
  rw [operandOf_relocate]
  rfl

theorem termOperator?_relocate (mark : Mark) :
    termOperator? (mark.relocate columns) =
      (termOperator? mark).map (Located.relocate columns) := by
  obtain ⟨column, content⟩ := mark
  cases content with
  | none => rfl
  | some operator =>
      simp only [termOperator?, Located.relocate]
      split <;> rfl

/-- Moved marks are cut at the same operators. -/
theorem cutAt_relocate (marks : List Mark) :
    cutAt termOperator? (marks.map (Located.relocate columns)) =
      ((cutAt termOperator? marks).1.map (Located.relocate columns),
        relocateParts columns (cutAt termOperator? marks).2) := by
  induction marks with
  | nil => rfl
  | cons mark rest inductionHypothesis =>
      have moved := termOperator?_relocate columns mark
      cases found : termOperator? mark with
      | none =>
          rw [found] at moved
          rw [List.map_cons, cutAt_cons_none moved, cutAt_cons_none found, inductionHypothesis]
          rfl
      | some cut =>
          rw [found] at moved
          rw [List.map_cons, cutAt_cons_some moved, cutAt_cons_some found, inductionHypothesis]
          rfl

/-- The classes do not depend on columns. -/
theorem mixesClasses_relocate (marks : List Mark) :
    mixesClasses (marks.map (Located.relocate columns)) = mixesClasses marks := by
  rw [mixesClasses, List.any_map, List.any_map]
  rfl

/-- Other columns change no fault but for its column. -/
theorem syntaxFault?_relocate (stop : Nat) (marks : List Mark) :
    syntaxFault? (columns stop) (marks.map (Located.relocate columns)) =
      (syntaxFault? stop marks).map (Diagnostic.relocate columns) := by
  rw [syntaxFault?, syntaxFault?, mixesClasses_relocate, cutAt_relocate]
  split
  · dsimp only
    rw [runFault?_relocate, outline_relocate, runRule_relocate, Option.map_or]
  · exact runRule_relocate columns stop marks

end Form

namespace Text

/-! ### Positions of words -/

/-- The columns where the words of a text start. -/
def wordStarts (text : List Char) : List Nat :=
  (locatedWords text).map Located.column

/-- The column of the word at a position, which is the end of the text behind the last word. -/
def columnAt (text : List Char) (position : Nat) : Nat :=
  (wordStarts text)[position]?.getD (endColumn text)

/-- The words at their positions in the list. -/
def positioned (words : List (List Char)) : List (Located (List Char)) :=
  words.mapIdx fun position word => ⟨position, word⟩

/-- Every word starts once. -/
theorem length_wordStarts (text : List Char) :
    (wordStarts text).length = (wordList text).length := by
  rw [wordStarts, wordList, List.length_map, List.length_map]

/-- The position of a word has the column where the word starts. -/
theorem columnAt_of_lt {text : List Char} {position : Nat}
    (inside : position < (wordStarts text).length) :
    columnAt text position = (wordStarts text)[position] := by
  rw [columnAt, List.getElem?_eq_getElem inside, Option.getD_some]

/-- Positions behind all words have the end column. -/
theorem columnAt_of_le {text : List Char} {position : Nat}
    (past : (wordStarts text).length ≤ position) : columnAt text position = endColumn text := by
  rw [columnAt, List.getElem?_eq_none past, Option.getD_none]

theorem columnAt_length (text : List Char) :
    columnAt text (wordList text).length = endColumn text :=
  columnAt_of_le (Nat.le_of_eq (length_wordStarts text))

/-- The words of a text stand at the columns of their positions. -/
theorem relocate_positioned (text : List Char) :
    (positioned (wordList text)).map (Located.relocate (columnAt text)) = locatedWords text := by
  refine List.ext_getElem? fun position => ?_
  rw [List.getElem?_map, positioned, List.getElem?_mapIdx, wordList, List.getElem?_map]
  cases found : (locatedWords text)[position]? with
  | none => rfl
  | some word =>
      have column : columnAt text position = word.column := by
        rw [columnAt, wordStarts, List.getElem?_map, found]
        rfl
      simp only [Option.map_some, Located.relocate, column]

/-- Words start before the end. -/
theorem column_lt_endColumn {text : List Char} {column : Nat} (start : column ∈ wordStarts text) :
    column < endColumn text := by
  obtain ⟨word, member, rfl⟩ := List.mem_map.1 start
  obtain ⟨before, after, same, place, enclosed⟩ := mem_locatedWords_iff.1 member
  have positive := List.length_pos_iff.2 enclosed.nonempty
  rw [place, endColumn, same, List.length_append, List.length_append]
  omega

/-- No two words start in one column. -/
theorem nodup_wordStarts (text : List Char) : (wordStarts text).Nodup := by
  have increasing : (wordStarts text).Pairwise (· < ·) :=
    List.pairwise_map.2 (pairwise_wordsFrom 1 false text)
  exact increasing.imp Nat.ne_of_lt

/-- Only positions behind all words have the end column. -/
theorem columnAt_eq_endColumn_iff {text : List Char} {position : Nat} :
    columnAt text position = endColumn text ↔ (wordStarts text).length ≤ position := by
  refine ⟨fun stop => ?_, columnAt_of_le⟩
  by_contra inside
  rw [columnAt_of_lt (Nat.lt_of_not_le inside)] at stop
  exact Nat.ne_of_lt (column_lt_endColumn (List.getElem_mem _)) stop

/-- Only the word at a position starts at the column of the position. -/
theorem getElem?_wordStarts_iff {text : List Char} {position other : Nat} :
    (wordStarts text)[other]? = some (columnAt text position) ↔
      other = position ∧ position < (wordStarts text).length := by
  constructor
  · intro start
    have before := column_lt_endColumn (List.mem_of_getElem? start)
    have inside : position < (wordStarts text).length := by
      by_contra past
      exact Nat.ne_of_lt before (columnAt_of_le (Nat.le_of_not_lt past))
    rw [columnAt_of_lt inside] at start
    obtain ⟨_, column⟩ := List.getElem?_eq_some_iff.1 start
    exact ⟨(nodup_wordStarts text).getElem_inj_iff.1 column, inside⟩
  · rintro ⟨rfl, inside⟩
    rw [columnAt_of_lt inside, List.getElem?_eq_getElem inside]

/-- The columns stand for the same position in two texts: both are the start of the word at that
position, or both are the end of their text. -/
structure SamePlace (first second : List Char) (column other : Nat) : Prop where
  word : ∀ position : Nat,
    (wordStarts first)[position]? = some column ↔ (wordStarts second)[position]? = some other
  stop : column = endColumn first ↔ other = endColumn second
  known : column ∈ wordStarts first ∨ column = endColumn first

/-- A position has the same place in all texts with the same words. -/
theorem samePlace_columnAt {first second : List Char} (same : wordList first = wordList second)
    (position : Nat) :
    SamePlace first second (columnAt first position) (columnAt second position) := by
  have length : (wordStarts first).length = (wordStarts second).length := by
    rw [length_wordStarts, length_wordStarts, same]
  refine ⟨fun other => ?_, ?_, ?_⟩
  · rw [getElem?_wordStarts_iff, getElem?_wordStarts_iff, length]
  · rw [columnAt_eq_endColumn_iff, columnAt_eq_endColumn_iff, length]
  · rcases Nat.lt_or_ge position (wordStarts first).length with inside | past
    · exact .inl (List.mem_of_getElem? (getElem?_wordStarts_iff.2 ⟨rfl, inside⟩))
    · exact .inr (columnAt_of_le past)

/-- Faults of two texts with the same cause at the same place. -/
def SameFault (first second : List Char) (fault other : Diagnostic Fault) : Prop :=
  fault.cause = other.cause ∧ SamePlace first second fault.column other.column

end Text

namespace Formula

open Form Text

/-- The fault of a text is that of its words, with columns for positions. -/
theorem syntaxFault?_ofText (text : List Char) :
    syntaxFault? (endColumn text) (ofText text) =
      (syntaxFault? (wordList text).length
        ((positioned (wordList text)).map (Located.map Operator.ofWord?))).map
          (Diagnostic.relocate (columnAt text)) := by
  have marks : ofText text =
      ((positioned (wordList text)).map (Located.map Operator.ofWord?)).map
        (Located.relocate (columnAt text)) := by
    rw [ofText, List.map_map]
    conv_lhs => rw [← relocate_positioned text, List.map_map]
    rfl
  rw [marks, ← columnAt_length, syntaxFault?_relocate]

/-- The words alone decide how a text is read, but for the columns of its faults. -/
theorem exists_reading (words : List (List Char)) :
    ∃ reading : Except (List (Diagnostic Fault)) Formula, ∀ source : String,
      wordList source.toList = words →
        parse source =
          reading.mapError (List.map (Diagnostic.relocate (columnAt source.toList))) := by
  by_cases valid : ∀ word ∈ words, Token.IsWord word
  · by_cases alternating : Alternating (words.map Operator.ofWord?)
    · obtain ⟨formula, sum⟩ := Grammar.exists_isSum valid alternating
      refine ⟨.ok formula, ?_⟩
      rintro source rfl
      exact parse_eq_ok_of_isSum sum
    · refine ⟨.error (syntaxFault? words.length
        ((positioned words).map (Located.map Operator.ofWord?))).toList, ?_⟩
      rintro source rfl
      obtain ⟨fault, faulty⟩ := exists_syntaxFault (endColumn source.toList) alternating
      rw [parse_eq_error_of_fault valid faulty]
      rw [syntaxFault?_ofText] at faulty
      obtain ⟨origin, found, rfl⟩ := Option.map_eq_some_iff.1 faulty
      rw [found]
      rfl
  · refine ⟨.error (((positioned words).filter fun word =>
      (Token.classify? word.content).isNone).map Token.invalidWord), ?_⟩
    rintro source rfl
    rw [parse, Token.readAll_of_invalid valid]
    conv_lhs => rw [← relocate_positioned source.toList, List.filter_map, List.map_map]
    rw [Except.mapError, List.map_map]
    rfl

/-- Two texts with the same words are read as the same formula, or they have the same faults at
the same places. Over all bindings they have the same value or the same failure of a
calculation. -/
theorem parse_of_same_words {first second : String}
    (same : wordList first.toList = wordList second.toList) :
    ((∃ formula, parse first = .ok formula ∧ parse second = .ok formula) ∨
      ∃ faults others, parse first = .error faults ∧ parse second = .error others ∧
        List.Forall₂ (SameFault first.toList second.toList) faults others) ∧
    ∀ policy bindings,
      (evaluateText policy bindings first = evaluateText policy bindings second ∧
        ∀ faults, evaluateText policy bindings first ≠ .error (.malformed faults)) ∨
      ∃ faults others, evaluateText policy bindings first = .error (.malformed faults) ∧
        evaluateText policy bindings second = .error (.malformed others) ∧
        List.Forall₂ (SameFault first.toList second.toList) faults others := by
  obtain ⟨reading, reads⟩ := exists_reading (wordList first.toList)
  have firstRead := reads first rfl
  have secondRead := reads second same.symm
  cases reading with
  | ok formula =>
      refine ⟨.inl ⟨formula, firstRead, secondRead⟩, fun policy bindings => .inl ?_⟩
      rw [evaluateText, evaluateText, firstRead, secondRead]
      exact ⟨rfl, formula.evaluate_ne_malformed policy bindings⟩
  | error faults =>
      have alike : List.Forall₂ (SameFault first.toList second.toList)
          (faults.map (Diagnostic.relocate (columnAt first.toList)))
          (faults.map (Diagnostic.relocate (columnAt second.toList))) := by
        rw [List.forall₂_map_left_iff, List.forall₂_map_right_iff, List.forall₂_same]
        exact fun fault _ => ⟨rfl, samePlace_columnAt same fault.column⟩
      refine ⟨.inr ⟨_, _, firstRead, secondRead, alike⟩, fun policy bindings => .inr ?_⟩
      refine ⟨_, _, ?_, ?_, alike⟩
      · rw [evaluateText, firstRead]
        rfl
      · rw [evaluateText, secondRead]
        rfl

/-- A factor in front of a term operator is refused at the term operator, wherever that stands. -/
theorem parse_of_respaced_words :
    wordList "p * + l".toList = wordList "\t p  *\n\n+ l ".toList ∧
      parse "\t p  *\n\n+ l " = .error [⟨9, .missingRight .multiply⟩] := by
  have same : wordList "p * + l".toList = wordList "\t p  *\n\n+ l ".toList := by decide
  have valid : ∀ word ∈ wordList "p * + l".toList, Token.IsWord word := by
    have classified : ∀ word ∈ wordList "p * + l".toList, (Token.classify? word).isSome := by
      decide
    exact fun word member => Token.classify?_isSome_iff.1 (classified word member)
  have refused : parse "p * + l" = .error [⟨5, .missingRight .multiply⟩] :=
    parse_eq_error_of_fault valid (by decide)
  rcases (parse_of_same_words same).1 with ⟨formula, read, _⟩ | ⟨faults, others, read, found, alike⟩
  · rw [refused] at read
    cases read
  · rw [refused] at read
    cases read
    obtain ⟨⟨column, cause⟩, _, ⟨rfl, place⟩, rest, rfl⟩ := List.forall₂_cons_left_iff.1 alike
    rw [List.forall₂_nil_left_iff.1 rest] at found
    have start : (wordStarts "\t p  *\n\n+ l ".toList)[2]? = some column :=
      (place.word 2).1 (by decide)
    have known : (wordStarts "\t p  *\n\n+ l ".toList)[2]? = some 9 := by decide
    rw [known] at start
    cases start
    exact ⟨same, found⟩

end Formula

end PriceFormula
