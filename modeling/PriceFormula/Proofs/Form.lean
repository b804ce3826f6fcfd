import PriceFormula.Fault
import PriceFormula.Proofs.Words

/-!
This file says which sequences of operands and operators are formulas, and which fault the
others are reported with. The form of a sequence leaves out what its operands are.
-/

namespace PriceFormula.Form

/-- An operator or, where there is none, an operand at its column. -/
abbrev Mark := Located (Option Operator)

/-- Operands and operators alternate, and operands stand at both ends. -/
inductive Alternating : List (Option Operator) → Prop where
  | operand : Alternating [none]
  | cons (operator : Operator) {rest : List (Option Operator)} (alternating : Alternating rest) :
      Alternating (none :: some operator :: rest)

/-- An operator joins two sequences that alternate. -/
theorem Alternating.join {first second : List (Option Operator)}
    (firstAlternates : Alternating first) (operator : Operator)
    (secondAlternates : Alternating second) :
    Alternating (first ++ some operator :: second) := by
  induction firstAlternates with
  | operand => exact .cons operator secondAlternates
  | cons other _ inductionHypothesis => exact .cons other inductionHypothesis

/-- An operand comes first. -/
theorem Alternating.starts_with_operand {form : List (Option Operator)}
    (alternating : Alternating form) : ∃ rest, form = none :: rest := by
  cases alternating <;> exact ⟨_, rfl⟩

/-! ### The run rule -/

/-- The first operator that no operand follows, at the column of what follows it. -/
def danglingOperator? (stop : Nat) : List Mark → Option (Diagnostic Fault)
  | [] => none
  | ⟨_, none⟩ :: rest => danglingOperator? stop rest
  | [⟨_, some operator⟩] => some ⟨stop, .missingRight operator⟩
  | ⟨_, some operator⟩ :: ⟨column, some _⟩ :: _ => some ⟨column, .missingRight operator⟩
  | ⟨_, some _⟩ :: ⟨_, none⟩ :: rest => danglingOperator? stop rest

/-- The columns of the operands that directly follow an operand. -/
def surplusColumns : List Mark → List Nat
  | ⟨_, none⟩ :: ⟨column, none⟩ :: rest => column :: surplusColumns (⟨column, none⟩ :: rest)
  | _ :: rest => surplusColumns rest
  | [] => []

/-- The fault of a run that stops at the given column, if it is no formula. -/
def runRule (stop : Nat) (run : List Mark) : Option (Diagnostic Fault) :=
  match run with
  | [] => some ⟨stop, .emptyExpression⟩
  | ⟨column, some operator⟩ :: _ => some ⟨column, .missingLeft operator⟩
  | ⟨_, none⟩ :: _ =>
    (danglingOperator? stop run).or ((surplusColumns run).head?.map (⟨·, .missingOperator⟩))

/-- Behind an operand at the start only dangling operators and surplus operands remain as faults. -/
theorem runRule_operand (stop column : Nat) (rest : List Mark) :
    runRule stop (⟨column, none⟩ :: rest) =
      (danglingOperator? stop rest).or
        ((surplusColumns (⟨column, none⟩ :: rest)).head?.map (⟨·, .missingOperator⟩)) := rfl

/-- Marks that start with an operand alternate, if no operator dangles and no operand is surplus. -/
theorem alternating_of_no_fault (stop : Nat) :
    ∀ (column : Nat) (rest : List Mark),
      danglingOperator? stop (⟨column, none⟩ :: rest) = none →
      surplusColumns (⟨column, none⟩ :: rest) = [] →
      Alternating ((⟨column, none⟩ :: rest).map Located.content)
  | _, [], _, _ => .operand
  | _, ⟨_, none⟩ :: _, _, surplus => absurd surplus (List.cons_ne_nil _ _)
  | _, [⟨_, some _⟩], dangling, _ => nomatch dangling
  | _, ⟨_, some _⟩ :: ⟨_, some _⟩ :: _, dangling, _ => nomatch dangling
  | _, ⟨_, some operator⟩ :: ⟨column, none⟩ :: rest, dangling, surplus =>
    .cons operator (alternating_of_no_fault stop column rest dangling surplus)

/-- Marks that alternate have none of the faults. -/
theorem no_fault_of_alternating (stop : Nat) {form : List (Option Operator)}
    (alternating : Alternating form) (marks : List Mark) (same : marks.map Located.content = form) :
    runRule stop marks = none ∧ danglingOperator? stop marks = none ∧
      surplusColumns marks = [] := by
  induction alternating generalizing marks with
  | operand =>
      obtain ⟨⟨column, content⟩, rfl, rfl⟩ := List.map_eq_singleton_iff.1 same
      exact ⟨rfl, rfl, rfl⟩
  | cons operator alternating inductionHypothesis =>
      obtain ⟨form, rfl⟩ := alternating.starts_with_operand
      obtain ⟨⟨column, _⟩, afterFirst, rfl, rfl, first⟩ := List.map_eq_cons_iff.1 same
      obtain ⟨⟨cut, _⟩, afterCut, rfl, rfl, second⟩ := List.map_eq_cons_iff.1 first
      obtain ⟨_, dangling, surplus⟩ := inductionHypothesis afterCut second
      obtain ⟨⟨next, _⟩, others, rfl, rfl, _⟩ := List.map_eq_cons_iff.1 second
      have noDangling : danglingOperator? stop
          (⟨cut, some operator⟩ :: ⟨next, none⟩ :: others) = none := dangling
      have noSurplus : surplusColumns
          (⟨column, none⟩ :: ⟨cut, some operator⟩ :: ⟨next, none⟩ :: others) = [] := surplus
      refine ⟨?_, noDangling, noSurplus⟩
      rw [runRule_operand, noDangling, noSurplus]
      rfl

/-- The run rule reports a fault exactly in the runs that are no formulas. -/
theorem runRule_eq_none_iff (stop : Nat) (run : List Mark) :
    runRule stop run = none ↔ Alternating (run.map Located.content) := by
  constructor
  · intro silent
    match run, silent with
    | ⟨column, none⟩ :: rest, silent =>
      rw [runRule_operand, Option.or_eq_none_iff, Option.map_eq_none_iff,
        List.head?_eq_none_iff] at silent
      exact alternating_of_no_fault stop column rest silent.1 silent.2
  · intro alternating
    exact (no_fault_of_alternating stop alternating run rfl).1

/-! ### Cuts -/

/-- The symbols before the first cut, and every cut with the symbols behind it. -/
def cutAt {Symbol Cut : Type} (cut? : Symbol → Option Cut) :
    List Symbol → List Symbol × List (Cut × List Symbol)
  | [] => ([], [])
  | symbol :: rest =>
    let (first, others) := cutAt cut? rest
    match cut? symbol with
    | some cut => ([], (cut, first) :: others)
    | none => (symbol :: first, others)

section Cuts

variable {Symbol Cut : Type} {cut? : Symbol → Option Cut}

/-- A cut at the start has nothing in front of it. -/
theorem cutAt_cons_some {symbol : Symbol} {cut : Cut} (isCut : cut? symbol = some cut)
    (rest : List Symbol) :
    cutAt cut? (symbol :: rest) = ([], (cut, (cutAt cut? rest).1) :: (cutAt cut? rest).2) := by
  simp only [cutAt, isCut]

theorem cutAt_cons_none {symbol : Symbol} (noCut : cut? symbol = none) (rest : List Symbol) :
    cutAt cut? (symbol :: rest) = (symbol :: (cutAt cut? rest).1, (cutAt cut? rest).2) := by
  simp only [cutAt, noCut]

/-- Symbols without cuts stay together. -/
theorem cutAt_of_none {symbols : List Symbol} (noCut : ∀ symbol ∈ symbols, cut? symbol = none) :
    cutAt cut? symbols = (symbols, []) := by
  induction symbols with
  | nil => rfl
  | cons symbol rest inductionHypothesis =>
      rw [List.forall_mem_cons] at noCut
      rw [cutAt_cons_none noCut.1, inductionHypothesis noCut.2]

/-- What stands in front of a cut and what stands behind it are cut apart. -/
theorem cutAt_append {symbol : Symbol} {cut : Cut} (isCut : cut? symbol = some cut)
    (before after : List Symbol) :
    cutAt cut? (before ++ symbol :: after) =
      ((cutAt cut? before).1,
        (cutAt cut? before).2 ++ (cut, (cutAt cut? after).1) :: (cutAt cut? after).2) := by
  induction before with
  | nil => exact cutAt_cons_some isCut after
  | cons other rest inductionHypothesis =>
      cases found : cut? other with
      | none =>
          rw [List.cons_append, cutAt_cons_none found, cutAt_cons_none found, inductionHypothesis]
      | some first =>
          rw [List.cons_append, cutAt_cons_some found, cutAt_cons_some found, inductionHypothesis]
          rfl

/-- Symbols that are cut at the same places are cut into the same parts. -/
theorem cutAt_map {Other : Type} (f : Other → Symbol) (symbols : List Other) :
    cutAt cut? (symbols.map f) =
      ((cutAt (cut? ∘ f) symbols).1.map f,
        (cutAt (cut? ∘ f) symbols).2.map fun part => (part.1, part.2.map f)) := by
  induction symbols with
  | nil => rfl
  | cons symbol rest inductionHypothesis =>
      cases found : cut? (f symbol) with
      | none =>
          have noCut : (cut? ∘ f) symbol = none := found
          rw [List.map_cons, cutAt_cons_none found, cutAt_cons_none noCut, inductionHypothesis]
          rfl
      | some cut =>
          have isCut : (cut? ∘ f) symbol = some cut := found
          rw [List.map_cons, cutAt_cons_some found, cutAt_cons_some isCut, inductionHypothesis]
          rfl

end Cuts

/-- Term operators cut a formula into runs. -/
def termOperator? (mark : Mark) : Option (Located Operator) :=
  match mark.content with
  | some operator => if operator.isTerm then some ⟨mark.column, operator⟩ else none
  | none => none

/-- The marks that the parts of a cut formula come from. -/
def rejoin (first : List Mark) (others : List (Located Operator × List Mark)) : List Mark :=
  first ++ others.flatMap fun part => part.1.map some :: part.2

/-- Joining the parts with their cuts gives the marks again. -/
theorem rejoin_cutAt (marks : List Mark) :
    rejoin (cutAt termOperator? marks).1 (cutAt termOperator? marks).2 = marks := by
  induction marks with
  | nil => rfl
  | cons mark rest inductionHypothesis =>
      cases found : termOperator? mark with
      | none =>
          rw [cutAt_cons_none found]
          exact congrArg (mark :: ·) inductionHypothesis
      | some cut =>
          have same : cut.map some = mark := by
            obtain ⟨column, content⟩ := mark
            cases content with
            | none => cases found
            | some operator =>
                simp only [termOperator?] at found
                split at found
                · cases found
                  rfl
                · cases found
          rw [cutAt_cons_some found, rejoin, List.nil_append, List.flatMap_cons, same]
          exact congrArg (mark :: ·) inductionHypothesis

/-! ### Formulas with operators of both classes -/

/-- Every run with the column where it stops, which is that of the cut behind it. -/
def runs {Symbol : Type} (stop : Nat) (first : List Symbol) :
    List (Located Operator × List Symbol) → List (List Symbol × Nat)
  | [] => [(first, stop)]
  | (cut, next) :: others => (first, cut.column) :: runs stop next others

/-- A run counts as one operand where it starts, and an empty run as nothing. -/
def operandOf : List Mark → List Mark
  | [] => []
  | mark :: _ => [⟨mark.column, none⟩]

/-- The cuts with the runs between them counted as operands. -/
def outline (first : List Mark) (others : List (Located Operator × List Mark)) : List Mark :=
  operandOf first ++ others.flatMap fun part => part.1.map some :: operandOf part.2

/-- Empty runs are no faults of their own. -/
def filledFault? (stop : Nat) (run : List Mark) : Option (Diagnostic Fault) :=
  if run.isEmpty then none else runRule stop run

/-- The fault of the first run that is not empty and no formula. -/
def runFault? (stop : Nat) (first : List Mark) (others : List (Located Operator × List Mark)) :
    Option (Diagnostic Fault) :=
  (runs stop first others).findSome? fun run => filledFault? run.2 run.1

theorem runFault?_nil (stop : Nat) (first : List Mark) :
    runFault? stop first [] = filledFault? stop first := by
  rw [runFault?, runs, List.findSome?_singleton]

/-- A part in front of a cut stops at the cut, and its fault comes first. -/
theorem runFault?_cons (stop : Nat) (first : List Mark) (cut : Located Operator)
    (next : List Mark) (others : List (Located Operator × List Mark)) :
    runFault? stop first ((cut, next) :: others) =
      (filledFault? cut.column first).or (runFault? stop next others) := by
  rw [runFault?, runs, List.findSome?_cons]
  cases filledFault? cut.column first <;> rfl

/-- There are term operators as well as factors. -/
def mixesClasses (marks : List Mark) : Bool :=
  marks.any (fun mark => mark.content.any Operator.isFactor) &&
    marks.any (fun mark => mark.content.any Operator.isTerm)

/-- The fault of a formula that stops at the given column. Where both classes of operators
occur, faults inside of the runs come first, and then those between them. -/
def syntaxFault? (stop : Nat) (marks : List Mark) : Option (Diagnostic Fault) :=
  if mixesClasses marks then
    let (first, others) := cutAt termOperator? marks
    (runFault? stop first others).or (runRule stop (outline first others))
  else runRule stop marks

/-- A formula alternates when all its runs and the outline of its runs do. -/
theorem alternating_rejoin (stop : Nat) (first : List Mark)
    (others : List (Located Operator × List Mark)) (runsSound : runFault? stop first others = none)
    (outlined : Alternating ((outline first others).map Located.content)) :
    Alternating ((rejoin first others).map Located.content) := by
  induction others generalizing first with
  | nil =>
      cases first with
      | nil => cases outlined
      | cons mark rest =>
          rw [rejoin, List.flatMap_nil, List.append_nil]
          refine (runRule_eq_none_iff stop _).1 ?_
          rwa [runFault?_nil] at runsSound
  | cons part others inductionHypothesis =>
      obtain ⟨cut, next⟩ := part
      cases first with
      | nil => cases outlined
      | cons mark rest =>
          have firstSound : runRule cut.column (mark :: rest) = none ∧
              runFault? stop next others = none := by
            rwa [runFault?_cons, Option.or_eq_none_iff] at runsSound
          have outlinedNext : Alternating ((outline next others).map Located.content) := by
            cases outlined with
            | cons _ alternating => exact alternating
          have firstAlternates := (runRule_eq_none_iff cut.column (mark :: rest)).1 firstSound.1
          have nextAlternates := inductionHypothesis next firstSound.2 outlinedNext
          have joined := firstAlternates.join cut.content nextAlternates
          simpa [rejoin, Located.map] using joined

/-- Marks alternate when there is no fault inside of the runs and none between them. -/
theorem alternating_of_cutAt {stop : Nat} {marks : List Mark}
    (silent : (runFault? stop (cutAt termOperator? marks).1 (cutAt termOperator? marks).2).or
      (runRule stop (outline (cutAt termOperator? marks).1 (cutAt termOperator? marks).2)) =
        none) : Alternating (marks.map Located.content) := by
  rw [Option.or_eq_none_iff] at silent
  have outlined := (runRule_eq_none_iff stop _).1 silent.2
  have whole := alternating_rejoin stop _ _ silent.1 outlined
  rwa [rejoin_cutAt] at whole

/-- Marks that pass both rules alternate. -/
theorem alternating_of_syntaxFault?_eq_none {stop : Nat} {marks : List Mark}
    (silent : syntaxFault? stop marks = none) : Alternating (marks.map Located.content) := by
  unfold syntaxFault? at silent
  split at silent
  · exact alternating_of_cutAt silent
  · exact (runRule_eq_none_iff stop marks).1 silent

end PriceFormula.Form
