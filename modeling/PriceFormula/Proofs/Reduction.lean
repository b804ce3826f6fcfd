import Mathlib.Data.List.Forall2
import Mathlib.Data.Nat.Find
import Mathlib.Logic.Relation
import PriceFormula.Proofs.Plans

/-!
This file says what assembling makes of any items, by the places where operands and operators stand,
and what waits on its stack. The main statement is that items which alternate become a left fold,
that all others are refused for the first reason that applies, and that every waiting operand stands
for a run of the items.
-/

namespace PriceFormula

open Relation

/-- The index is the first with the property. -/
def FirstAt (property : Nat → Prop) (index : Nat) : Prop :=
  property index ∧ ∀ earlier < index, ¬ property earlier

section First

variable {property goal : Nat → Prop}

/-- What holds at some index holds at a first one. -/
theorem exists_firstAt (found : ∃ index, property index) : ∃ index, FirstAt property index := by
  classical
  exact ⟨Nat.find found, Nat.find_spec found, fun _ => Nat.find_min found⟩

/-- What holds at the start holds there first. -/
theorem exists_firstAt_of_zero (here : property 0) :
    (∃ index, FirstAt property index ∧ goal index) ↔ goal 0 := by
  constructor
  · rintro ⟨index, ⟨_, first⟩, reached⟩
    cases index with
    | zero => exact reached
    | succ index => exact absurd here (first 0 (Nat.succ_pos index))
  · intro reached
    exact ⟨0, ⟨here, fun _ before => absurd before (Nat.not_lt_zero _)⟩, reached⟩

/-- What does not hold at the start can be sought behind it. -/
theorem exists_firstAt_of_not_zero (skips : ¬ property 0) :
    (∃ index, FirstAt property index ∧ goal index) ↔
      ∃ index, FirstAt (fun behind => property (behind + 1)) index ∧ goal (index + 1) := by
  constructor
  · rintro ⟨index, ⟨found, first⟩, reached⟩
    cases index with
    | zero => exact absurd found skips
    | succ index =>
        exact ⟨index, ⟨found, fun earlier before => first _ (Nat.succ_lt_succ before)⟩, reached⟩
  · rintro ⟨index, ⟨found, first⟩, reached⟩
    refine ⟨index + 1, ⟨found, fun earlier before => ?_⟩, reached⟩
    cases earlier with
    | zero => exact skips
    | succ earlier => exact first earlier (Nat.lt_of_succ_lt_succ before)

end First

namespace Form

/-- No operand follows the operator at the index. -/
def DanglingAt (form : List (Option Operator)) (index : Nat) : Prop :=
  (∃ operator, form[index]? = some (some operator)) ∧ form[index + 1]? ≠ some none

/-- An operand follows the operand at the index. -/
def SurplusAt (form : List (Option Operator)) (index : Nat) : Prop :=
  form[index]? = some none ∧ form[index + 1]? = some none

variable {stop : Nat} {fault : Diagnostic Fault} {column : Nat}

-- The cases below follow the marks that a scan looks at together. One that reports nothing moves
-- the first index on, by as many marks as it passes.

/-- The dangling operator is reported where the next mark is, or where the marks stop. -/
theorem danglingOperator?_eq_some_iff : ∀ marks : List Mark,
    danglingOperator? stop marks = some fault ↔
      ∃ index, FirstAt (DanglingAt (marks.map Located.content)) index ∧
        ∃ operator, (marks.map Located.content)[index]? = some (some operator) ∧
          fault = ⟨marks[index + 1]?.elim stop Located.column, .missingRight operator⟩
  | [] => by simp [danglingOperator?, FirstAt, DanglingAt]
  | ⟨_, none⟩ :: rest => by
      rw [exists_firstAt_of_not_zero (by simp [DanglingAt])]
      exact danglingOperator?_eq_some_iff rest
  | [⟨_, some operator⟩] => by
      rw [exists_firstAt_of_zero (by simp [DanglingAt])]
      simp [danglingOperator?, eq_comm]
  | ⟨_, some operator⟩ :: ⟨column, some other⟩ :: rest => by
      rw [exists_firstAt_of_zero (by simp [DanglingAt])]
      simp [danglingOperator?, eq_comm]
  | ⟨_, some operator⟩ :: ⟨_, none⟩ :: rest => by
      rw [exists_firstAt_of_not_zero (by simp [DanglingAt]),
        exists_firstAt_of_not_zero (by simp [DanglingAt])]
      exact danglingOperator?_eq_some_iff rest

/-- No operator is reported exactly if an operand follows each of them. -/
theorem danglingOperator?_eq_none_iff (marks : List Mark) :
    danglingOperator? stop marks = none ↔
      ∀ index, ¬ DanglingAt (marks.map Located.content) index := by
  rw [Option.eq_none_iff_forall_ne_some]
  constructor
  · intro silent index dangling
    obtain ⟨first, isFirst⟩ := exists_firstAt ⟨index, dangling⟩
    obtain ⟨operator, found⟩ := isFirst.1.1
    exact silent _ ((danglingOperator?_eq_some_iff marks).2 ⟨first, isFirst, operator, found, rfl⟩)
  · intro followed fault reported
    obtain ⟨index, isFirst, _⟩ := (danglingOperator?_eq_some_iff marks).1 reported
    exact followed index isFirst.1

/-- The first surplus column is that of the first operand behind an operand. -/
theorem head?_surplusColumns_iff : ∀ marks : List Mark,
    (surplusColumns marks).head? = some column ↔
      ∃ index, FirstAt (SurplusAt (marks.map Located.content)) index ∧
        marks[index + 1]?.map Located.column = some column
  | [] => by simp [surplusColumns, FirstAt, SurplusAt]
  | [⟨_, none⟩] => by
      rw [exists_firstAt_of_not_zero (by simp [SurplusAt])]
      exact head?_surplusColumns_iff []
  | ⟨_, none⟩ :: ⟨other, none⟩ :: rest => by
      rw [exists_firstAt_of_zero (by simp [SurplusAt])]
      rfl
  | ⟨_, none⟩ :: ⟨other, some operator⟩ :: rest => by
      rw [exists_firstAt_of_not_zero (by simp [SurplusAt])]
      exact head?_surplusColumns_iff (⟨other, some operator⟩ :: rest)
  | ⟨_, some _⟩ :: rest => by
      rw [exists_firstAt_of_not_zero (by simp [SurplusAt])]
      exact head?_surplusColumns_iff rest

/-- Behind marks that alternate, an operand is surplus. -/
theorem surplusColumns_append {form : List (Option Operator)} (alternating : Alternating form)
    (marks : List Mark) (same : marks.map Located.content = form) (column : Nat)
    (others : List Mark) :
    surplusColumns (marks ++ ⟨column, none⟩ :: others) =
      column :: surplusColumns (⟨column, none⟩ :: others) := by
  induction alternating generalizing marks with
  | operand =>
      obtain ⟨⟨start, content⟩, rfl, rfl⟩ := List.map_eq_singleton_iff.1 same
      rfl
  | cons operator alternating inductionHypothesis =>
      obtain ⟨⟨start, _⟩, afterFirst, rfl, rfl, first⟩ := List.map_eq_cons_iff.1 same
      obtain ⟨⟨cut, _⟩, afterCut, rfl, rfl, second⟩ := List.map_eq_cons_iff.1 first
      exact inductionHypothesis afterCut second

end Form

namespace Assembly

open Form

/-! ### Formulas and refusals -/

/-- An operator with the operand behind it. -/
structure Link where
  operator : Operator
  operatorColumn : Nat
  operand : Formula
  column : Nat

/-- The two items of a link. -/
def Link.items (link : Link) : List Item :=
  [.operator link.operator link.operatorColumn, .operand link.operand link.column]

/-- The formula with the link behind it. -/
def Link.join (left : Formula) (link : Link) : Formula :=
  .binary link.operator left link.operand

/-- Links prolong a chain, and its formula joins their operands in order. -/
theorem Chain.join {front : List Item} {left : Formula} (chain : Chain front left)
    (links : List Link) :
    Chain (front ++ links.flatMap Link.items) (links.foldl Link.join left) := by
  induction links generalizing front left with
  | nil => rwa [List.flatMap_nil, List.append_nil]
  | cons link links inductionHypothesis =>
      have longer := chain.extend link.operator link.operatorColumn link.operand link.column
      rw [List.flatMap_cons, ← List.append_assoc]
      exact inductionHypothesis longer

/-- A chain is an operand and links behind it, and its formula is their left fold. -/
theorem chain_iff {items : List Item} {formula : Formula} :
    Chain items formula ↔ ∃ (first : Formula) (column : Nat) (links : List Link),
      items = .operand first column :: links.flatMap Link.items ∧
        formula = links.foldl Link.join first := by
  constructor
  · intro chain
    induction chain with
    | operand formula column => exact ⟨formula, column, [], rfl, rfl⟩
    | extend chain operator operatorColumn right column inductionHypothesis =>
        obtain ⟨first, start, links, rfl, rfl⟩ := inductionHypothesis
        refine ⟨first, start, links ++ [⟨operator, operatorColumn, right, column⟩], ?_, ?_⟩
        · rw [List.flatMap_append]
          rfl
        · rw [List.foldl_concat]
          rfl
  · rintro ⟨first, column, links, rfl, rfl⟩
    exact (Chain.operand first column).join links

/-- The places of operands and operators among items. -/
def form (items : List Item) : List (Option Operator) :=
  items.map Item.operator?

/-- Why items are refused. Of the reasons that apply, the first one counts: there are no items, an
operator comes first, an operator dangles, an operand is surplus. -/
inductive Refusal (stop : Nat) (items : List Item) : Diagnostic Fault → Prop where
  | empty (none : items = []) : Refusal stop items ⟨stop, .emptyExpression⟩
  | left {operator : Operator} {column : Nat}
      (starts : items[0]? = some (.operator operator column)) :
      Refusal stop items ⟨column, .missingLeft operator⟩
  | right {index : Nat} {operator : Operator} (starts : (form items)[0]? = some none)
      (first : FirstAt (DanglingAt (form items)) index)
      (found : (form items)[index]? = some (some operator)) :
      Refusal stop items ⟨items[index + 1]?.elim stop Item.column, .missingRight operator⟩
  | surplus {index : Nat} {item : Item} (starts : (form items)[0]? = some none)
      (followed : ∀ index, ¬ DanglingAt (form items) index)
      (first : FirstAt (SurplusAt (form items)) index) (found : items[index + 1]? = some item) :
      Refusal stop items ⟨item.column, .missingOperator⟩

theorem form_eq (items : List Item) :
    form items = (items.map Item.mark).map Located.content := by
  rw [List.map_map]
  rfl

/-- The items and their places agree on the next column, if there is one. -/
theorem elim_mark_column (stop : Nat) (items : List Item) (index : Nat) :
    (items.map Item.mark)[index]?.elim stop Located.column =
      items[index]?.elim stop Item.column := by
  rw [List.getElem?_map]
  cases items[index]? with
  | none => rfl
  | some item => exact item.mark_column

theorem map_mark_column (items : List Item) (index : Nat) :
    (items.map Item.mark)[index]?.map Located.column = items[index]?.map Item.column := by
  rw [List.getElem?_map, Option.map_map]
  exact congrFun (congrArg Option.map (funext Item.mark_column)) _

/-- The run rule refuses items for the first reason that applies. -/
theorem runRule_eq_some_iff {stop : Nat} {items : List Item} {fault : Diagnostic Fault} :
    runRule stop (items.map Item.mark) = some fault ↔ Refusal stop items fault := by
  match items with
  | [] =>
      constructor
      · rintro ⟨⟩
        exact .empty rfl
      · intro refusal
        cases refusal with
        | empty => rfl
        | left starts => cases starts
        | right starts => cases starts
        | surplus starts => cases starts
  | .operator operator column :: rest =>
      constructor
      · rintro ⟨⟩
        exact .left rfl
      · intro refusal
        cases refusal with
        | empty none => cases none
        | left starts => cases starts; rfl
        | right starts => cases starts
        | surplus starts => cases starts
  | .operand formula column :: rest =>
      -- Behind an operand two reasons are left, and the first hides the second.
      let items : List Item := .operand formula column :: rest
      have rule : runRule stop (items.map Item.mark) =
          (danglingOperator? stop (items.map Item.mark)).or
            ((surplusColumns (items.map Item.mark)).head?.map (⟨·, .missingOperator⟩)) := rfl
      change runRule stop (items.map Item.mark) = some fault ↔ Refusal stop items fault
      rw [rule, Option.or_eq_some_iff, danglingOperator?_eq_some_iff,
        danglingOperator?_eq_none_iff, Option.map_eq_some_iff]
      simp only [head?_surplusColumns_iff, ← form_eq, elim_mark_column, map_mark_column]
      constructor
      · rintro (⟨index, first, operator, found, rfl⟩ |
          ⟨followed, column, ⟨index, first, found⟩, rfl⟩)
        · exact .right rfl first found
        · obtain ⟨item, inside, rfl⟩ := Option.map_eq_some_iff.1 found
          exact .surplus rfl followed first inside
      · intro refusal
        cases refusal with
        | empty none => exact absurd none (List.cons_ne_nil _ _)
        | left starts => cases starts
        | right _ first found => exact .inl ⟨_, first, _, found, rfl⟩
        | surplus _ followed first found =>
            exact .inr ⟨followed, _, ⟨_, first, Option.map_eq_some_iff.2 ⟨_, found, rfl⟩⟩, rfl⟩

/-- Chains are all that is assembled. -/
theorem assemble_eq_ok_iff {items : List Item} {stop : Nat} {formula : Formula} :
    assemble items stop = .ok formula ↔ Chain items formula := by
  constructor
  · intro built
    rcases assemble_cases items stop with ⟨other, alsoBuilt, chain, _⟩ | ⟨fault, refused, _⟩
    · rw [built] at alsoBuilt
      cases alsoBuilt
      exact chain
    · rw [built] at refused
      cases refused
  · intro chain
    exact assemble_chain chain stop

/-- Refusals are all that keeps items from being assembled. -/
theorem assemble_eq_error_iff {items : List Item} {stop : Nat} {fault : Diagnostic Fault} :
    assemble items stop = .error fault ↔ Refusal stop items fault := by
  rw [← runRule_eq_some_iff]
  constructor
  · intro refused
    rcases assemble_cases items stop with ⟨formula, built, _⟩ | ⟨other, alsoRefused, faulty⟩
    · rw [built] at refused
      cases refused
    · rw [alsoRefused] at refused
      cases refused
      exact faulty
  · exact assemble_of_fault

/-! ### Rounds -/

/-- One round over the waiting entries, the latest first, and the items that are left: an operand
joins the entries, or an operator takes the latest entry and the operand behind it. -/
inductive Round : List Entry × List Item → List Entry × List Item → Prop where
  | shift (stack : List Entry) (formula : Formula) (column : Nat) (rest : List Item) :
      Round (stack, .operand formula column :: rest) (⟨formula, column⟩ :: stack, rest)
  | join (left : Entry) (stack : List Entry) (operator : Operator) (operatorColumn : Nat)
      (right : Formula) (column : Nat) (rest : List Item) :
      Round (left :: stack, .operator operator operatorColumn :: .operand right column :: rest)
        (⟨.binary operator left.formula right, left.column⟩ :: stack, rest)

variable {items rest : List Item} {stack : List Entry}

/-- A round leaves the result as it will be. -/
theorem Round.reduce_eq {state next : List Entry × List Item} (round : Round state next)
    (stop : Nat) : reduce stop state.1 state.2 = reduce stop next.1 next.2 := by
  cases round <;> rfl

theorem reduce_eq_of_rounds {state later : List Entry × List Item}
    (rounds : ReflTransGen Round state later) (stop : Nat) :
    reduce stop state.1 state.2 = reduce stop later.1 later.2 := by
  induction rounds with
  | refl => rfl
  | tail _ round inductionHypothesis => exact inductionHypothesis.trans (round.reduce_eq stop)

/-- Where reducing succeeds, rounds lead through all items. -/
theorem rounds_of_reduce (stop : Nat) : ∀ (stack : List Entry) (items : List Item)
    {final : List Entry}, reduce stop stack items = .ok final →
      ReflTransGen Round (stack, items) (final, [])
  | _, [], _, same => by
      cases same
      exact .refl
  | stack, .operand formula column :: rest, _, reduced =>
    .head (.shift stack formula column rest) (rounds_of_reduce stop _ rest reduced)
  | [], .operator _ _ :: _, _, refused => nomatch refused
  | left :: stack, .operator operator operatorColumn :: .operand right column :: rest, _,
      reduced =>
    .head (.join left stack operator operatorColumn right column rest)
      (rounds_of_reduce stop _ rest reduced)
  | _ :: _, .operator _ _ :: .operator _ _ :: _, _, refused => nomatch refused
  | _ :: _, [.operator _ _], _, refused => nomatch refused

/-- An entry stands for a run of items that alternate, and starts where the run starts. -/
structure Covers (entry : Entry) (run : List Item) : Prop where
  chain : Chain run entry.formula
  column : run.head?.map Item.column = some entry.column

theorem covers_operand (formula : Formula) (column : Nat) :
    Covers ⟨formula, column⟩ [.operand formula column] :=
  ⟨.operand formula column, rfl⟩

/-- An entry that takes an operator and an operand stands for them as well. -/
theorem Covers.join {left : Entry} {run : List Item} (covers : Covers left run)
    (operator : Operator) (operatorColumn : Nat) (right : Formula) (column : Nat) :
    Covers ⟨.binary operator left.formula right, left.column⟩
      (run ++ [.operator operator operatorColumn, .operand right column]) where
  chain := covers.chain.extend operator operatorColumn right column
  column := by
    cases run with
    | nil => cases covers.column
    | cons item run => exact covers.column

/-- The waiting entries stand for the items that were passed, run by run; the latest run comes
first here as well. -/
structure Standing (passed : List Item) (stack : List Entry) (runs : List (List Item)) : Prop where
  covers : List.Forall₂ Covers stack runs
  flatten : runs.reverse.flatten = passed

/-- The entries still stand for all items that were passed after a further round. -/
theorem Round.standing {state next : List Entry × List Item} (round : Round state next)
    {runs : List (List Item)} {passed : List Item} (standing : Standing passed state.1 runs) :
    ∃ taken later, state.2 = taken ++ next.2 ∧ Standing (passed ++ taken) next.1 later := by
  obtain ⟨covers, rfl⟩ := standing
  cases round with
  | shift stack formula column rest =>
      refine ⟨[.operand formula column], _, rfl,
        .cons (covers_operand formula column) covers, ?_⟩
      simp
  | join left stack operator operatorColumn right column rest =>
      cases covers with
      | cons latest others =>
          refine ⟨[.operator operator operatorColumn, .operand right column], _, rfl,
            .cons (latest.join operator operatorColumn right column) others, ?_⟩
          simp

/-- Whatever rounds were made, the entries stand for all items that were passed. -/
theorem exists_standing {state : List Entry × List Item}
    (rounds : ReflTransGen Round ([], items) state) :
    ∃ passed runs, items = passed ++ state.2 ∧ Standing passed state.1 runs := by
  induction rounds with
  | refl => exact ⟨[], [], rfl, .nil, rfl⟩
  | tail _ round inductionHypothesis =>
      obtain ⟨passed, runs, whole, standing⟩ := inductionHypothesis
      obtain ⟨taken, later, rest, stands⟩ := round.standing standing
      exact ⟨passed ++ taken, later, by rw [whole, rest, List.append_assoc], stands⟩

/-- A chain alternates between operands and operators. -/
theorem Chain.alternating {run : List Item} {formula : Formula} (chain : Chain run formula) :
    Alternating ((run.map Item.mark).map Located.content) := by
  rw [← runRule_eq_none_iff 0]
  cases found : runRule 0 (run.map Item.mark) with
  | none => rfl
  | some fault =>
      have built := assemble_chain chain 0
      rw [assemble_of_fault found] at built
      cases built

/-- The run of an entry starts with an operand at the column of the entry. -/
theorem Covers.marks {entry : Entry} {run : List Item} (covers : Covers entry run) :
    ∃ others, run.map Item.mark = ⟨entry.column, none⟩ :: others := by
  obtain ⟨contents, starts⟩ := covers.chain.alternating.starts_with_operand
  have column := covers.column
  match run, starts, column with
  | .operand formula _ :: rest, _, rfl => exact ⟨rest.map Item.mark, rfl⟩

/-- The second entry from the bottom starts at the first operand that follows an operand, whatever
has been joined to it since. -/
theorem Standing.second {passed : List Item} {runs : List (List Item)}
    (standing : Standing passed stack runs) {entry : Entry}
    (second : stack.reverse[1]? = some entry) (rest : List Item) :
    (surplusColumns ((passed ++ rest).map Item.mark)).head? = some entry.column := by
  obtain ⟨covers, rfl⟩ := standing
  -- The bottom run alternates and holds no surplus operand, so the first one starts the run above.
  have upwards := List.forall₂_reverse_iff.2 covers
  generalize stack.reverse = entries at second upwards
  generalize runs.reverse = runs at upwards
  match entries, runs, second, upwards with
  | _ :: _ :: _, first :: run :: others, rfl, .cons bottom (.cons above _) =>
    obtain ⟨behind, marks⟩ := above.marks
    have whole : ((first :: run :: others).flatten ++ rest).map Item.mark =
        first.map Item.mark ++ ⟨entry.column, none⟩ ::
          (behind ++ (others.flatten ++ rest).map Item.mark) := by
      rw [List.flatten_cons, List.flatten_cons, List.append_assoc, List.append_assoc,
        List.map_append, List.map_append, marks]
      rfl
    rw [whole, surplusColumns_append bottom.chain.alternating _ rfl]
    rfl

/-- Items become a formula exactly when they alternate, and then it is the left fold of the
operators over the operands, whatever their classes are. All others are refused for the first
reason that applies. On the way nothing but the start leaves the stack empty, and the second entry
on it is always at the column of the first surplus operand. -/
theorem assemble_folds_or_refuses (items : List Item) (stop : Nat) :
    (∀ formula, assemble items stop = .ok formula ↔
      ∃ (first : Formula) (column : Nat) (links : List Link),
        items = .operand first column :: links.flatMap Link.items ∧
          formula = links.foldl Link.join first) ∧
    (∀ fault, assemble items stop = .error fault ↔ Refusal stop items fault) ∧
    (∀ final, reduce stop [] items = .ok final ↔
      ReflTransGen Round ([], items) (final, [])) ∧
    ∀ stack rest, ReflTransGen Round ([], items) (stack, rest) →
      reduce stop [] items = reduce stop stack rest ∧
      (stack = [] → rest = items) ∧
      ∀ entry, stack.reverse[1]? = some entry →
        ∃ index, FirstAt (SurplusAt (form items)) index ∧
          items[index + 1]?.map Item.column = some entry.column := by
  refine ⟨fun formula => assemble_eq_ok_iff.trans chain_iff, fun fault => assemble_eq_error_iff,
    fun final => ⟨rounds_of_reduce stop [] items, fun rounds => ?_⟩, fun stack rest rounds => ?_⟩
  · rw [reduce_eq_of_rounds rounds stop]
    rfl
  · obtain ⟨passed, runs, whole, standing⟩ := exists_standing rounds
    refine ⟨reduce_eq_of_rounds rounds stop, ?_, fun entry second => ?_⟩
    · rintro rfl
      cases standing.covers
      rw [whole, ← standing.flatten]
      rfl
    · have surplus := standing.second second rest
      rw [← whole, head?_surplusColumns_iff, ← form_eq] at surplus
      simpa only [map_mark_column] using surplus

/-- A factor behind a term operator takes the whole sum. A surplus operand is reported at its own
column also after a factor has been joined to it. -/
theorem assemble_folds_across_classes :
    assemble [.operand (.named "p") 1, .operator .add 3, .operand (.named "l") 5,
      .operator .multiply 7, .operand (.named "tax") 9] 12 =
        .ok (.binary .multiply (.binary .add (.named "p") (.named "l")) (.named "tax")) ∧
    let items : List Item := [.operand (.named "p") 1, .operand (.named "l") 3,
      .operator .multiply 5, .operand (.named "tax") 7]
    Refusal 10 items ⟨3, .missingOperator⟩ ∧
    ReflTransGen Round ([], items)
      ([⟨.binary .multiply (.named "l") (.named "tax"), 3⟩, ⟨.named "p", 1⟩], []) ∧
    ∃ index, FirstAt (SurplusAt (form items)) index ∧
      items[index + 1]?.map Item.column = some 3 := by
  refine ⟨((assemble_folds_or_refuses _ 12).1 _).2 ⟨.named "p", 1,
    [⟨.add, 3, .named "l", 5⟩, ⟨.multiply, 7, .named "tax", 9⟩], rfl, rfl⟩, ?_⟩
  intro items
  obtain ⟨_, refused, finished, passed⟩ := assemble_folds_or_refuses items 10
  have rounds := (finished
    [⟨.binary .multiply (.named "l") (.named "tax"), 3⟩, ⟨.named "p", 1⟩]).1 rfl
  exact ⟨(refused _).1 rfl, rounds, (passed _ _ rounds).2.2 _ rfl⟩

end Assembly

end PriceFormula
