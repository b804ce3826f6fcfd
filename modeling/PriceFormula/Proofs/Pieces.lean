import PriceFormula.Formula.Pieces
import PriceFormula.Proofs.Assembly

/-!
This file follows items that are split at their term operators. The pieces are the runs between
the cuts and the cuts themselves; the first fault in a run comes before all faults between runs.
-/

namespace PriceFormula

open Form

/-- An item and its place have one column. -/
theorem Item.mark_column (item : Item) : item.mark.column = item.column := by
  cases item <;> rfl

/-- Term operators cut items as they cut their marks. -/
def Item.termOperator? : Item → Option (Located Operator) :=
  Form.termOperator? ∘ Item.mark

namespace Piece

/-- A run is a segment, and an empty run is no piece. -/
def ofRun (run : List Item) (stop : Nat) : List Piece :=
  if run.isEmpty then [] else [.segment run stop]

/-- The pieces that the parts of cut items make. -/
def ofParts (stop : Nat) (first : List Item) : List (Located Operator × List Item) → List Piece
  | [] => ofRun first stop
  | (cut, next) :: others =>
    ofRun first cut.column ++ .term cut.content cut.column :: ofParts stop next others

/-- An item in front joins the first part. -/
theorem extend_ofParts (item : Item) (stop : Nat) (first : List Item)
    (others : List (Located Operator × List Item)) :
    extend item stop (ofParts stop first others) = ofParts stop (item :: first) others := by
  cases others <;> cases first <;> rfl

/-- The pieces are the parts between the term operators. -/
theorem ofItems_eq_ofParts (stop : Nat) (items : List Item) :
    ofItems stop items =
      ofParts stop (cutAt Item.termOperator? items).1 (cutAt Item.termOperator? items).2 := by
  induction items with
  | nil => rfl
  | cons item rest inductionHypothesis =>
      cases item with
      | operand formula column =>
          have noCut : Item.termOperator? (.operand formula column) = none := rfl
          rw [ofItems, inductionHypothesis, extend_ofParts, cutAt_cons_none noCut]
      | operator operator column =>
          by_cases term : operator.isTerm
          · have isCut : Item.termOperator? (.operator operator column) =
                some ⟨column, operator⟩ := if_pos term
            rw [ofItems, if_pos term, inductionHypothesis, cutAt_cons_some isCut]
            rfl
          · have noCut : Item.termOperator? (.operator operator column) = none := if_neg term
            rw [ofItems, if_neg term, inductionHypothesis, extend_ofParts, cutAt_cons_none noCut]

/-- With a further cut the last part stops where the cut is. -/
theorem ofParts_concat (stop : Nat) (first : List Item)
    (others : List (Located Operator × List Item)) (cut : Located Operator) (run : List Item) :
    ofParts stop first (others ++ [(cut, run)]) =
      ofParts cut.column first others ++ .term cut.content cut.column :: ofRun run stop := by
  induction others generalizing first with
  | nil => rfl
  | cons part others inductionHypothesis =>
      obtain ⟨firstCut, next⟩ := part
      rw [List.cons_append, ofParts, inductionHypothesis, ofParts, List.append_assoc]
      rfl

/-- Pieces become items from left to right, up to the first that is refused. -/
theorem toItems_append (first second : List Piece) :
    toItems (first ++ second) =
      (toItems first).bind fun front => (toItems second).map (front ++ ·) := by
  induction first with
  | nil => cases items : toItems second <;> exact items
  | cons piece rest inductionHypothesis =>
      rw [List.cons_append, toItems, toItems, inductionHypothesis]
      cases piece.toItem with
      | error fault => rfl
      | ok item => cases toItems rest <;> cases toItems second <;> rfl

/-- A segment that alternates becomes an operand at its start. -/
theorem toItem_segment_of_chain {run : List Item} {formula : Formula}
    (chain : Assembly.Chain run formula) (stop : Nat) :
    (Piece.segment run stop).toItem = .ok (.operand formula (startColumn stop run)) := by
  rw [toItem, Assembly.assemble_chain chain]

/-- A part that alternates becomes a single operand. -/
theorem toItems_ofRun_of_chain {run : List Item} {formula : Formula}
    (chain : Assembly.Chain run formula) (stop : Nat) :
    toItems (ofRun run stop) = .ok [.operand formula (startColumn stop run)] := by
  have nonempty : run.isEmpty = false := by cases chain <;> simp
  rw [ofRun, nonempty, if_neg Bool.false_ne_true, toItems, toItem_segment_of_chain chain]
  rfl

/-- A run is refused when it is faulty, or it becomes what the outline shows of it. -/
theorem toItems_ofRun (run : List Item) (stop : Nat) :
    (∃ fault, filledFault? stop (run.map Item.mark) = some fault ∧
      toItems (ofRun run stop) = .error fault) ∨
    ∃ front, filledFault? stop (run.map Item.mark) = none ∧
      front.map Item.mark = operandOf (run.map Item.mark) ∧
      toItems (ofRun run stop) = .ok front := by
  cases run with
  | nil => exact .inr ⟨[], rfl, rfl, rfl⟩
  | cons item rest =>
      rcases Assembly.assemble_cases (item :: rest) stop with
        ⟨formula, built, chain, sound⟩ | ⟨fault, refused, faulty⟩
      · right
        refine ⟨_, sound, ?_, toItems_ofRun_of_chain chain stop⟩
        rw [List.map_singleton, List.map_cons, operandOf, item.mark_column]
        rfl
      · left
        refine ⟨fault, faulty, ?_⟩
        change toItems [.segment (item :: rest) stop] = .error fault
        rw [toItems, toItem, refused]

/-- The places of the items in every part behind a cut. -/
def markParts (others : List (Located Operator × List Item)) :
    List (Located Operator × List Mark) :=
  others.map fun part => (part.1, part.2.map Item.mark)

/-- The pieces are refused with the first fault in a run, or they become the outline. -/
theorem toItems_ofParts (stop : Nat) (first : List Item)
    (others : List (Located Operator × List Item)) :
    (∃ fault, runFault? stop (first.map Item.mark) (markParts others) = some fault ∧
      toItems (ofParts stop first others) = .error fault) ∨
    ∃ terms, runFault? stop (first.map Item.mark) (markParts others) = none ∧
      terms.map Item.mark = outline (first.map Item.mark) (markParts others) ∧
      toItems (ofParts stop first others) = .ok terms := by
  induction others generalizing first with
  | nil =>
      rw [markParts, List.map_nil, runFault?_nil, outline, List.flatMap_nil, List.append_nil,
        ofParts]
      exact toItems_ofRun first stop
  | cons part others inductionHypothesis =>
      obtain ⟨cut, next⟩ := part
      rw [markParts, List.map_cons, runFault?_cons, ofParts, toItems_append]
      rcases toItems_ofRun first cut.column with
        ⟨fault, faulty, refused⟩ | ⟨front, sound, marks, built⟩
      · left
        rw [faulty, refused]
        exact ⟨fault, rfl, rfl⟩
      · rw [sound, Option.none_or, built, toItems, toItem]
        rcases inductionHypothesis next with ⟨fault, faulty, refused⟩ | ⟨terms, silent, shown, rest⟩
        · left
          rw [refused]
          exact ⟨fault, faulty, rfl⟩
        · right
          rw [rest]
          refine ⟨front ++ .operator cut.content cut.column :: terms, silent, ?_, rfl⟩
          rw [List.map_append, List.map_cons, marks, shown]
          rfl

end Piece

/-- Split items are refused with the first fault in a run or else with the fault of the outline. -/
theorem assembleSplit_of_fault {items : List Item} {endColumn : Nat} {fault : Diagnostic Fault}
    (faulty : (runFault? endColumn (cutAt Form.termOperator? (items.map Item.mark)).1
        (cutAt Form.termOperator? (items.map Item.mark)).2).or
      (runRule endColumn (outline (cutAt Form.termOperator? (items.map Item.mark)).1
        (cutAt Form.termOperator? (items.map Item.mark)).2)) = some fault) :
    assembleSplit items endColumn = .error fault := by
  have parts : (runFault? endColumn ((cutAt Item.termOperator? items).1.map Item.mark)
        (Piece.markParts (cutAt Item.termOperator? items).2)).or
      (runRule endColumn (outline ((cutAt Item.termOperator? items).1.map Item.mark)
        (Piece.markParts (cutAt Item.termOperator? items).2))) = some fault := by
    rw [cutAt_map] at faulty
    exact faulty
  rw [assembleSplit, Piece.ofItems_eq_ofParts]
  rcases Piece.toItems_ofParts endColumn (cutAt Item.termOperator? items).1
      (cutAt Item.termOperator? items).2 with
    ⟨found, inside, refused⟩ | ⟨terms, silent, shown, built⟩
  · rw [inside, Option.some_or] at parts
    rw [refused, Option.some.inj parts]
  · rw [silent, Option.none_or, ← shown] at parts
    rw [built]
    exact Assembly.assemble_of_fault parts

end PriceFormula
