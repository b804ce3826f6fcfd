import PriceFormula.Formula.Assembly

/-!
This file cuts items at the term operators. Factors stay together in segments, and an empty
segment is no piece, so that a term operator without an operand remains visible.
-/

namespace PriceFormula

/-- A segment ends where the term operator behind it starts. -/
inductive Piece where
  | segment (items : List Item) (endColumn : Nat)
  | term (operator : Operator) (column : Nat)

namespace Piece

/-- Puts an item in front; a segment that starts here ends at the next piece. -/
def extend (item : Item) (endColumn : Nat) : List Piece → List Piece
  | [] => [.segment [item] endColumn]
  | .segment items stop :: rest => .segment (item :: items) stop :: rest
  | .term operator column :: rest => .segment [item] column :: .term operator column :: rest

/-- The pieces of the items from left to right. -/
def ofItems (endColumn : Nat) : List Item → List Piece
  | [] => []
  | .operand formula column :: rest =>
    extend (.operand formula column) endColumn (ofItems endColumn rest)
  | .operator operator column :: rest =>
    if operator.isTerm then .term operator column :: ofItems endColumn rest
    else extend (.operator operator column) endColumn (ofItems endColumn rest)

/-- The column where a segment starts. -/
def startColumn (endColumn : Nat) : List Item → Nat
  | [] => endColumn
  | item :: _ => item.column

/-- A segment becomes one operand. -/
def toItem : Piece → Except (Diagnostic Fault) Item
  | .segment items endColumn =>
    match assemble items endColumn with
    | .ok formula => .ok (.operand formula (startColumn endColumn items))
    | .error diagnostic => .error diagnostic
  | .term operator column => .ok (.operator operator column)

/-- The items that the pieces become, or the first fault in one of them. -/
def toItems : List Piece → Except (Diagnostic Fault) (List Item)
  | [] => .ok []
  | piece :: rest =>
    match piece.toItem with
    | .error diagnostic => .error diagnostic
    | .ok item =>
      match toItems rest with
      | .error diagnostic => .error diagnostic
      | .ok items => .ok (item :: items)

end Piece

/-- Assembles every segment first, and then the terms. -/
def assembleSplit (items : List Item) (endColumn : Nat) : Except (Diagnostic Fault) Formula :=
  match Piece.toItems (Piece.ofItems endColumn items) with
  | .ok terms => assemble terms endColumn
  | .error diagnostic => .error diagnostic

end PriceFormula
