import PriceFormula.Formula.Pieces

/-!
This file reads formulas from text. Tokens with operators of one class are assembled at once;
with both classes they are split at the term operators first.
-/

namespace PriceFormula

open Text

/-- How the tokens of a formula are put together. -/
inductive Plan where
  | direct
  | split
  deriving DecidableEq

/-- Tokens are split only if both classes of operators occur. -/
def Plan.ofTokens (tokens : List Token) : Plan :=
  let operators := tokens.filterMap Token.operator?
  if operators.any Operator.isFactor && operators.any Operator.isTerm then .split else .direct

namespace Formula

/-- Assembles the tokens by their plan. -/
def ofTokens (tokens : List Token) (endColumn : Nat) : Except (Diagnostic Fault) Formula :=
  let items := tokens.map Item.ofToken
  match Plan.ofTokens tokens with
  | .direct => assemble items endColumn
  | .split => assembleSplit items endColumn

/-- Reads a whole text as one formula. -/
def parse (source : String) : Except (List (Diagnostic Fault)) Formula :=
  match Token.readAll source.toList with
  | .error diagnostics => .error diagnostics
  | .ok tokens =>
    match ofTokens tokens (endColumn source.toList) with
    | .error diagnostic => .error [diagnostic]
    | .ok formula => .ok formula

end Formula

end PriceFormula
