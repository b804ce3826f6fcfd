import PriceFormula.Evaluation
import PriceFormula.Number.Text

/-!
This file prices quotes. The total is the sum of both prices, or what an adjustment formula
over the prices says.
-/

namespace PriceFormula

structure Quote where
  parts : Float
  labor : Float
  adjustment : Option String

namespace Quote

/-- The name of the price of the parts in adjustments. -/
def partsName : String := "p"

/-- The name of the price of the labor in adjustments. -/
def laborName : String := "l"

def ofPrices (parts labor : Float) : Quote :=
  ⟨parts, labor, none⟩

def adjust (quote : Quote) (adjustment : Option String) : Quote :=
  { quote with adjustment := adjustment }

/-- Both prices are bound to their names. -/
def bindings (quote : Quote) : Bindings :=
  .ofList [(laborName, .literal quote.labor), (partsName, .literal quote.parts)]

/-- The value of the adjustment, or the sum of both prices without one. -/
def total (quote : Quote) (policy : Policy) : Except Failure Float :=
  match quote.adjustment with
  | some adjustment => evaluateText policy quote.bindings adjustment
  | none => .ok (quote.parts + quote.labor)

/-- The total on a line of its own. -/
def totalLine (quote : Quote) (policy : Policy) : Except Failure String :=
  match quote.total policy with
  | .ok value => .ok (Number.text value ++ "\n")
  | .error failure => .error failure

/-- Prices are compared as numbers. -/
def equal (left right : Quote) : Bool :=
  left.parts == right.parts && left.labor == right.labor &&
    left.adjustment == right.adjustment

instance : BEq Quote := ⟨equal⟩

end Quote

end PriceFormula
