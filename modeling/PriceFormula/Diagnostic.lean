/-!
This file attaches causes to columns and words the reports about them.
-/

namespace PriceFormula

/-- Something is wrong at a column of a text. -/
structure Diagnostic (Cause : Type) where
  column : Nat
  cause : Cause
  deriving DecidableEq

namespace Diagnostic

variable {Cause : Type} [ToString Cause]

def text (diagnostic : Diagnostic Cause) : String :=
  "error (c. " ++ toString diagnostic.column ++ "): " ++ toString diagnostic.cause

/-- The texts of all diagnostics, one under the other. -/
def report (diagnostics : List (Diagnostic Cause)) : String :=
  "\n".intercalate (diagnostics.map text)

end Diagnostic

end PriceFormula
