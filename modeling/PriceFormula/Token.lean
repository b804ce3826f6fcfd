import PriceFormula.Fault
import PriceFormula.Number.Reading
import PriceFormula.Text.Span

/-!
This file reads the tokens of a formula. Every word of the text is one token, and a word
that is none is a fault. All faulty words are reported together.
-/

namespace PriceFormula

open Text

namespace Token

inductive Kind where
  | operator (operator : Operator)
  | number (value : Float)
  | identifier (name : String)

/-- Numbers start with a digit or a point, so that names of infinity are identifiers. -/
def looksNumeric (word : List Char) : Bool :=
  match (Number.splitSign word).2 with
  | [] => false
  | char :: _ => char.isDigit || char == '.'

def startsIdentifier (char : Char) : Bool :=
  char.isAlpha || char == '_'

def continuesIdentifier (char : Char) : Bool :=
  char.isAlphanum || char == '_'

/-- Identifiers hold ASCII letters, digits and underscores, no digit first. -/
def isIdentifier : List Char → Bool
  | [] => false
  | char :: rest => startsIdentifier char && rest.all continuesIdentifier

def readNumber? (word : List Char) : Option Float :=
  if looksNumeric word then Number.read? word else none

/-- Operators are tried first, then numbers, and identifiers last. -/
def classify? (word : List Char) : Option Kind :=
  match Operator.ofWord? word with
  | some operator => some (.operator operator)
  | none =>
    match readNumber? word with
    | some value => some (.number value)
    | none => if isIdentifier word then some (.identifier (String.ofList word)) else none

end Token

/-- A classified word of a text. -/
structure Token where
  kind : Token.Kind
  span : Span

namespace Token

def lexeme (token : Token) : List Char :=
  token.span.lexeme

def column (token : Token) : Nat :=
  token.span.column

def operator? (token : Token) : Option Operator :=
  match token.kind with
  | .operator operator => some operator
  | _ => none

/-- The token of a span, or the fault that its word is none. -/
def ofSpan (span : Span) : Except (Diagnostic Fault) Token :=
  match classify? span.lexeme with
  | some kind => .ok ⟨kind, span⟩
  | none => .error ⟨span.column, .invalidToken (String.ofList span.lexeme)⟩

/-- The faults and the tokens among the spans, both in order. -/
def collect : List Span → List (Diagnostic Fault) × List Token
  | [] => ([], [])
  | span :: rest =>
    let (faults, tokens) := collect rest
    match ofSpan span with
    | .ok token => (faults, token :: tokens)
    | .error fault => (fault :: faults, tokens)

/-- The tokens of a whole text; one faulty word is enough to keep only the faults. -/
def readAll (source : List Char) : Except (List (Diagnostic Fault)) (List Token) :=
  match collect (words source) with
  | ([], tokens) => .ok tokens
  | (faults, _) => .error faults

end Token

end PriceFormula
