import PriceFormula.Prompt

/-!
This file reads the arguments of the command line and says what the command writes and how it
ends. Options and the adjustment may come in any order.
-/

namespace PriceFormula.CommandLine

inductive Price where
  | parts
  | labor

/-- The meaning of one argument before `--`. A price may bring its value along. -/
inductive Argument where
  | amount (price : Price) (value : Option (List Char))
  | undefinedAsZero
  | endOfOptions
  | adjustment
  | unknown

def Price.ofName? (name : String) : Option Price :=
  if name = "parts" then some .parts else if name = "labor" then some .labor else none

def Price.ofLetter? : Char → Option Price
  | 'p' => some .parts
  | 'l' => some .labor
  | _ => none

namespace Argument

/-- An option with a long name, whose value may follow an equals sign. -/
def ofLong (option : List Char) : Argument :=
  let name := String.ofList (option.takeWhile (· != '='))
  match option.dropWhile (· != '=') with
  | [] =>
    if name = "undefined-as-zero" then .undefinedAsZero
    else
      match Price.ofName? name with
      | some price => .amount price none
      | none => .unknown
  | _ :: value =>
    match Price.ofName? name with
    | some price => .amount price (some value)
    | none => .unknown

/-- An option of one letter, whose value may follow at once or after an equals sign. -/
def ofShort (letter : Char) (attached : List Char) : Argument :=
  match Price.ofLetter? letter with
  | none => .unknown
  | some price =>
    match attached with
    | [] => .amount price none
    | '=' :: value => .amount price (some value)
    | value => .amount price (some value)

/-- A lone dash is an adjustment like any word without a dash. -/
def ofText (text : String) : Argument :=
  match text.toList with
  | ['-', '-'] => .endOfOptions
  | '-' :: '-' :: option => ofLong option
  | '-' :: letter :: attached => ofShort letter attached
  | _ => .adjustment

end Argument

/-- What the arguments have said so far. -/
structure Draft where
  parts : Option Float := none
  labor : Option Float := none
  undefinedAsZero : Bool := false
  adjustment : Option String := none

namespace Draft

/-- A price is given once. -/
def setPrice? (draft : Draft) (price : Price) (word : List Char) : Option Draft :=
  match Number.read? word with
  | none => none
  | some value =>
    match price with
    | .parts => if draft.parts.isSome then none else some { draft with parts := some value }
    | .labor => if draft.labor.isSome then none else some { draft with labor := some value }

def setUndefinedAsZero? (draft : Draft) : Option Draft :=
  if draft.undefinedAsZero then none else some { draft with undefinedAsZero := true }

def setAdjustment? (draft : Draft) (text : String) : Option Draft :=
  if draft.adjustment.isSome then none else some { draft with adjustment := some text }

/-- Behind `--` every argument is an adjustment. -/
def readAdjustments? (draft : Draft) : List String → Option Draft
  | [] => some draft
  | text :: rest => (draft.setAdjustment? text).bind fun next => next.readAdjustments? rest

/-- A value in an argument of its own does not start with a dash. -/
def readArguments? (draft : Draft) : List String → Option Draft
  | [] => some draft
  | argument :: rest =>
    match Argument.ofText argument with
    | .unknown => none
    | .endOfOptions => draft.readAdjustments? rest
    | .undefinedAsZero => draft.setUndefinedAsZero?.bind fun next => next.readArguments? rest
    | .adjustment => (draft.setAdjustment? argument).bind fun next => next.readArguments? rest
    | .amount price (some value) =>
      (draft.setPrice? price value).bind fun next => next.readArguments? rest
    | .amount price none =>
      match rest with
      | [] => none
      | value :: rest =>
        if value.toList.head? = some '-' then none
        else (draft.setPrice? price value.toList).bind fun next => next.readArguments? rest

end Draft

structure Settings where
  quote : Quote
  policy : Policy

/-- Both prices are required. -/
def Settings.ofDraft? (draft : Draft) : Option Settings :=
  match draft.parts, draft.labor with
  | some parts, some labor =>
    some ⟨⟨parts, labor, draft.adjustment⟩, if draft.undefinedAsZero then .zero else .reject⟩
  | _, _ => none

/-- The settings that the arguments make, unless they are used wrongly. -/
def Settings.ofArguments? (arguments : List String) : Option Settings :=
  (Draft.readArguments? {} arguments).bind ofDraft?

/-- What a command wrote, and its failure if it did not succeed. -/
structure Outcome where
  output : String
  failure : Option String

namespace Outcome

def exitCode (outcome : Outcome) : Nat :=
  if outcome.failure.isSome then 1 else 0

def errorOutput (outcome : Outcome) : String :=
  match outcome.failure with
  | some message => "Error: " ++ message ++ "\n"
  | none => ""

def ofTranscript (transcript : Prompt.Transcript) : Outcome where
  output := transcript.output
  failure :=
    match transcript.ending with
    | .finished => none
    | .undecodable => some Prompt.undecodableMessage

end Outcome

/-- Prints the total of an adjusted quote, or prompts for adjustments on the input. -/
def execute (settings : Settings) (input : List UInt8) : Outcome :=
  match settings.quote.adjustment with
  | some _ =>
    match settings.quote.totalLine settings.policy with
    | .ok line => ⟨line, none⟩
    | .error failure => ⟨"", some failure.message⟩
  | none => .ofTranscript (Prompt.converse settings.policy settings.quote input)

end PriceFormula.CommandLine
