import PriceFormula.Quote

/-!
This file answers adjustments line by line. A sign is written before each line is read, and a
line that cannot be decoded ends the conversation. A turn is the same at the standard streams and
over lines that are known beforehand.
-/

namespace PriceFormula.Prompt

open Text

def sign : String := "> "

def newline : UInt8 := 10

/-- The lines of an input; a line keeps its newline, which only the last one may lack. -/
def lines : List UInt8 → List (List UInt8)
  | [] => []
  | byte :: rest =>
    if byte = newline then [byte] :: lines rest
    else
      match lines rest with
      | [] => [[byte]]
      | line :: following => (byte :: line) :: following

/-- The text of a line, if its bytes are valid UTF-8. -/
def decode? (line : List UInt8) : Option String :=
  String.fromUTF8? ⟨line.toArray⟩

/-- The adjustment on a line; blanks around it do not count, and a blank line has none. -/
def adjustment? (line : String) : Option String :=
  match trim line.toList with
  | [] => none
  | text => some (String.ofList text)

/-- The total of a quote, or the reason why there is none, on lines of their own. -/
def answer (policy : Policy) (quote : Quote) : String :=
  match quote.totalLine policy with
  | .ok line => line
  | .error failure => failure.message ++ "\n"

inductive Ending where
  | finished
  | undecodable
  deriving DecidableEq

def undecodableMessage : String := "stream did not contain valid UTF-8"

/-- All that was written, and how the conversation ended. -/
structure Transcript where
  output : String
  ending : Ending

/-- The quote that a line leaves and the answer to the line, if it can be decoded. -/
def respond? (policy : Policy) (quote : Quote) (line : List UInt8) : Option (Quote × String) :=
  (decode? line).map fun text =>
    let adjusted := quote.adjust (adjustment? text)
    (adjusted, answer policy adjusted)

/-- Where a conversation takes place. At the end of the input there is no line. -/
structure Console (m : Type → Type) where
  write : String → m Unit
  readLine? : m (Option (List UInt8))

section Turn

variable {m : Type → Type} [Monad m] (console : Console m) (policy : Policy) (quote : Quote)

/-- Answers what was read. The conversation goes on with the adjusted quote, or it ends. -/
def settle : Option (List UInt8) → m (Except Ending Quote)
  | none => return .error .finished
  | some line =>
    match respond? policy quote line with
    | none => return .error .undecodable
    | some (adjusted, response) => do
      console.write response
      return .ok adjusted

/-- One turn: behind a sign a line is read, and what was read is answered. -/
def turn : m (Except Ending Quote) := do
  console.write sign
  settle console policy quote (← console.readLine?)

end Turn

/-- The lines that are still to be read, and all that was written. -/
structure Tape where
  pending : List (List UInt8)
  output : String

namespace Tape

/-- A conversation over lines that are all known before it begins. -/
def console : Console (StateM Tape) where
  write text := modify fun tape => { tape with output := tape.output ++ text }
  readLine? :=
    modifyGet fun tape => (tape.pending.head?, { tape with pending := tape.pending.tail })

variable (policy : Policy) (quote : Quote) (output : String)

/-- The sign is also written at the end of the input. -/
theorem turn_nil :
    (turn console policy quote).run ⟨[], output⟩ = (.error .finished, ⟨[], output ++ sign⟩) := rfl

/-- A turn takes the next line, and it writes nothing for bytes that are no text. -/
theorem turn_cons (line : List UInt8) (following : List (List UInt8)) :
    (turn console policy quote).run ⟨line :: following, output⟩ =
      match respond? policy quote line with
      | none => (.error .undecodable, ⟨following, output ++ sign⟩)
      | some (adjusted, response) => (.ok adjusted, ⟨following, output ++ sign ++ response⟩) := by
  have read : (turn console policy quote).run ⟨line :: following, output⟩ =
      (settle console policy quote (some line)).run ⟨following, output ++ sign⟩ := rfl
  rw [read, settle]
  cases respond? policy quote line <;> rfl

/-- As long as a conversation goes on, every turn takes one line. -/
theorem length_pending_lt {policy : Policy} {quote adjusted : Quote} {tape next : Tape}
    (turned : (turn console policy quote).run tape = (.ok adjusted, next)) :
    next.pending.length < tape.pending.length := by
  obtain ⟨pending, output⟩ := tape
  cases pending with
  | nil => cases turned
  | cons line following =>
      rw [turn_cons] at turned
      split at turned
      · cases turned
      · cases turned
        exact Nat.lt_succ_self _

end Tape

/-- Takes turns over the lines until the conversation ends. The quote keeps the adjustment of the
latest line. -/
def answerLines (policy : Policy) (quote : Quote) (output : String)
    (lines : List (List UInt8)) : Transcript :=
  match _turned : (turn Tape.console policy quote).run ⟨lines, output⟩ with
  | (.error ending, tape) => ⟨tape.output, ending⟩
  | (.ok adjusted, tape) => answerLines policy adjusted tape.output tape.pending
termination_by lines.length
decreasing_by exact Tape.length_pending_lt _turned

section Lines

variable {policy : Policy} {quote : Quote} {output : String} {lines : List (List UInt8)}

/-- The conversation ends with the turn that ends it. -/
theorem answerLines_of_ending {ending : Ending} {tape : Tape}
    (turned : (turn Tape.console policy quote).run ⟨lines, output⟩ = (.error ending, tape)) :
    answerLines policy quote output lines = ⟨tape.output, ending⟩ := by
  rw [answerLines, turned]

/-- Any other turn is followed by the next one. -/
theorem answerLines_of_adjusted {adjusted : Quote} {tape : Tape}
    (turned : (turn Tape.console policy quote).run ⟨lines, output⟩ = (.ok adjusted, tape)) :
    answerLines policy quote output lines =
      answerLines policy adjusted tape.output tape.pending := by
  rw [answerLines, turned]

end Lines

/-- Behind the last line only the sign is written. -/
theorem answerLines_nil (policy : Policy) (quote : Quote) (output : String) :
    answerLines policy quote output [] = ⟨output ++ sign, .finished⟩ :=
  answerLines_of_ending (Tape.turn_nil policy quote output)

/-- The first line decides whether those behind it are answered. -/
theorem answerLines_cons (policy : Policy) (quote : Quote) (output : String) (line : List UInt8)
    (following : List (List UInt8)) :
    answerLines policy quote output (line :: following) =
      match respond? policy quote line with
      | none => ⟨output ++ sign, .undecodable⟩
      | some (adjusted, response) =>
        answerLines policy adjusted (output ++ sign ++ response) following := by
  have turned := Tape.turn_cons policy quote output line following
  cases answered : respond? policy quote line with
  | none =>
      rw [answered] at turned
      exact answerLines_of_ending turned
  | some response =>
      rw [answered] at turned
      exact answerLines_of_adjusted turned

/-- The whole conversation over an input. -/
def converse (policy : Policy) (quote : Quote) (input : List UInt8) : Transcript :=
  answerLines policy quote "" (lines input)

end PriceFormula.Prompt
