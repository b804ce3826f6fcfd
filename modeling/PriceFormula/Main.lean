import PriceFormula.CommandLine

/-!
This file runs the command. The prompt takes its turns at the standard streams, so that every
answer is written before the next line is read.
-/

namespace PriceFormula.Main

/-- The bytes up to and with the next newline; there are none at the end of the input. -/
partial def readLine (input : IO.FS.Stream) (line : List UInt8) : IO (List UInt8) := do
  match (← input.read 1).toList with
  | [] => return line.reverse
  | byte :: _ =>
    if byte = Prompt.newline then return (byte :: line).reverse
    else readLine input (byte :: line)

/-- Writes what a finished command has written and returns its exit code. -/
def finish (outcome : CommandLine.Outcome) : IO UInt32 := do
  (← IO.getStdout).putStr outcome.output
  (← IO.getStderr).putStr outcome.errorOutput
  return outcome.exitCode.toUInt32

/-- The standard streams. What is written is seen before anything is read. -/
def console : Prompt.Console IO where
  write text := do
    let output ← IO.getStdout
    output.putStr text
    output.flush
  readLine? := do
    match ← readLine (← IO.getStdin) [] with
    | [] => return none
    | line => return some line

partial def converse (settings : CommandLine.Settings) (quote : Quote) : IO UInt32 := do
  match ← Prompt.turn console settings.policy quote with
  | .ok adjusted => converse settings adjusted
  | .error ending => finish (.ofTranscript ⟨"", ending⟩)

def usage : String :=
  "usage: --parts PRICE --labor PRICE [--undefined-as-zero] [ADJUSTMENT]\n"

end PriceFormula.Main

open PriceFormula in
/-- Runs the command with its arguments; wrong use of them ends with exit code two. -/
def main (arguments : List String) : IO UInt32 := do
  match CommandLine.Settings.ofArguments? arguments with
  | none =>
    (← IO.getStderr).putStr Main.usage
    return 2
  | some settings =>
    match settings.quote.adjustment with
    | some _ => Main.finish (CommandLine.execute settings [])
    | none => Main.converse settings settings.quote
