import Mathlib.Data.Option.Basic
import PriceFormula.Proofs.Scanning

/-!
This file reads the reports about invalid words back. The words stand in the report as they are,
but no word holds a newline, so every line is about one word. The main statement is that a report
determines all invalid words and their columns.
-/

namespace PriceFormula

open Text

namespace Diagnostic

variable {Cause : Type} [ToString Cause]

/-- Causes of one line each are reported in lines of their own. -/
theorem splitOn_report {diagnostics : List (Diagnostic Cause)} (filled : diagnostics ≠ [])
    (single : ∀ diagnostic ∈ diagnostics, '\n' ∉ diagnostic.text.toList) :
    (report diagnostics).toList.splitOn '\n' =
      diagnostics.map fun diagnostic => diagnostic.text.toList := by
  have whole : (report diagnostics).toList =
      ['\n'].intercalate (diagnostics.map fun diagnostic => diagnostic.text.toList) := by
    rw [report, String.toList_intercalate, List.map_map]
    rfl
  rw [whole]
  refine List.splitOn_intercalate '\n' (List.forall_mem_map.2 single) ?_
  rwa [ne_eq, List.map_eq_nil_iff]

end Diagnostic

namespace Token

/-- The words of a text that are no tokens, at their columns. -/
def invalidWords (text : List Char) : List (Located (List Char)) :=
  (locatedWords text).filter fun word => (classify? word.content).isNone

/-- The invalid words are the longest pieces without blanks that are no valid words. -/
theorem mem_invalidWords_iff {text : List Char} {word : Located (List Char)} :
    word ∈ invalidWords text ↔ IsLongestPiece text word ∧ ¬ IsWord word.content := by
  rw [invalidWords, List.mem_filter, mem_locatedWords_iff, ← classify?_isSome_iff,
    Option.not_isSome_iff_eq_none, Option.isNone_iff_eq_none]

/-- A text is refused for its invalid words and for nothing else. -/
theorem readAll_eq_error_iff {text : List Char} {faults : List (Diagnostic Fault)} :
    readAll text = .error faults ↔
      invalidWords text ≠ [] ∧ faults = (invalidWords text).map invalidWord := by
  by_cases valid : ∀ word ∈ wordList text, IsWord word
  · obtain ⟨tokens, read, _⟩ := readAll_of_valid valid
    have none : invalidWords text = [] := by
      rw [List.eq_nil_iff_forall_not_mem]
      intro word member
      obtain ⟨piece, invalid⟩ := mem_invalidWords_iff.1 member
      exact invalid (valid _ (List.mem_map_of_mem (mem_locatedWords_iff.2 piece)))
    simp [read, none]
  · have refused := readAll_of_invalid valid
    have filled : invalidWords text ≠ [] := by
      intro none
      refine valid fun word member => ?_
      obtain ⟨located, inside, rfl⟩ := List.mem_map.1 member
      by_contra invalid
      have reported := mem_invalidWords_iff.2 ⟨mem_locatedWords_iff.1 inside, invalid⟩
      rw [none] at reported
      cases reported
    rw [refused, Except.error.injEq, eq_comm]
    exact (and_iff_right filled).symm

/-! ### Lines about invalid words -/

/-- Reads the column and the word from a line of a report. The digits in front end the column, and
the last quote ends the word, whatever stands in it. -/
def readLine? (line : List Char) : Option (Located (List Char)) := do
  let numbered ← line.dropPrefix? "error (c. ".toList
  let framed ← (numbered.dropWhile Char.isDigit).dropPrefix? "): Invalid token '".toList
  let word ← framed.dropSuffix? "'".toList
  return ⟨Nat.ofDigitChars 10 (numbered.takeWhile Char.isDigit) 0, word⟩

/-- A line gives the column and the word. -/
theorem toList_text_invalidWord (word : Located (List Char)) :
    (invalidWord word).text.toList =
      "error (c. ".toList ++ (Nat.toDigits 10 word.column ++
        ("): Invalid token '".toList ++ (word.content ++ "'".toList))) := by
  change ("error (c. " ++ toString word.column ++ "): " ++
    ("Invalid token '" ++ String.ofList word.content ++ "'")).toList = _
  simp only [String.toList_append, String.toList_ofList, Nat.toString_eq_repr, Nat.toList_repr,
    List.append_assoc]
  rfl

/-- The word is read back from its line. -/
theorem readLine?_text (word : Located (List Char)) :
    readLine? (invalidWord word).text.toList = some word := by
  have numeric : ∀ char ∈ Nat.toDigits 10 word.column, char.isDigit :=
    fun _ => Nat.isDigit_of_mem_toDigits (by decide) (by decide)
  -- the column ends where its digits do, even when the word itself has digits in front
  have stops : ∀ char ∈ ("): Invalid token '".toList ++ (word.content ++ "'".toList)).head?,
      ¬ char.isDigit := by
    rintro _ ⟨⟩
    decide
  obtain ⟨digits, behind⟩ := takeWhile_append_of_head numeric stops
  have closed : (word.content ++ "'".toList).dropSuffix? "'".toList = some word.content :=
    List.dropSuffix?_eq_some_iff.2 ⟨_, rfl, beq_self_eq_true _⟩
  have opened (start rest : List Char) : (start ++ rest).dropPrefix? start = some rest :=
    List.dropPrefix?_append_of_beq rest (beq_self_eq_true start)
  simp only [readLine?, toList_text_invalidWord, opened, digits, behind, closed,
    Nat.ofDigitChars_ten_toDigits, Option.bind_eq_bind, Option.bind_some, Option.pure_def]

/-- A line about a word without blanks is a single line. -/
theorem newline_not_mem_text {text : List Char} {word : Located (List Char)}
    (member : word ∈ invalidWords text) : '\n' ∉ (invalidWord word).text.toList := by
  obtain ⟨_, _, _, _, enclosed⟩ := (mem_invalidWords_iff.1 member).1
  have noDigit : '\n' ∉ Nat.toDigits 10 word.column := by
    intro inside
    have digit := Nat.isDigit_of_mem_toDigits (by decide) (by decide) inside
    exact absurd digit (by decide)
  have noLetter : '\n' ∉ word.content := by
    intro inside
    exact absurd (enclosed.visible '\n' inside) (by decide)
  simp [toList_text_invalidWord, noDigit, noLetter]

/-- A report has one line for each invalid word. -/
theorem splitOn_report_of_readAll {text : List Char} {faults : List (Diagnostic Fault)}
    (refused : readAll text = .error faults) :
    (Diagnostic.report faults).toList.splitOn '\n' =
      (invalidWords text).map fun word => (invalidWord word).text.toList := by
  obtain ⟨filled, rfl⟩ := readAll_eq_error_iff.1 refused
  rw [Diagnostic.splitOn_report, List.map_map]
  · rfl
  · rwa [ne_eq, List.map_eq_nil_iff]
  · exact List.forall_mem_map.2 fun _ => newline_not_mem_text

/-- The invalid words are read back from the report. -/
theorem readLine?_report {text : List Char} {faults : List (Diagnostic Fault)}
    (refused : readAll text = .error faults) :
    ((Diagnostic.report faults).toList.splitOn '\n').map readLine? =
      (invalidWords text).map some := by
  rw [splitOn_report_of_readAll refused, List.map_map]
  exact List.map_congr_left fun word _ => readLine?_text word

/-- The report about a text has one line for every invalid word, from left to right, and the column
and the word can be read from the line. So two texts have the same report just when they have the
same invalid words at the same columns. -/
theorem report_determines_invalid_words :
    (∀ text faults, readAll text = .error faults →
      (∀ word, word ∈ invalidWords text ↔ IsLongestPiece text word ∧ ¬ IsWord word.content) ∧
      ((invalidWords text).Pairwise fun first second => first.column < second.column) ∧
      ((Diagnostic.report faults).toList.splitOn '\n' =
        (invalidWords text).map fun word => (invalidWord word).text.toList) ∧
      ((Diagnostic.report faults).toList.splitOn '\n').map readLine? =
        (invalidWords text).map some) ∧
    ∀ first second faults others, readAll first = .error faults → readAll second = .error others →
      (Diagnostic.report faults = Diagnostic.report others ↔
        invalidWords first = invalidWords second) := by
  constructor
  · intro text faults refused
    exact ⟨fun _ => mem_invalidWords_iff, (pairwise_wordsFrom 1 false text).filter _,
      splitOn_report_of_readAll refused, readLine?_report refused⟩
  · intro first second faults others refused alsoRefused
    constructor
    · intro same
      have words := readLine?_report refused
      rw [same, readLine?_report alsoRefused] at words
      exact (List.map_injective_iff.2 (Option.some_injective _) words).symm
    · intro same
      rw [(readAll_eq_error_iff.1 refused).2, (readAll_eq_error_iff.1 alsoRefused).2, same]

/-- A word that ends like a line, and words that start and go on like one. -/
theorem report_of_words_like_lines :
    let faults : List (Diagnostic Fault) :=
      [⟨3, .invalidToken "'):"⟩, ⟨13, .invalidToken "(c."⟩, ⟨17, .invalidToken "3)"⟩]
    readAll "2 '): error (c. 3)".toList = .error faults ∧
    ((Diagnostic.report faults).toList.splitOn '\n').map readLine? =
      [some ⟨3, "'):".toList⟩, some ⟨13, "(c.".toList⟩, some ⟨17, "3)".toList⟩] ∧
    readAll "\t '): error (c. 3)\n".toList = .error faults ∧
    invalidWords "\t '): error (c. 3)\n".toList = invalidWords "2 '): error (c. 3)".toList := by
  intro faults
  have words : invalidWords "2 '): error (c. 3)".toList =
      [⟨3, "'):".toList⟩, ⟨13, "(c.".toList⟩, ⟨17, "3)".toList⟩] := by decide
  have otherWords : invalidWords "\t '): error (c. 3)\n".toList =
      [⟨3, "'):".toList⟩, ⟨13, "(c.".toList⟩, ⟨17, "3)".toList⟩] := by decide
  have refused : readAll "2 '): error (c. 3)".toList = .error faults :=
    readAll_eq_error_iff.2 ⟨by rw [words]; exact List.cons_ne_nil _ _, by rw [words]; rfl⟩
  have alsoRefused : readAll "\t '): error (c. 3)\n".toList = .error faults :=
    readAll_eq_error_iff.2 ⟨by rw [otherWords]; exact List.cons_ne_nil _ _, by rw [otherWords]; rfl⟩
  obtain ⟨_, _, _, lines⟩ := report_determines_invalid_words.1 _ _ refused
  rw [words] at lines
  exact ⟨refused, lines, alsoRefused,
    (report_determines_invalid_words.2 _ _ _ _ alsoRefused refused).1 rfl⟩

end Token

end PriceFormula
