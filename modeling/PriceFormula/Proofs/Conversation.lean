import Mathlib.Data.List.DropRight
import PriceFormula.Prompt

/-!
This file describes whole conversations at the prompt. The adjustment of the latest line stays in
the quote, and a failing line writes its reason. The main statement is that nothing of this
reaches the following lines: a conversation is made of independent answers, one for each line up
to the first that is not text.
-/

namespace PriceFormula.Prompt

open Text

/-! ### Lines of an input -/

/-- Every line ends with its only newline, which only the last line may lack. No line is empty. -/
inductive AreLines : List UInt8 → List (List UInt8) → Prop where
  | nil : AreLines [] []
  | last {line : List UInt8} (filled : line ≠ []) (single : newline ∉ line) : AreLines line [line]
  | cons {line rest : List UInt8} {pieces : List (List UInt8)} (single : newline ∉ line)
      (following : AreLines rest pieces) :
      AreLines (line ++ newline :: rest) ((line ++ [newline]) :: pieces)

/-- Every input is cut into lines. -/
theorem areLines_lines (input : List UInt8) : AreLines input (lines input) := by
  induction input with
  | nil => exact .nil
  | cons byte rest inductionHypothesis =>
      rw [lines]
      split
      · next same =>
        subst same
        have none : newline ∉ [] := List.not_mem_nil
        exact .cons none inductionHypothesis
      · next differs =>
        -- The byte joins the first line of the rest. Where there is none, it is the only line.
        generalize lines rest = pieces at inductionHypothesis
        have outside {line : List UInt8} (single : newline ∉ line) : newline ∉ byte :: line :=
          List.not_mem_cons_of_ne_of_not_mem (Ne.symm differs) single
        cases inductionHypothesis with
        | nil => exact .last (List.cons_ne_nil _ _) (outside List.not_mem_nil)
        | last _ single => exact .last (List.cons_ne_nil _ _) (outside single)
        | cons single following => exact .cons (outside single) following

/-- Without a newline there is one line. -/
theorem lines_of_single {line : List UInt8} (filled : line ≠ []) (single : newline ∉ line) :
    lines line = [line] := by
  induction line with
  | nil => exact absurd rfl filled
  | cons byte rest inductionHypothesis =>
      rw [List.mem_cons, not_or] at single
      rw [lines, if_neg (Ne.symm single.1)]
      cases rest with
      | nil => rfl
      | cons next rest => rw [inductionHypothesis (List.cons_ne_nil next rest) single.2]

/-- The first newline ends the first line. -/
theorem lines_append_newline {line : List UInt8} (single : newline ∉ line) (rest : List UInt8) :
    lines (line ++ newline :: rest) = (line ++ [newline]) :: lines rest := by
  induction line with
  | nil => rw [List.nil_append, lines, if_pos rfl, List.nil_append]
  | cons byte line inductionHypothesis =>
      rw [List.mem_cons, not_or] at single
      rw [List.cons_append, lines, if_neg (Ne.symm single.1), inductionHypothesis single.2]
      rfl

/-- An input has lines in one way only. -/
theorem AreLines.eq_lines {input : List UInt8} {pieces : List (List UInt8)}
    (cut : AreLines input pieces) : pieces = lines input := by
  induction cut with
  | nil => rfl
  | last filled single => exact (lines_of_single filled single).symm
  | cons single _ inductionHypothesis => rw [lines_append_newline single, inductionHypothesis]

/-- The lines of a further input follow if the last line has its newline. -/
theorem AreLines.append {input more : List UInt8} {pieces others : List (List UInt8)}
    (cut : AreLines input pieces) (ended : input.getLast? = some newline)
    (further : AreLines more others) : AreLines (input ++ more) (pieces ++ others) := by
  induction cut with
  | nil => cases ended
  | last _ single => exact absurd (List.mem_of_getLast? ended) single
  | @cons line rest pieces single following inductionHypothesis =>
      rw [List.append_assoc, List.cons_append]
      refine .cons single ?_
      -- The rest is empty, or it ends with the same newline.
      cases rest with
      | nil => rwa [following.eq_lines]
      | cons next rest =>
          refine inductionHypothesis ?_
          rw [← ended, List.getLast?_append_of_ne_nil _ (List.cons_ne_nil _ _),
            List.getLast?_cons_cons]

/-! ### Encoded texts -/

/-- The UTF-8 form of a text. -/
def encode (text : String) : List UInt8 :=
  text.toList.flatMap String.utf8EncodeChar

/-- Decoding inverts encoding. -/
theorem decode?_eq_some_iff {line : List UInt8} {text : String} :
    decode? line = some text ↔ line = encode text := by
  have bytes : (⟨line.toArray⟩ : ByteArray) = line.toByteArray :=
    ByteArray.ext List.data_toByteArray.symm
  have encoded (text : String) : (encode text).toByteArray = text.toByteArray :=
    String.utf8Encode_toList
  rw [decode?, bytes, String.fromUTF8?, ← List.toByteArray_inj, encoded]
  constructor
  · intro decoded
    split at decoded
    · cases decoded
      rfl
    · cases decoded
  · intro same
    rw [dif_pos (same ▸ text.isValidUTF8)]
    exact congrArg some (String.toByteArray_inj.1 same)

/-- Bytes are undecodable only if they are those of no text. -/
theorem decode?_eq_none_iff {line : List UInt8} :
    decode? line = none ↔ ∀ text, line ≠ encode text := by
  simp only [Option.eq_none_iff_forall_ne_some, ne_eq, decode?_eq_some_iff]

/-- The byte of a newline is part of no other character. -/
theorem eq_newline_of_mem_utf8EncodeChar {char : Char}
    (member : newline ∈ String.utf8EncodeChar char) : char = '\n' := by
  have small : char.val.toNat < 4294967296 := char.val.toNat_lt
  have low {value : Nat} (same : newline = UInt8.ofNat value) : value % 256 = 10 := by
    rw [← UInt8.toNat_inj, UInt8.toNat_ofNat'] at same
    exact same.symm
  apply Char.toNat_inj.1
  change char.val.toNat = 10
  -- A single byte is the character itself, and two or more bytes are at least 128.
  dsimp only [String.utf8EncodeChar] at member
  split_ifs at member with one two three
  all_goals simp only [List.mem_cons, List.not_mem_nil, or_false] at member
  · have byte := low member
    omega
  · rcases member with same | same
    all_goals
      have byte := low same
      omega
  · rcases member with same | same | same
    all_goals
      have byte := low same
      omega
  · rcases member with same | same | same | same
    all_goals
      have byte := low same
      omega

/-- Bytes at the start that are no newlines stand in front of the newline. -/
theorem exists_tail_of_not_mem {front others line rest : List UInt8} (none : newline ∉ front)
    (whole : line ++ newline :: rest = front ++ others) :
    ∃ tail, line = front ++ tail ∧ tail ++ newline :: rest = others := by
  rcases List.append_eq_append_iff.1 whole with ⟨past, same, left⟩ | ⟨tail, same, left⟩
  · cases past with
    | nil => exact ⟨[], by rw [same, List.append_nil, List.append_nil], left⟩
    | cons byte past =>
        rw [(List.cons.inj left).1, same] at none
        exact absurd (List.mem_append_right line List.mem_cons_self) none
  · exact ⟨tail, same, left.symm⟩

/-- A newline byte in an encoded text is a newline of the text. -/
theorem exists_split_of_encoded {text : List Char} {line rest : List UInt8}
    (single : newline ∉ line)
    (encoded : line ++ newline :: rest = text.flatMap String.utf8EncodeChar) :
    ∃ before after, text = before ++ '\n' :: after ∧
      line = before.flatMap String.utf8EncodeChar ∧
      rest = after.flatMap String.utf8EncodeChar := by
  induction text generalizing line with
  | nil => simp at encoded
  | cons char text inductionHypothesis =>
      rw [List.flatMap_cons] at encoded
      by_cases same : char = '\n'
      · subst same
        cases line with
        | nil => exact ⟨[], text, rfl, rfl, (List.cons.inj encoded).2⟩
        | cons byte line =>
            have start : byte = newline := (List.cons.inj encoded).1
            exact absurd (start ▸ List.mem_cons_self) single
      · -- The whole character stands in front of the newline, so it belongs to the line.
        have none : newline ∉ String.utf8EncodeChar char :=
          fun member => same (eq_newline_of_mem_utf8EncodeChar member)
        obtain ⟨tail, rfl, behind⟩ := exists_tail_of_not_mem none encoded
        obtain ⟨before, after, rfl, rfl, rfl⟩ :=
          inductionHypothesis (fun member => single (List.mem_append_right _ member)) behind
        exact ⟨char :: before, after, rfl, List.flatMap_cons.symm, rfl⟩

/-- Cutting an encoded text into lines cuts no character. -/
theorem AreLines.exists_texts {text : List Char} {pieces : List (List UInt8)}
    (cut : AreLines (text.flatMap String.utf8EncodeChar) pieces) :
    ∃ texts : List String, pieces = texts.map encode := by
  generalize encoded : text.flatMap String.utf8EncodeChar = input at cut
  induction cut generalizing text with
  | nil => exact ⟨[], rfl⟩
  | last _ _ =>
      refine ⟨[String.ofList text], ?_⟩
      rw [← encoded, List.map_singleton, encode, String.toList_ofList]
  | cons single _ inductionHypothesis =>
      obtain ⟨before, after, rfl, rfl, rfl⟩ := exists_split_of_encoded single encoded.symm
      obtain ⟨texts, rfl⟩ := inductionHypothesis rfl
      refine ⟨String.ofList (before ++ ['\n']) :: texts, ?_⟩
      rw [List.map_cons, encode, String.toList_ofList, List.flatMap_append]
      rfl

/-! ### Trimmed texts -/

/-- The middle is the text without the blanks at both ends. -/
structure Trims (text middle : List Char) : Prop where
  around : ∃ before after, text = before ++ middle ++ after ∧
    (∀ char ∈ before, isBlank char) ∧ ∀ char ∈ after, isBlank char
  first : ∀ char ∈ middle.head?, ¬ isBlank char
  last : ∀ char ∈ middle.getLast?, ¬ isBlank char

/-- The blanks at both ends are all that is removed. -/
theorem append_trim (text : List Char) :
    text.takeWhile isBlank ++ (trim text ++ (text.dropWhile isBlank).rtakeWhile isBlank) =
      text := by
  have cut : trim text ++ (text.dropWhile isBlank).rtakeWhile isBlank = text.dropWhile isBlank :=
    List.rdropWhile_append_rtakeWhile
  rw [cut, List.takeWhile_append_dropWhile]

/-- Trimming leaves no blanks at the ends and removes nothing else. -/
theorem trims_trim (text : List Char) : Trims text (trim text) where
  around := by
    refine ⟨text.takeWhile isBlank, (text.dropWhile isBlank).rtakeWhile isBlank, ?_,
      fun _ => List.mem_takeWhile_imp, fun _ => List.mem_rtakeWhile_imp⟩
    rw [List.append_assoc, append_trim]
  first := by
    intro char member
    have start : trim text <+: text.dropWhile isBlank := List.rdropWhile_prefix isBlank _
    obtain ⟨rest, whole⟩ := start
    have head := List.head?_dropWhile_not isBlank text
    rw [← whole, List.head?_append, member] at head
    simpa using head
  last := by
    intro char member
    obtain ⟨filled, rfl⟩ := List.mem_getLast?_eq_getLast member
    exact List.rdropWhile_last_not isBlank _ filled

/-- A text has one middle only. -/
theorem Trims.eq_trim {text middle : List Char} (trims : Trims text middle) :
    middle = trim text := by
  obtain ⟨⟨before, after, rfl, leading, trailing⟩, first, last⟩ := trims
  have visible {text : List Char} (first : ∀ char ∈ text.head?, ¬ isBlank char) :
      text.dropWhile isBlank = text := by
    cases text with
    | nil => rfl
    | cons char rest => exact List.dropWhile_cons_of_neg (first char rfl)
  rw [trim, List.append_assoc, List.dropWhile_append_of_pos leading]
  cases middle with
  | nil => rw [List.nil_append, List.dropWhile_eq_nil_iff.2 trailing]; rfl
  | cons char rest =>
      rw [List.cons_append, List.dropWhile_cons_of_neg (first char rfl), ← List.cons_append,
        List.reverse_append, List.dropWhile_append_of_pos fun char member =>
          trailing char (List.mem_reverse.1 member),
        visible (by rwa [List.head?_reverse]), List.reverse_reverse]

/-! ### Answers -/

/-- The answer to a line of text is its total, or the reason why there is none. -/
def reply (policy : Policy) (parts labor : Float) (text : String) : String :=
  match (Quote.mk parts labor (adjustment? text)).total policy with
  | .ok total => Number.text total
  | .error failure => failure.message

/-- All that is written for lines of text, each with a sign in front and a newline behind. -/
def script (policy : Policy) (parts labor : Float) (texts : List String) : String :=
  String.join (texts.map fun text => sign ++ reply policy parts labor text ++ "\n")

/-- The answer to the first line comes first. -/
theorem script_cons (policy : Policy) (parts labor : Float) (text : String)
    (texts : List String) :
    script policy parts labor (text :: texts) =
      sign ++ reply policy parts labor text ++ "\n" ++ script policy parts labor texts := by
  rw [script, List.map_cons, String.join_cons]
  rfl

variable (policy : Policy) (quote : Quote) (output : String)

/-- A line of text is always answered, be it with a total or with a failure. -/
theorem respond?_encode (text : String) :
    respond? policy quote (encode text) = some (quote.adjust (adjustment? text),
      reply policy quote.parts quote.labor text ++ "\n") := by
  rw [respond?, decode?_eq_some_iff.2 rfl, Option.map_some]
  simp only [Quote.adjust, answer, Quote.totalLine, reply]
  cases (Quote.mk quote.parts quote.labor (adjustment? text)).total policy <;> rfl

/-- Every line replaces the adjustment before anything is calculated. -/
theorem answerLines_adjust (adjustment : Option String) (pieces : List (List UInt8)) :
    answerLines policy (quote.adjust adjustment) output pieces =
      answerLines policy quote output pieces := by
  cases pieces with
  | nil => rw [answerLines_nil, answerLines_nil]
  | cons line following =>
      rw [answerLines_cons, answerLines_cons]
      rfl

/-- What was written before stays in front. -/
theorem answerLines_output (pieces : List (List UInt8)) :
    answerLines policy quote output pieces =
      ⟨output ++ (answerLines policy quote "" pieces).output,
        (answerLines policy quote "" pieces).ending⟩ := by
  induction pieces generalizing quote output with
  | nil => rw [answerLines_nil, answerLines_nil, String.empty_append]
  | cons line following inductionHypothesis =>
      rw [answerLines_cons, answerLines_cons]
      cases respond? policy quote line with
      | none => rw [String.empty_append]
      | some response =>
          obtain ⟨adjusted, written⟩ := response
          dsimp only
          rw [inductionHypothesis adjusted (output ++ sign ++ written),
            inductionHypothesis adjusted ("" ++ sign ++ written)]
          simp only [String.empty_append, String.append_assoc]

/-- Lines of text leave the quote as it was but for its adjustment, and the lines that follow
are answered over it. -/
theorem answerLines_encoded (texts : List String) (following : List (List UInt8)) :
    answerLines policy quote output (texts.map encode ++ following) =
      answerLines policy quote (output ++ script policy quote.parts quote.labor texts)
        following := by
  induction texts generalizing output with
  | nil =>
      have none : script policy quote.parts quote.labor [] = "" := String.join_nil
      rw [none, String.append_empty, List.map_nil, List.nil_append]
  | cons text texts inductionHypothesis =>
      rw [List.map_cons, List.cons_append, answerLines_cons, respond?_encode]
      dsimp only
      rw [answerLines_adjust, inductionHypothesis, script_cons]
      simp only [String.append_assoc]

variable {policy quote} {input : List UInt8} {texts : List String}

/-- Over lines of text the conversation comes to its end. -/
theorem converse_of_encoded (cut : AreLines input (texts.map encode)) :
    converse policy quote input =
      ⟨script policy quote.parts quote.labor texts ++ sign, .finished⟩ := by
  have answered := answerLines_encoded policy quote "" texts []
  rw [List.append_nil, cut.eq_lines, String.empty_append] at answered
  rw [converse, answered, answerLines_nil]

/-- Nothing is read behind the first line that is no text. -/
theorem converse_of_undecodable {line : List UInt8} {following : List (List UInt8)}
    (cut : AreLines input (texts.map encode ++ line :: following))
    (undecodable : ∀ text, line ≠ encode text) :
    converse policy quote input =
      ⟨script policy quote.parts quote.labor texts ++ sign, .undecodable⟩ := by
  rw [converse, ← cut.eq_lines, answerLines_encoded, String.empty_append, answerLines_cons,
    respond?, decode?_eq_none_iff.2 undecodable, Option.map_none]

/-- A further input is answered as if it came alone. -/
theorem converse_append (cut : AreLines input (texts.map encode))
    (ended : input.getLast? = some newline) (more : List UInt8) (latest : Option String) :
    converse policy quote (input ++ more) =
      ⟨script policy quote.parts quote.labor texts ++
          (converse policy (quote.adjust latest) more).output,
        (converse policy (quote.adjust latest) more).ending⟩ := by
  rw [converse, ← (cut.append ended (areLines_lines more)).eq_lines, answerLines_encoded,
    String.empty_append, answerLines_output, converse, answerLines_adjust]

/-- A line of blanks holds no adjustment, and any other line holds its middle. -/
theorem adjustment?_of_trims {text : String} {middle : List Char}
    (trims : Trims text.toList middle) :
    adjustment? text = if middle = [] then none else some (String.ofList middle) := by
  rw [adjustment?, ← trims.eq_trim]
  cases middle <;> rfl

/-- An input has lines in one way only, and each line has one adjustment between its blanks. The
answers to lines of text are written one after the other up to the first line that is none. They
depend neither on the first adjustment nor on each other, so that an input after the end of a
line is answered as if it came alone. -/
theorem converse_answers_each_line (policy : Policy) (parts labor : Float)
    (adjustment : Option String) (input : List UInt8) :
    (∃! pieces, AreLines input pieces) ∧
    (∀ text : String, ∃! middle, Trims text.toList middle) ∧
    (∀ (text : String) (middle : List Char), Trims text.toList middle →
      adjustment? text = if middle = [] then none else some (String.ofList middle)) ∧
    (∀ texts, AreLines input (texts.map encode) →
      converse policy ⟨parts, labor, adjustment⟩ input =
        ⟨script policy parts labor texts ++ sign, .finished⟩) ∧
    (∀ texts line following, AreLines input (texts.map encode ++ line :: following) →
      (∀ text, line ≠ encode text) →
      converse policy ⟨parts, labor, adjustment⟩ input =
        ⟨script policy parts labor texts ++ sign, .undecodable⟩) ∧
    ∀ text more latest, input = encode text → input.getLast? = some newline →
      ∃ written,
        converse policy ⟨parts, labor, adjustment⟩ input = ⟨written ++ sign, .finished⟩ ∧
        converse policy ⟨parts, labor, adjustment⟩ (input ++ more) =
          ⟨written ++ (converse policy ⟨parts, labor, latest⟩ more).output,
            (converse policy ⟨parts, labor, latest⟩ more).ending⟩ := by
  refine ⟨⟨lines input, areLines_lines input, fun _ cut => cut.eq_lines⟩,
    fun text => ⟨trim text.toList, trims_trim text.toList, fun _ trims => trims.eq_trim⟩,
    fun _ _ trims => adjustment?_of_trims trims, fun _ cut => converse_of_encoded cut,
    fun _ _ _ cut undecodable => converse_of_undecodable cut undecodable, ?_⟩
  rintro text more latest rfl ended
  have cut : AreLines (encode text) (lines (encode text)) := areLines_lines (encode text)
  obtain ⟨texts, texted⟩ := AreLines.exists_texts cut
  rw [texted] at cut
  exact ⟨script policy parts labor texts, converse_of_encoded cut,
    converse_append cut ended more latest⟩

/-- A line with a fault is answered, and the conversation goes on to the bytes that are no text. -/
theorem converse_undecodable_after_failure :
    let failing : List UInt8 := [42, 32, 112, 10]
    let undecodable : List UInt8 := [112, 255]
    let quote : Quote := ⟨145, 45, none⟩
    adjustment? "* p\n" = some "* p" ∧
    converse .reject quote failing =
      ⟨"> error (c. 1): Expected operand before '*'\n> ", .finished⟩ ∧
    converse .reject quote (failing ++ undecodable) =
      ⟨"> error (c. 1): Expected operand before '*'\n> ", .undecodable⟩ ∧
    ∃ written,
      converse .reject quote failing = ⟨written ++ sign, .finished⟩ ∧
      converse .reject quote (failing ++ undecodable) =
        ⟨written ++ (converse .reject quote undecodable).output,
          (converse .reject quote undecodable).ending⟩ := by
  intro failing undecodable quote
  have encoded : failing = encode "* p\n" := by decide
  have cut : AreLines failing (["* p\n"].map encode) := by
    have cut : lines failing = ["* p\n"].map encode := by decide
    exact cut ▸ areLines_lines failing
  have further : AreLines (failing ++ undecodable) (["* p\n"].map encode ++ [undecodable]) := by
    have cut : lines (failing ++ undecodable) = ["* p\n"].map encode ++ [undecodable] := by decide
    exact cut ▸ areLines_lines (failing ++ undecodable)
  have invalid : ∀ text, undecodable ≠ encode text :=
    decode?_eq_none_iff.1 (by decide +kernel)
  have written : script .reject 145 45 ["* p\n"] ++ sign =
      "> error (c. 1): Expected operand before '*'\n> " := by
    decide +kernel
  have trims : Trims "* p\n".toList ['*', ' ', 'p'] := by
    refine ⟨⟨[], ['\n'], rfl, by simp, by simp [isBlank]⟩, ?_, ?_⟩
    all_goals
      rintro _ ⟨⟩
      decide
  obtain ⟨-, -, trimmed, finished, -, joined⟩ :=
    converse_answers_each_line .reject 145 45 none failing
  obtain ⟨-, -, -, -, stopped, -⟩ :=
    converse_answers_each_line .reject 145 45 none (failing ++ undecodable)
  refine ⟨trimmed _ _ trims, ?_, ?_, joined _ undecodable none encoded (by decide)⟩
  · rw [← written]
    exact finished _ cut
  · rw [← written]
    exact stopped _ _ _ further invalid

end PriceFormula.Prompt
