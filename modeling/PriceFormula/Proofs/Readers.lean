import PriceFormula.Proofs.Positions
import PriceFormula.Proofs.Scanning

/-!
This file follows several readers of one text, which move on their own and can be copied. The main
statement is that the three positions of a reader agree at all times: what remains of the text, the
column, and the number of bytes.
-/

namespace PriceFormula.Text

/-- A longest beginning of a text whose characters pass a test. -/
structure IsLongestPrefix (test : Char → Bool) (piece text : List Char) : Prop where
  isPrefix : piece <+: text
  passes : ∀ char ∈ piece, test char
  longest : ∀ other, other <+: text → (∀ char ∈ other, test char) → other <+: piece

/-- What is taken from a text is the longest beginning that passes. -/
theorem isLongestPrefix_takeWhile (test : Char → Bool) (text : List Char) :
    IsLongestPrefix test (text.takeWhile test) text where
  isPrefix := List.takeWhile_prefix test
  passes char member := List.mem_takeWhile_imp member
  longest := by
    rintro other ⟨behind, rfl⟩ passes
    rw [List.takeWhile_append_of_pos passes]
    exact List.prefix_append other _

/-- The size of a text is the sum of the sizes of its characters. -/
theorem utf8ByteSize_ofList (text : List Char) :
    (String.ofList text).utf8ByteSize = utf8Length text := by
  rw [← String.size_toByteArray, String.toByteArray_ofList, List.utf8Encode,
    List.size_toByteArray]
  induction text with
  | nil => rfl
  | cons char rest inductionHypothesis =>
      rw [List.flatMap_cons, List.length_append, String.length_utf8EncodeChar,
        inductionHypothesis, utf8Length_cons]

namespace Place

/-- There is nothing to look at only where nothing remains. -/
theorem peek_eq_none_iff {place : Place} : place.peek = none ↔ place.rest = [] :=
  List.head?_eq_none_iff

/-- A step shortens what remains as long as there is something to look at. -/
theorem length_rest_next_lt {place : Place} {test : Char → Bool} (passes : place.peek.any test) :
    place.next.2.rest.length < place.rest.length := by
  cases found : place.rest with
  | nil =>
      rw [peek_eq_none_iff.2 found] at passes
      cases passes
  | cons char rest =>
      rw [next_of_cons found]
      exact Nat.lt_succ_self _

/-- Takes single steps as long as the character at the place passes the test. These are the
characters that the steps take, and the place where they end. -/
def stepWhile (test : Char → Bool) (place : Place) : List Char × Place :=
  if _passes : place.peek.any test then
    let (taken, last) := stepWhile test place.next.2
    (place.next.1.toList ++ taken, last)
  else ([], place)
termination_by place.rest.length
decreasing_by exact length_rest_next_lt _passes

/-- Single steps come to an end, and they take exactly what is skipped at once. -/
theorem stepWhile_eq (test : Char → Bool) (place : Place) :
    place.stepWhile test = (place.rest.takeWhile test, place.skipWhile test) := by
  obtain ⟨text, rest, column⟩ := place
  induction rest generalizing column with
  | nil =>
      rw [stepWhile]
      rfl
  | cons char rest inductionHypothesis =>
      have peeked : (Place.mk text (char :: rest) column).peek.any test = test char := rfl
      rw [stepWhile, skipWhile, skipFrom]
      by_cases passes : test char
      · rw [dif_pos (peeked.trans passes), if_pos passes, List.takeWhile_cons_of_pos passes]
        dsimp only [next]
        rw [inductionHypothesis]
        rfl
      · rw [dif_neg (peeked ▸ passes), if_neg passes, List.takeWhile_cons_of_neg passes]

/-- Behind the characters that pass there is nothing more to skip. -/
theorem skipWhile_skipWhile (test : Char → Bool) (place : Place) :
    (place.skipWhile test).skipWhile test = place.skipWhile test := by
  obtain ⟨text, rest, column⟩ := place
  induction rest generalizing column with
  | nil => rfl
  | cons char rest inductionHypothesis =>
      by_cases passes : test char
      · have moved : (Place.mk text (char :: rest) column).skipWhile test =
            (Place.mk text rest (column + 1)).skipWhile test := if_pos passes
        rw [moved, inductionHypothesis]
      · have stayed : (Place.mk text (char :: rest) column).skipWhile test =
            ⟨text, char :: rest, column⟩ := if_neg passes
        rw [stayed, stayed]

end Place

/-- A place and the characters that were taken on the way to it. -/
structure Reader where
  taken : List Char
  place : Place

namespace Reader

/-- A reader that has taken nothing. -/
def start (text : List Char) : Reader :=
  ⟨[], .start text⟩

/-- Takes the next character, if there is one. -/
def next (reader : Reader) : Reader :=
  ⟨reader.taken ++ reader.place.next.1.toList, reader.place.next.2⟩

/-- Takes characters one by one as long as they pass the test. -/
def skipWhile (test : Char → Bool) (reader : Reader) : Reader :=
  ⟨reader.taken ++ (reader.place.stepWhile test).1, reader.place.skipWhile test⟩

/-- One of the readers moves. A copy of it stands behind all other readers from then on; where
there is no reader, nothing moves. -/
def act (readers : List Reader) : Nat × Move → List Reader
  | (index, .next) => readers.modify index next
  | (index, .skipWhile test) => readers.modify index (skipWhile test)
  | (index, .copy) => readers ++ readers[index]?.toList

/-- All readers of a text after these moves, of which the first starts at the start. -/
def session (text : List Char) (moves : List (Nat × Move)) : List Reader :=
  moves.foldl act [start text]

/-- The characters that the reader has taken lie before its place in the text. -/
structure Reads (text : List Char) (reader : Reader) : Prop where
  text : reader.place.text = text
  passed : reader.place.Passed reader.taken

theorem reads_start (text : List Char) : (start text).Reads text :=
  ⟨rfl, Place.passed_start text⟩

/-- A step takes the first of the remaining characters. -/
theorem toList_next (place : Place) : place.next.1.toList = place.rest.take 1 := by
  cases found : place.rest with
  | nil => rw [Place.next_of_nil found]; rfl
  | cons char rest => rw [Place.next_of_cons found]; rfl

variable {text : List Char} {reader : Reader} {readers : List Reader}

/-- A step adds to what is taken just what it takes from the rest. -/
theorem Reads.next (reads : reader.Reads text) : reader.next.Reads text where
  text := (reader.place.move_text .next).trans reads.text
  passed := by
    rw [Reader.next, toList_next]
    exact reads.passed.next

/-- Single steps and a skip at once end at the same place. -/
theorem skipWhile_eq (test : Char → Bool) :
    skipWhile test = fun reader =>
      ⟨reader.taken ++ reader.place.rest.takeWhile test, reader.place.skipWhile test⟩ := by
  funext reader
  rw [skipWhile, Place.stepWhile_eq]

theorem Reads.skipWhile (reads : reader.Reads text) (test : Char → Bool) :
    (reader.skipWhile test).Reads text where
  text := (Place.skipWhile_text test reader.place).trans reads.text
  passed := by
    rw [skipWhile_eq]
    exact reads.passed.skipWhile test

/-- What is kept by a change of a single value still holds of all values. -/
theorem forall_mem_modify {Value : Type} {property : Value → Prop} {f : Value → Value}
    (kept : ∀ value, property value → property (f value)) {values : List Value} (index : Nat)
    (all : ∀ value ∈ values, property value) : ∀ value ∈ values.modify index f, property value := by
  by_cases inside : index < values.length
  · obtain ⟨before, value, behind, rfl, _, modified⟩ := List.exists_of_modify f inside
    rw [List.forall_mem_append, List.forall_mem_cons] at all
    rw [modified, List.forall_mem_append, List.forall_mem_cons]
    exact ⟨all.1, kept value all.2.1, all.2.2⟩
  · rwa [List.modify_eq_self (Nat.le_of_not_lt inside)]

/-- Whichever reader moves or is copied, all readers still read the text. -/
theorem reads_act (reads : ∀ reader ∈ readers, reader.Reads text) (move : Nat × Move) :
    ∀ reader ∈ act readers move, reader.Reads text := by
  obtain ⟨index, next | test | _⟩ := move
  · exact forall_mem_modify (fun _ reads => reads.next) index reads
  · exact forall_mem_modify (fun _ reads => reads.skipWhile test) index reads
  · refine List.forall_mem_append.2 ⟨reads, fun reader member => reads reader ?_⟩
    exact List.mem_of_getElem? (Option.mem_toList.1 member)

theorem reads_foldl (reads : ∀ reader ∈ readers, reader.Reads text) (moves : List (Nat × Move)) :
    ∀ reader ∈ moves.foldl act readers, reader.Reads text := by
  induction moves generalizing readers with
  | nil => exact reads
  | cons move moves inductionHypothesis => exact inductionHypothesis (reads_act reads move)

/-- All readers of a session read its text. -/
theorem reads_session (text : List Char) (moves : List (Nat × Move)) :
    ∀ reader ∈ session text moves, reader.Reads text :=
  reads_foldl (List.forall_mem_singleton.2 (reads_start text)) moves

namespace Reads

/-- Nothing of the text is lost between what is taken and what remains. -/
theorem taken_append (reads : reader.Reads text) : reader.taken ++ reader.place.rest = text :=
  reads.passed.text.symm.trans reads.text

/-- The bytes before the place are those of the characters that were taken. -/
theorem offset (reads : reader.Reads text) :
    reader.place.offset = (String.ofList reader.taken).utf8ByteSize := by
  rw [reads.passed.offset, utf8ByteSize_ofList]

/-- The offset lies between two characters. -/
theorem isValid (reads : reader.Reads text) :
    (String.Pos.Raw.mk reader.place.offset).IsValid (String.ofList text) := by
  rw [String.Pos.Raw.isValid_iff_exists_append, reads.offset, ← reads.taken_append,
    String.ofList_append]
  exact ⟨_, _, rfl, rfl⟩

/-- The end is reached in the end column only. -/
theorem rest_eq_nil_iff (reads : reader.Reads text) :
    reader.place.rest = [] ↔ reader.place.column = endColumn text := by
  rw [reads.passed.column, endColumn, ← reads.taken_append, List.length_append,
    ← List.length_eq_zero_iff]
  omega

end Reads

/-- Whatever is done in whatever order with readers of a text and their copies, the positions of
each reader agree. What it has taken and what remains are the text; the column counts the
characters and the offset the bytes that were taken, so the offset lies between two characters and
never before the start. The end is where nothing can be looked at, where the column is the end
column, and where a step changes nothing. Skipping comes to an end, takes exactly the longest
beginning of what remains that passes, and changes nothing when it is done again. -/
theorem session_keeps_positions (text : List Char) (moves : List (Nat × Move)) :
    ∀ reader ∈ session text moves,
      let place := reader.place
      place.text = text ∧
      reader.taken ++ place.rest = text ∧
      place.column = 1 + reader.taken.length ∧
      utf8Length place.rest ≤ utf8Length place.text ∧
      place.offset = (String.ofList reader.taken).utf8ByteSize ∧
      (String.Pos.Raw.mk place.offset).IsValid (String.ofList text) ∧
      (place.atEnd ↔ place.peek = none) ∧
      (place.peek = none ↔ place.column = endColumn text) ∧
      (place.atEnd → place.next = (none, place)) ∧
      ∀ test,
        (place.stepWhile test).2 = place.skipWhile test ∧
        IsLongestPrefix test (place.stepWhile test).1 place.rest ∧
        place.rest = (place.stepWhile test).1 ++ (place.skipWhile test).rest ∧
        (place.skipWhile test).skipWhile test = place.skipWhile test := by
  intro reader member place
  have reads := reads_session text moves reader member
  have atEnd : place.atEnd ↔ place.rest = [] := List.isEmpty_iff
  refine ⟨reads.text, reads.taken_append, ?_, reads.passed.rest_le, reads.offset, reads.isValid,
    ?_, ?_, ?_, fun test => ?_⟩
  · rw [reads.passed.column, Nat.add_comm]
  · rw [atEnd, Place.peek_eq_none_iff]
  · rw [Place.peek_eq_none_iff, reads.rest_eq_nil_iff]
  · rw [atEnd]
    exact Place.next_of_nil
  · rw [Place.stepWhile_eq, Place.skipWhile_rest, List.takeWhile_append_dropWhile]
    exact ⟨rfl, isLongestPrefix_takeWhile test place.rest, rfl, place.skipWhile_skipWhile test⟩

/-- A copy that is made behind a character of three bytes goes on to the end, where the next step
changes nothing; the reader that it was made from stays where it is. -/
theorem session_keeps_positions_of_copy :
    let moves : List (Nat × Move) := [(0, .next), (0, .copy), (1, .skipWhile (· != '2')),
      (1, .next), (1, .next)]
    (session "€ * 2".toList moves).map (·.place.column) = [2, 6] ∧
    ∃ reader ∈ session "€ * 2".toList moves,
      reader.place.atEnd ∧ reader.place.next = (none, reader.place) ∧
      reader.place.offset = 7 ∧
      IsLongestPrefix (· != ' ') (reader.place.stepWhile (· != ' ')).1 [] := by
  intro moves
  have final : session "€ * 2".toList moves =
      [⟨['€'], ⟨"€ * 2".toList, [' ', '*', ' ', '2'], 2⟩⟩,
        ⟨['€', ' ', '*', ' ', '2'], ⟨"€ * 2".toList, [], 6⟩⟩] := by
    simp only [session, moves, List.foldl_cons, act, skipWhile_eq]
    rfl
  have member : ⟨['€', ' ', '*', ' ', '2'], ⟨"€ * 2".toList, [], 6⟩⟩ ∈
      session "€ * 2".toList moves := by
    rw [final]
    exact List.mem_cons_of_mem _ List.mem_cons_self
  obtain ⟨_, _, _, _, offset, _, _, _, stays, skips⟩ :=
    session_keeps_positions "€ * 2".toList moves _ member
  refine ⟨by rw [final]; rfl, _, member, rfl, stays rfl, offset.trans ?_, (skips _).2.1⟩
  rw [utf8ByteSize_ofList]
  rfl

end Reader

end PriceFormula.Text
