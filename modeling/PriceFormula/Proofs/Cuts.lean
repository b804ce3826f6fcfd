import PriceFormula.Proofs.Plans

/-!
This file says what is kept when items are cut at their term operators. The main statement is that
nothing is lost between the pieces, and that reading a text never asks to assemble operators of
both classes at once.
-/

namespace PriceFormula

namespace Piece

/-- The items that a piece was cut from. -/
def items : Piece → List Item
  | .segment run _ => run
  | .term operator column => [.operator operator column]

/-- Term operators stand alone, and all other items stand in segments. -/
def Sound : Piece → Prop
  | .segment run _ => run ≠ [] ∧ ∀ item ∈ run, ∀ operator ∈ item.operator?, ¬ operator.isTerm
  | .term operator _ => operator.isTerm

/-- The column where a segment in front of the next piece stops: where a term operator starts, or
the end column where there is no next piece. No segment stands in front of a segment. -/
def stopBefore? (endColumn : Nat) : Option Piece → Option Nat
  | some (.term _ column) => some column
  | some (.segment _ _) => none
  | none => some endColumn

/-- A segment stops where the next piece makes it stop. -/
def Meets (endColumn : Nat) : Piece → Option Piece → Prop
  | .segment _ stop, next => stopBefore? endColumn next = some stop
  | .term _ _, _ => True

/-- The pieces are the items in order, cut at their term operators and nowhere else. -/
structure IsCut (endColumn : Nat) (items : List Item) (pieces : List Piece) : Prop where
  lossless : pieces.flatMap Piece.items = items
  sound : ∀ piece ∈ pieces, piece.Sound
  meets : ∀ (index : Nat) (piece : Piece), pieces[index]? = some piece →
    piece.Meets endColumn pieces[index + 1]?

section Cut

variable {endColumn : Nat} {items : List Item} {pieces : List Piece}

theorem isCut_nil (endColumn : Nat) : IsCut endColumn [] [] :=
  ⟨rfl, List.forall_mem_nil _, fun _ _ found => nomatch found⟩

/-- A piece can be put in front of others that it meets. -/
theorem IsCut.cons (cut : IsCut endColumn items pieces) (piece : Piece) (sound : piece.Sound)
    (meets : piece.Meets endColumn pieces[0]?) :
    IsCut endColumn (piece.items ++ items) (piece :: pieces) where
  lossless := by rw [List.flatMap_cons, cut.lossless]
  sound := List.forall_mem_cons.2 ⟨sound, cut.sound⟩
  meets
    | 0, _, rfl => meets
    | index + 1, other, found => cut.meets index other found

/-- The other pieces are a cut of the other items. -/
theorem IsCut.tail {piece : Piece} (cut : IsCut endColumn items (piece :: pieces)) :
    IsCut endColumn (pieces.flatMap Piece.items) pieces where
  lossless := rfl
  sound := (List.forall_mem_cons.1 cut.sound).2
  meets index := cut.meets (index + 1)

/-- An item that is no term operator joins the segment behind it or becomes a segment. -/
theorem IsCut.extend (cut : IsCut endColumn items pieces) {item : Item}
    (noTerm : ∀ operator ∈ item.operator?, ¬ operator.isTerm) :
    IsCut endColumn (item :: items) (extend item endColumn pieces) := by
  have alone (stop : Nat) : (Piece.segment [item] stop).Sound :=
    ⟨List.cons_ne_nil _ _, List.forall_mem_singleton.2 noTerm⟩
  match pieces, cut with
  | [], cut => exact cut.cons _ (alone endColumn) rfl
  | .term operator column :: rest, cut => exact cut.cons _ (alone column) rfl
  | .segment run stop :: rest, cut =>
    have longer : (Piece.segment (item :: run) stop).Sound :=
      ⟨List.cons_ne_nil _ _, List.forall_mem_cons.2 ⟨noTerm, (cut.sound _ List.mem_cons_self).2⟩⟩
    have meets : (Piece.segment run stop).Meets endColumn rest[0]? := cut.meets 0 _ rfl
    have joined := cut.tail.cons _ longer meets
    rwa [← cut.lossless]

/-- Any items are cut into their pieces. -/
theorem isCut_ofItems (endColumn : Nat) (items : List Item) :
    IsCut endColumn items (ofItems endColumn items) := by
  induction items with
  | nil => exact isCut_nil endColumn
  | cons item rest inductionHypothesis =>
      cases item with
      | operand formula column => exact inductionHypothesis.extend fun _ found => nomatch found
      | operator operator column =>
          rw [ofItems]
          split
          · next term => exact inductionHypothesis.cons (.term operator column) term trivial
          · next noTerm =>
            refine inductionHypothesis.extend fun other found => ?_
            cases found
            exact noTerm

/-- A run without term operators is one segment, if no segment follows it. -/
theorem ofItems_append_run {run : List Item} (nonempty : run ≠ [])
    (noTerm : ∀ item ∈ run, ∀ operator ∈ item.operator?, ¬ operator.isTerm) {behind : List Item}
    {stop : Nat} (stops : stopBefore? endColumn (ofItems endColumn behind)[0]? = some stop) :
    ofItems endColumn (run ++ behind) = .segment run stop :: ofItems endColumn behind := by
  induction run with
  | nil => exact absurd rfl nonempty
  | cons item run inductionHypothesis =>
      rw [List.forall_mem_cons] at noTerm
      have extended : ofItems endColumn (item :: run ++ behind) =
          extend item endColumn (ofItems endColumn (run ++ behind)) := by
        cases item with
        | operand formula column => rfl
        | operator operator column => exact if_neg (noTerm.1 operator rfl)
      rw [extended]
      by_cases last : run = []
      · subst last
        rw [List.nil_append]
        match ofItems endColumn behind, stops with
        | [], stops => cases stops; rfl
        | .term operator column :: rest, stops => cases stops; rfl
      · rw [inductionHypothesis last noTerm.2]
        rfl

/-- There is no other cut of the items. -/
theorem IsCut.eq_ofItems (cut : IsCut endColumn items pieces) :
    pieces = ofItems endColumn items := by
  -- Cutting goes through items from the last one, so the pieces are followed instead: a whole
  -- segment is one step of the induction.
  induction pieces generalizing items with
  | nil => rw [← cut.lossless]; rfl
  | cons piece rest inductionHypothesis =>
      have behind := inductionHypothesis cut.tail
      have sound := cut.sound piece List.mem_cons_self
      have meets := cut.meets 0 piece rfl
      rw [← cut.lossless, List.flatMap_cons]
      cases piece with
      | term operator column =>
          have isTerm : operator.isTerm := sound
          rw [Piece.items, List.singleton_append, ofItems, if_pos isTerm, ← behind]
      | segment run stop =>
          have stops : stopBefore? endColumn rest[0]? = some stop := meets
          rw [behind] at stops
          rw [Piece.items, ofItems_append_run sound.1 sound.2 stops, ← behind]

/-- The pieces of items are their only cut. -/
theorem isCut_iff : IsCut endColumn items pieces ↔ pieces = ofItems endColumn items := by
  constructor
  · exact IsCut.eq_ofItems
  · rintro rfl
    exact isCut_ofItems endColumn items

end Cut

end Piece

/-! ### What is assembled -/

/-- A call to assemble items, with the column where a further item would start. -/
structure Call where
  items : List Item
  endColumn : Nat

/-- Reading that keeps the calls that it has made, in order. -/
abbrev Logged :=
  ExceptT (Diagnostic Fault) (StateM (List Call))

/-- Assembles items and keeps the call. -/
def assembleLogged (items : List Item) (endColumn : Nat) : Logged Formula := do
  modify (· ++ [⟨items, endColumn⟩])
  liftExcept (assemble items endColumn)

namespace Piece

def toItemLogged : Piece → Logged Item
  | .segment items endColumn => do
    let formula ← assembleLogged items endColumn
    return .operand formula (startColumn endColumn items)
  | .term operator column => return .operator operator column

def toItemsLogged : List Piece → Logged (List Item)
  | [] => return []
  | piece :: rest => do
    let item ← piece.toItemLogged
    let items ← toItemsLogged rest
    return item :: items

end Piece

def assembleSplitLogged (items : List Item) (endColumn : Nat) : Logged Formula := do
  let terms ← Piece.toItemsLogged (Piece.ofItems endColumn items)
  assembleLogged terms endColumn

namespace Formula

def ofTokensLogged (tokens : List Token) (endColumn : Nat) : Logged Formula :=
  let items := tokens.map Item.ofToken
  match Plan.ofTokens tokens with
  | .direct => assembleLogged items endColumn
  | .split => assembleSplitLogged items endColumn

/-- Reads a whole text as one formula and keeps the calls that this takes. -/
def parseLogged (source : String) :
    StateM (List Call) (Except (List (Diagnostic Fault)) Formula) :=
  match Token.readAll source.toList with
  | .error diagnostics => return .error diagnostics
  | .ok tokens => do
    match ← (ofTokensLogged tokens (Text.endColumn source.toList)).run with
    | .error diagnostic => return .error [diagnostic]
    | .ok formula => return .ok formula

end Formula

namespace Logged

variable {First Second : Type}

/-- The reading comes to this outcome and makes these calls, whatever was called before. -/
def Gives (reading : Logged First) (outcome : Except (Diagnostic Fault) First)
    (calls : List Call) : Prop :=
  ∀ before, reading.run.run before = (outcome, before ++ calls)

theorem gives_pure (value : First) : (pure value : Logged First).Gives (.ok value) [] := by
  intro before
  rw [List.append_nil]
  rfl

theorem gives_assemble (items : List Item) (endColumn : Nat) :
    (assembleLogged items endColumn).Gives (assemble items endColumn) [⟨items, endColumn⟩] := by
  intro before
  rw [assembleLogged]
  cases assemble items endColumn <;> rfl

/-- The calls of the second reading stand behind those of the first. -/
theorem Gives.bind {first : Logged First} {value : First} {calls : List Call}
    (gives : first.Gives (.ok value) calls) {next : First → Logged Second}
    {outcome : Except (Diagnostic Fault) Second} {behind : List Call}
    (nextGives : (next value).Gives outcome behind) :
    (first >>= next).Gives outcome (calls ++ behind) := by
  intro before
  have ran := gives before
  have nextRan := nextGives (before ++ calls)
  rw [List.append_assoc] at nextRan
  rw [ExceptT.run_bind, StateT.run_bind, ran]
  exact nextRan

/-- A fault ends the reading with the calls so far. -/
theorem Gives.bind_error {first : Logged First} {fault : Diagnostic Fault} {calls : List Call}
    (gives : first.Gives (.error fault) calls) (next : First → Logged Second) :
    (first >>= next).Gives (.error fault) calls := by
  intro before
  rw [ExceptT.run_bind, StateT.run_bind, gives before]
  rfl

end Logged

namespace Piece

/-- A fault is that of the latest call. -/
def LastRefused {Value : Type} (calls : List Call) : Except (Diagnostic Fault) Value → Prop
  | .ok _ => True
  | .error fault => ∃ last ∈ calls.getLast?, assemble last.items last.endColumn = .error fault

/-- Earlier calls do not change which call is the latest. -/
theorem LastRefused.append {First Second : Type} {calls : List Call} {fault : Diagnostic Fault}
    (refused : LastRefused calls (.error fault : Except _ First)) (before : List Call) :
    LastRefused (before ++ calls) (.error fault : Except _ Second) := by
  obtain ⟨last, found, failed⟩ := refused
  refine ⟨last, ?_, failed⟩
  rw [Option.mem_def] at found ⊢
  rw [List.getLast?_append, found]
  rfl

/-- A segment takes one call, and a term operator none. -/
theorem toItemLogged_gives (piece : Piece) :
    ∃ calls, piece.toItemLogged.Gives piece.toItem calls ∧
      (∀ call ∈ calls, piece = .segment call.items call.endColumn) ∧
      LastRefused calls piece.toItem := by
  cases piece with
  | term operator column => exact ⟨[], Logged.gives_pure _, List.forall_mem_nil _, trivial⟩
  | segment run stop =>
      have assembled := Logged.gives_assemble run stop
      rw [toItem]
      cases result : assemble run stop with
      | error fault =>
          rw [result] at assembled
          exact ⟨_, assembled.bind_error _, List.forall_mem_singleton.2 rfl, _, rfl, result⟩
      | ok formula =>
          rw [result] at assembled
          exact ⟨_, assembled.bind (Logged.gives_pure _), List.forall_mem_singleton.2 rfl, trivial⟩

/-- Segments are assembled from left to right up to the first that is refused. -/
theorem toItemsLogged_gives (pieces : List Piece) :
    ∃ calls, (toItemsLogged pieces).Gives (toItems pieces) calls ∧
      (∀ call ∈ calls, .segment call.items call.endColumn ∈ pieces) ∧
      LastRefused calls (toItems pieces) := by
  induction pieces with
  | nil => exact ⟨[], Logged.gives_pure _, List.forall_mem_nil _, trivial⟩
  | cons piece rest inductionHypothesis =>
      obtain ⟨calls, gives, segment, refused⟩ := piece.toItemLogged_gives
      obtain ⟨others, othersGive, segments, othersRefused⟩ := inductionHypothesis
      have first : ∀ call ∈ calls, .segment call.items call.endColumn ∈ piece :: rest :=
        fun call member => List.mem_cons.2 (.inl (segment call member).symm)
      have members : ∀ call ∈ calls ++ others,
          .segment call.items call.endColumn ∈ piece :: rest :=
        List.forall_mem_append.2
          ⟨first, fun call member => List.mem_cons_of_mem _ (segments call member)⟩
      rw [toItems, toItemsLogged]
      cases item : piece.toItem with
      | error fault =>
          rw [item] at gives refused
          exact ⟨calls, gives.bind_error _, first, refused⟩
      | ok head =>
          rw [item] at gives
          cases items : toItems rest with
          | error fault =>
              rw [items] at othersGive othersRefused
              exact ⟨calls ++ others, gives.bind (othersGive.bind_error _), members,
                othersRefused.append calls⟩
          | ok tail =>
              rw [items] at othersGive
              refine ⟨calls ++ (others ++ []), gives.bind (othersGive.bind ?_), ?_, trivial⟩
              · exact Logged.gives_pure (head :: tail)
              · rwa [List.append_nil]

/-- Pieces become items one by one. -/
theorem toItems_cons_eq_ok {piece : Piece} {rest : List Piece} {terms : List Item}
    (built : toItems (piece :: rest) = .ok terms) :
    ∃ first others, piece.toItem = .ok first ∧ toItems rest = .ok others ∧
      terms = first :: others := by
  rw [toItems] at built
  cases item : piece.toItem with
  | error fault => simp only [item] at built; cases built
  | ok first =>
      cases items : toItems rest with
      | error fault => simp only [item, items] at built; cases built
      | ok others =>
          simp only [item, items] at built
          cases built
          exact ⟨first, others, rfl, rfl, rfl⟩

/-- A segment becomes an operand, so an operator is left of a term operator only. -/
theorem Sound.isTerm {piece : Piece} (sound : piece.Sound) {item : Item}
    (built : piece.toItem = .ok item) : ∀ operator ∈ item.operator?, operator.isTerm := by
  intro operator found
  cases piece with
  | term other column =>
      cases built
      cases found
      exact sound
  | segment run stop =>
      rw [toItem] at built
      split at built
      · cases built
        cases found
      · cases built

/-- Once all segments are operands, only term operators are left. -/
theorem isTerm_of_toItems {pieces : List Piece} {terms : List Item}
    (built : toItems pieces = .ok terms) (sound : ∀ piece ∈ pieces, piece.Sound) :
    ∀ item ∈ terms, ∀ operator ∈ item.operator?, operator.isTerm := by
  induction pieces generalizing terms with
  | nil =>
      cases built
      exact List.forall_mem_nil _
  | cons piece rest inductionHypothesis =>
      rw [List.forall_mem_cons] at sound
      obtain ⟨first, others, item, items, rfl⟩ := toItems_cons_eq_ok built
      exact List.forall_mem_cons.2 ⟨sound.1.isTerm item, inductionHypothesis items sound.2⟩

/-- The operators in a segment are factors. -/
theorem Sound.sameClass {run : List Item} {stop : Nat} (sound : (segment run stop).Sound) :
    Item.SameClass run := by
  left
  intro item member operator found
  have noTerm := sound.2 item member operator found
  rwa [Operator.isTerm_eq_not_isFactor, Bool.not_eq_true', Bool.not_eq_false] at noTerm

end Piece

/-- Segments and then terms are assembled, so the latest call decides. -/
theorem assembleSplitLogged_gives (items : List Item) (endColumn : Nat) :
    ∃ calls, (assembleSplitLogged items endColumn).Gives (assembleSplit items endColumn) calls ∧
      (∀ call ∈ calls, Item.SameClass call.items) ∧
      ∃ last ∈ calls.getLast?,
        assemble last.items last.endColumn = assembleSplit items endColumn := by
  have sound := (Piece.isCut_ofItems endColumn items).sound
  obtain ⟨calls, gives, segments, refused⟩ :=
    Piece.toItemsLogged_gives (Piece.ofItems endColumn items)
  have sameClass : ∀ call ∈ calls, Item.SameClass call.items :=
    fun call member => (sound _ (segments call member)).sameClass
  rw [assembleSplit, assembleSplitLogged]
  cases built : Piece.toItems (Piece.ofItems endColumn items) with
  | error fault =>
      rw [built] at gives refused
      exact ⟨calls, gives.bind_error _, sameClass, refused⟩
  | ok terms =>
      rw [built] at gives
      refine ⟨calls ++ [⟨terms, endColumn⟩], gives.bind (Logged.gives_assemble terms endColumn),
        List.forall_mem_append.2 ⟨sameClass, List.forall_mem_singleton.2 ?_⟩, ⟨terms, endColumn⟩,
        List.getLast?_concat, rfl⟩
      exact .inr (Piece.isTerm_of_toItems built sound)

namespace Formula

/-- By either plan, every call is over operators of one class. -/
theorem ofTokensLogged_gives (tokens : List Token) (endColumn : Nat) :
    ∃ calls, (ofTokensLogged tokens endColumn).Gives (ofTokens tokens endColumn) calls ∧
      (∀ call ∈ calls, Item.SameClass call.items) ∧
      ∃ last ∈ calls.getLast?, assemble last.items last.endColumn = ofTokens tokens endColumn := by
  rw [ofTokens, ofTokensLogged]
  cases plan : Plan.ofTokens tokens with
  | split => exact assembleSplitLogged_gives (tokens.map Item.ofToken) endColumn
  | direct =>
      exact ⟨_, Logged.gives_assemble _ endColumn,
        List.forall_mem_singleton.2 ((Plan.ofTokens_eq_direct_iff tokens).1 plan), _, rfl, rfl⟩

end Formula

/-- The pieces of items are the one cut at their term operators that loses nothing, has no empty
segment and no two segments side by side, and knows where its segments stop. So reading a text
assembles only items whose operators all belong to one class, and what it assembles last decides
what the text is read as. -/
theorem ofItems_cuts_without_loss :
    (∀ endColumn items pieces,
      Piece.IsCut endColumn items pieces ↔ pieces = Piece.ofItems endColumn items) ∧
    ∀ source, ∃ calls,
      (Formula.parseLogged source).run [] = (Formula.parse source, calls) ∧
      (∀ call ∈ calls, Item.SameClass call.items) ∧
      ∀ tokens, Token.readAll source.toList = .ok tokens →
        ∃ last ∈ calls.getLast?, assemble last.items last.endColumn =
          Formula.ofTokens tokens (Text.endColumn source.toList) := by
  refine ⟨fun _ _ _ => Piece.isCut_iff, fun source => ?_⟩
  rw [Formula.parse, Formula.parseLogged]
  cases read : Token.readAll source.toList with
  | error diagnostics =>
      refine ⟨[], rfl, List.forall_mem_nil _, fun tokens same => ?_⟩
      cases same
  | ok tokens =>
      obtain ⟨calls, gives, sameClass, decisive⟩ :=
        Formula.ofTokensLogged_gives tokens (Text.endColumn source.toList)
      have ran := gives []
      refine ⟨calls, ?_, sameClass, fun other same => ?_⟩
      · dsimp only
        rw [StateT.run_bind, ran]
        cases Formula.ofTokens tokens (Text.endColumn source.toList) <;> rfl
      · cases same
        exact decisive

/-- Term operators at both ends leave no empty segments. A product behind a difference is assembled
before the difference, which is assembled last. -/
theorem ofItems_cuts_at_both_ends :
    Piece.IsCut 10
      [.operator .add 1, .operand (.named "l") 3, .operator .multiply 5, .operand (.named "p") 7,
        .operator .subtract 9]
      [.term .add 1,
        .segment [.operand (.named "l") 3, .operator .multiply 5, .operand (.named "p") 7] 9,
        .term .subtract 9] ∧
    Item.SameClass [.operand (.named "l") 5, .operator .multiply 7, .operand (.named "p") 9] ∧
    ∃ tokens, Token.readAll "l - l * p".toList = .ok tokens ∧
      assemble [.operand (.named "l") 1, .operator .subtract 3,
        .operand (.binary .multiply (.named "l") (.named "p")) 5] 10 =
          Formula.ofTokens tokens (Text.endColumn "l - l * p".toList) := by
  refine ⟨(ofItems_cuts_without_loss.1 _ _ _).2 rfl, ?_⟩
  have valid : ∀ word ∈ Text.wordList "l - l * p".toList, Token.IsWord word := by
    have classified : (Text.wordList "l - l * p".toList).all fun word =>
        (Token.classify? word).isSome := rfl
    intro word member
    exact Token.classify?_isSome_iff.1 (List.all_eq_true.1 classified word member)
  obtain ⟨tokens, read, items⟩ := Token.readAll_items_of_valid valid
  have shown : (Text.locatedWords "l - l * p".toList).map Item.ofWord =
      [.operand (.named "l") 1, .operator .subtract 3, .operand (.named "l") 5,
        .operator .multiply 7, .operand (.named "p") 9] := rfl
  have logged : ((Formula.parseLogged "l - l * p").run []).2 =
      [⟨[.operand (.named "l") 1], 3⟩,
        ⟨[.operand (.named "l") 5, .operator .multiply 7, .operand (.named "p") 9], 10⟩,
        ⟨[.operand (.named "l") 1, .operator .subtract 3,
          .operand (.binary .multiply (.named "l") (.named "p")) 5], 10⟩] := by
    rw [Formula.parseLogged, read]
    dsimp only
    rw [Formula.ofTokensLogged, Plan.ofTokens_eq, items, shown]
    rfl
  obtain ⟨calls, ran, sameClass, decisive⟩ := ofItems_cuts_without_loss.2 "l - l * p"
  rw [ran] at logged
  subst logged
  obtain ⟨last, found, assembled⟩ := decisive tokens read
  cases found
  exact ⟨sameClass _ (List.mem_cons_of_mem _ List.mem_cons_self), tokens, read, assembled⟩

end PriceFormula
