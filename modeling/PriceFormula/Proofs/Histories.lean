import Mathlib.Data.Finset.Card
import Mathlib.Data.Finset.Dedup
import PriceFormula.Proofs.Equality
import PriceFormula.Proofs.Locality

/-!
This file describes bindings by the definitions that they were made of. The main statement is that
only the latest definition of every name counts: it is what is found and compared, the size counts
each name once, and definitions of different names may change their places.
-/

namespace PriceFormula

namespace Bindings

/-- The latest definition of the name in the history gives it this formula. -/
def IsLatest (history : List (String × Formula)) (name : String) (formula : Formula) : Prop :=
  ∃ before after, history = before ++ (name, formula) :: after ∧ ∀ entry ∈ after, entry.1 ≠ name

variable {bindings left right : Bindings} {history : List (String × Formula)} {name : String}
  {formula : Formula}

/-! ### What is found -/

/-- Added definitions come first, the latest one at the front. -/
theorem find?_defineAll (bindings : Bindings) (definitions : List (String × Formula))
    (name : String) :
    (bindings.defineAll definitions).find? name =
      (definitions.reverse.lookup name).or (bindings.find? name) := by
  induction definitions generalizing bindings with
  | nil => rfl
  | cons entry rest inductionHypothesis =>
      -- the rest is defined on top of the entry, so the entry is looked up after all of it
      rw [defineAll, List.foldl_cons, ← defineAll, inductionHypothesis, find?_define,
        List.reverse_cons, List.lookup_append, Option.or_assoc]
      congr 1
      by_cases same : name = entry.1
      · rw [if_pos same, same, List.lookup_cons, beq_self_eq_true]
        rfl
      · rw [if_neg same, List.lookup_cons, beq_false_of_ne same]
        rfl

/-- Further definitions prolong the history. -/
theorem defineAll_ofList (collected further : List (String × Formula)) :
    (ofList collected).defineAll further = ofList (collected ++ further) :=
  List.foldl_append.symm

/-- The search goes through the history from its end. -/
theorem find?_ofList (history : List (String × Formula)) (name : String) :
    (ofList history).find? name = history.reverse.lookup name :=
  (find?_defineAll empty history name).trans Option.or_none

/-- The first find from the end is the latest definition. -/
theorem lookup_reverse_eq_some_iff :
    history.reverse.lookup name = some formula ↔ IsLatest history name formula := by
  rw [List.lookup_eq_some_iff]
  constructor
  · rintro ⟨behind, front, split, others⟩
    refine ⟨front.reverse, behind.reverse, ?_, fun entry member same => ?_⟩
    · rw [← history.reverse_reverse, split, List.reverse_append, List.reverse_cons,
        List.append_assoc, List.singleton_append]
    · simpa [same] using others entry (List.mem_reverse.1 member)
  · rintro ⟨before, after, rfl, others⟩
    refine ⟨after.reverse, before.reverse, by simp, fun entry member => ?_⟩
    exact bne_iff_ne.2 (others entry (List.mem_reverse.1 member)).symm

/-- A name is bound to its latest definition. -/
theorem find?_ofList_eq_some_iff :
    (ofList history).find? name = some formula ↔ IsLatest history name formula := by
  rw [find?_ofList, lookup_reverse_eq_some_iff]

/-- The bound names are those that were ever defined. -/
theorem isSome_find?_ofList_iff :
    ((ofList history).find? name).isSome ↔ name ∈ history.map Prod.fst := by
  rw [find?_ofList, List.lookup_isSome_iff, List.mem_map]
  simp only [List.mem_reverse, beq_iff_eq]
  exact exists_congr fun entry => and_congr_right fun _ => eq_comm

/-- The unbound names are those that were never defined. -/
theorem find?_ofList_eq_none_iff :
    (ofList history).find? name = none ↔ name ∉ history.map Prod.fst := by
  rw [← isSome_find?_ofList_iff, Option.not_isSome_iff_eq_none]

/-! ### How much there is -/

/-- Every name counts once, however often it was defined. -/
theorem size_ofList (history : List (String × Formula)) :
    (ofList history).size = (history.map Prod.fst).toFinset.card := by
  have names : ((ofList history).entries.map Prod.fst).toFinset =
      (history.map Prod.fst).toFinset := by
    ext name
    rw [List.mem_toFinset, List.mem_toFinset, ← isSome_find?_iff, isSome_find?_ofList_iff]
  rw [← names, List.toFinset_card_of_nodup (ofList history).distinct, List.length_map, size]

/-- Only the empty history leaves nothing bound. -/
theorem isEmpty_ofList_iff : (ofList history).isEmpty ↔ history = [] := by
  have sizes : (ofList history).isEmpty ↔ (ofList history).size = 0 := by
    rw [isEmpty, size, List.isEmpty_iff, List.length_eq_zero_iff]
  rw [sizes, size_ofList, Finset.card_eq_zero, List.toFinset_eq_empty_iff, List.map_eq_nil_iff]

/-! ### What is compared -/

/-- An entry is what is found for its name, as no name has two entries. -/
theorem find?_of_mem_entries (member : (name, formula) ∈ bindings.entries) :
    bindings.find? name = some formula := by
  obtain ⟨before, after, split⟩ := List.append_of_mem member
  refine List.lookup_eq_some_iff.2 ⟨before, after, split, fun entry inside => bne_iff_ne.2 ?_⟩
  have distinct := bindings.distinct
  rw [split, List.map_append, List.map_cons, List.nodup_append] at distinct
  exact (distinct.2.2 entry.1 (List.mem_map_of_mem inside) name List.mem_cons_self).symm

/-- The size depends only on which names are bound. -/
theorem size_eq_of_isSome_find?
    (names : ∀ name, (left.find? name).isSome ↔ (right.find? name).isSome) :
    left.size = right.size := by
  have entries : (left.entries.map Prod.fst).Perm (right.entries.map Prod.fst) := by
    rw [List.perm_ext_iff_of_nodup left.distinct right.distinct]
    intro name
    rw [← isSome_find?_iff, ← isSome_find?_iff, names]
  simpa [size] using entries.length_eq

/-- Bindings are equal exactly when they bind the same names and find equal formulas. -/
theorem equal_iff :
    left.equal right = true ↔
      (∀ name, (left.find? name).isSome ↔ (right.find? name).isSome) ∧
      ∀ name formula replacement, left.find? name = some formula →
        right.find? name = some replacement → formula.equal replacement = true := by
  constructor
  · intro same
    constructor
    · intro name
      constructor
      · intro bound
        obtain ⟨formula, found⟩ := Option.isSome_iff_exists.1 bound
        obtain ⟨other, behind, _⟩ := find?_of_equal same found
        rw [behind]
        rfl
      · intro bound
        by_contra unbound
        rw [Option.not_isSome_iff_eq_none] at unbound
        rw [find?_eq_none_of_equal same unbound] at bound
        cases bound
    · intro name formula replacement found behind
      obtain ⟨other, alsoBehind, equal⟩ := find?_of_equal same found
      rw [behind, Option.some.injEq] at alsoBehind
      rwa [alsoBehind]
  · rintro ⟨names, formulas⟩
    rw [equal, size_eq_of_isSome_find? names, beq_self_eq_true, Bool.true_and, List.all_eq_true]
    rintro ⟨name, formula⟩ member
    have found := find?_of_mem_entries member
    have bound : (right.find? name).isSome := by
      rw [← names, found]
      rfl
    obtain ⟨other, behind⟩ := Option.isSome_iff_exists.1 bound
    simpa [behind] using formulas name formula other found behind

/-- Equality compares the names and the latest definitions of two histories, but not their order. -/
theorem equal_ofList_iff {other : List (String × Formula)} :
    (ofList history).equal (ofList other) = true ↔
      (∀ name, name ∈ history.map Prod.fst ↔ name ∈ other.map Prod.fst) ∧
      ∀ name formula replacement, IsLatest history name formula →
        IsLatest other name replacement → formula.equal replacement = true := by
  simp only [equal_iff, isSome_find?_ofList_iff, find?_ofList_eq_some_iff]

/-! ### Definitions at other places -/

/-- Definitions of different names do not affect each other. -/
theorem find?_define_comm (bindings : Bindings) {first second : String × Formula}
    (different : first.1 ≠ second.1) (name : String) :
    ((bindings.define first.1 first.2).define second.1 second.2).find? name =
      ((bindings.define second.1 second.2).define first.1 first.2).find? name := by
  simp only [find?_define]
  split_ifs with isSecond isFirst
  · exact absurd (isFirst.symm.trans isSecond) different
  · rfl
  · rfl
  · rfl

/-- Neighbouring definitions of different names can change places. -/
theorem find?_ofList_swap (before after : List (String × Formula)) {first second : String × Formula}
    (different : first.1 ≠ second.1) (name : String) :
    (ofList (before ++ first :: second :: after)).find? name =
      (ofList (before ++ second :: first :: after)).find? name := by
  have split (one two : String × Formula) : ofList (before ++ one :: two :: after) =
      (((ofList before).define one.1 one.2).define two.1 two.2).defineAll after :=
    List.foldl_append
  rw [split, split, find?_defineAll, find?_defineAll, find?_define_comm _ different]

end Bindings

/-- Bindings that give the same formulas to the same names give the same outcomes. -/
theorem Formula.evaluate_congr (policy : Policy) {bindings others : Bindings}
    (same : ∀ name, others.find? name = bindings.find? name) (formula : Formula) :
    formula.evaluate policy others = formula.evaluate policy bindings := by
  rw [evaluate_eq_outcome, evaluate_eq_outcome]
  exact Evaluation.outcome_of_agreesOn policy (fun name _ => same name) []

namespace Bindings

/-- Whether definitions are collected at once or added later makes no difference. A name has the
formula of its latest definition, and every name counts once. Bindings are equal when they have
definitions of the same names and the latest ones are equal. Neighbouring definitions of different
names may be exchanged: all names keep their formulas, and all calculations their outcomes. -/
theorem ofList_keeps_latest :
    (∀ collected further : List (String × Formula),
      (ofList collected).defineAll further = ofList (collected ++ further)) ∧
    (∀ history : List (String × Formula),
      (∀ name formula, (ofList history).find? name = some formula ↔
        IsLatest history name formula) ∧
      (∀ name, (ofList history).find? name = none ↔ name ∉ history.map Prod.fst) ∧
      (ofList history).size = (history.map Prod.fst).toFinset.card ∧
      ((ofList history).isEmpty ↔ history = [])) ∧
    (∀ history other : List (String × Formula), (ofList history == ofList other) = true ↔
      (∀ name, name ∈ history.map Prod.fst ↔ name ∈ other.map Prod.fst) ∧
      ∀ name formula replacement, IsLatest history name formula →
        IsLatest other name replacement → (formula == replacement) = true) ∧
    ∀ (before after : List (String × Formula)) (first second : String × Formula),
      first.1 ≠ second.1 →
      let bindings := ofList (before ++ first :: second :: after)
      let others := ofList (before ++ second :: first :: after)
      (∀ name, bindings.find? name = others.find? name) ∧
      ∀ policy (formula : Formula),
        formula.evaluate policy bindings = formula.evaluate policy others := by
  refine ⟨defineAll_ofList, fun history => ⟨fun _ _ => find?_ofList_eq_some_iff,
    fun _ => find?_ofList_eq_none_iff, size_ofList history, isEmpty_ofList_iff⟩,
    fun _ _ => equal_ofList_iff, ?_⟩
  intro before after first second different bindings others
  have same := find?_ofList_swap before after different
  exact ⟨same, fun policy formula => formula.evaluate_congr policy same⟩

/-- A name that is defined again, with a name that is defined before or after it. -/
theorem ofList_keeps_latest_of_repeated :
    ("y" ≠ "x") ∧
    (ofList [("x", .literal 1), ("y", .literal 2), ("x", .named "y")]).find? "x" =
      some (.named "y") ∧
    (ofList [("x", .literal 1), ("x", .named "y"), ("y", .literal 2)]).size = 2 ∧
    (Formula.named "x").evaluate .reject
      (ofList [("x", .literal 1), ("x", .named "y"), ("y", .literal 2)]) = .ok 2 := by
  have different : "y" ≠ "x" := by decide
  have latest : IsLatest [("x", .literal 1), ("y", .literal 2), ("x", .named "y")] "x"
      (.named "y") := ⟨[("x", .literal 1), ("y", .literal 2)], [], rfl, nofun⟩
  obtain ⟨_, described, _, exchanged⟩ := ofList_keeps_latest
  have exchanged :=
    (exchanged [("x", .literal 1)] [] ("y", .literal 2) ("x", .named "y") different).2
  exact ⟨different, ((described _).1 "x" _).2 latest, (described _).2.2.1,
    (exchanged .reject (.named "x")).symm.trans rfl⟩

end Bindings

end PriceFormula
