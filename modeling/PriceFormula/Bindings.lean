import PriceFormula.Formula.Basic

/-!
This file binds names to formulas. A name has at most one formula, and a later definition
replaces an earlier one.
-/

namespace PriceFormula

structure Bindings where
  entries : List (String × Formula)
  distinct : (entries.map Prod.fst).Nodup

namespace Bindings

def empty : Bindings :=
  ⟨[], List.nodup_nil⟩

/-- Once the entries of a name are removed, the name has none. -/
theorem not_mem_filter_names (name : String) (entries : List (String × Formula)) :
    name ∉ (entries.filter fun entry => entry.1 != name).map Prod.fst := by
  simp only [List.mem_map, List.mem_filter, bne_iff_ne, not_exists, not_and, and_imp]
  intro entry _ differs same
  exact differs same

/-- The latest formula of a name replaces all earlier ones. -/
def define (bindings : Bindings) (name : String) (formula : Formula) : Bindings where
  entries := (name, formula) :: bindings.entries.filter fun entry => entry.1 != name
  distinct := by
    rw [List.map_cons, List.nodup_cons]
    exact ⟨not_mem_filter_names name bindings.entries,
      bindings.distinct.sublist ((List.filter_sublist).map Prod.fst)⟩

def find? (bindings : Bindings) (name : String) : Option Formula :=
  bindings.entries.lookup name

def size (bindings : Bindings) : Nat :=
  bindings.entries.length

def isEmpty (bindings : Bindings) : Bool :=
  bindings.entries.isEmpty

/-- Defines the names from left to right. -/
def ofList (definitions : List (String × Formula)) : Bindings :=
  definitions.foldl (fun bindings entry => bindings.define entry.1 entry.2) empty

/-- Removing the entries of one name does not affect other names. -/
theorem lookup_filter_of_ne {name other : String} (differs : other ≠ name)
    (entries : List (String × Formula)) :
    (entries.filter fun entry => entry.1 != name).lookup other = entries.lookup other := by
  induction entries with
  | nil => rfl
  | cons entry rest inductionHypothesis =>
      by_cases same : entry.1 = name
      · have apart : (other == entry.1) = false := by simpa [same] using differs
        rw [List.filter_cons_of_neg (by simp [same]), List.lookup_cons, apart,
          inductionHypothesis]
      · rw [List.filter_cons_of_pos (by simp [same]), List.lookup_cons, List.lookup_cons,
          inductionHypothesis]

/-- A definition changes what is found for its own name only. -/
theorem find?_define (bindings : Bindings) (name other : String) (formula : Formula) :
    (bindings.define name formula).find? other =
      if other = name then some formula else bindings.find? other := by
  rw [find?, define, List.lookup_cons]
  by_cases same : other = name
  · simp [same]
  · rw [if_neg same, beq_false_of_ne same]
    exact lookup_filter_of_ne same bindings.entries

/-- What is found is one of the entries. -/
theorem mem_entries_of_find? {bindings : Bindings} {name : String} {formula : Formula}
    (found : bindings.find? name = some formula) : (name, formula) ∈ bindings.entries := by
  obtain ⟨before, after, split, _⟩ := List.lookup_eq_some_iff.1 found
  rw [split]
  exact List.mem_append_right before List.mem_cons_self

/-- Exactly the names with entries are found. -/
theorem isSome_find?_iff {bindings : Bindings} {name : String} :
    (bindings.find? name).isSome ↔ name ∈ bindings.entries.map Prod.fst := by
  rw [find?, List.lookup_isSome_iff, List.mem_map]
  exact exists_congr fun entry => and_congr_right fun _ => by rw [beq_iff_eq, eq_comm]

/-- Two bindings are equal when they bind the same names to equal formulas. -/
def equal (left right : Bindings) : Bool :=
  left.size == right.size &&
    left.entries.all fun entry =>
      match right.find? entry.1 with
      | some formula => entry.2.equal formula
      | none => false

instance : BEq Bindings := ⟨equal⟩

/-- The depths of all bound formulas together. -/
def depth (bindings : Bindings) : Nat :=
  bindings.entries.foldr (fun entry total => entry.2.depth + total) 0

end Bindings

end PriceFormula
