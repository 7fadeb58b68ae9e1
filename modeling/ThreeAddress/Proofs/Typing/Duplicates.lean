import Mathlib.Data.List.Count
import Mathlib.Data.List.Dedup
import Mathlib.Data.List.FinRange
import ThreeAddress.Check.Program

/-!
# Names that stand several times in a list

A name that is declared, or implemented, several times is reported at every occurrence but its last.
The checker goes down the list and looks at what is left of it; here the occurrences are told apart
by their positions, and counted name by name. The lists of declarations and of bodies are treated
alike, because both are looked at as lists of names.
-/

namespace ThreeAddress

/-- Whether the name at a position has a later occurrence. -/
def occursAfter (names : List String) (position : Fin names.length) : Bool :=
  decide (names[position] ∈ names.drop (position + 1))

/-- The positions of the occurrences that have a later one, in order. -/
def repeatedPositions (names : List String) : List (Fin names.length) :=
  (List.finRange names.length).filter (occursAfter names)

/-- Diagnostics report what is repeated among names: every occurrence of a name but the last. -/
structure ReportsRepeats (report : String → Diagnostic) (names : List String)
    (diagnostics : List Diagnostic) : Prop where
  /-- They stand in the order of the occurrences that have a later one. -/
  inOrder : diagnostics = (repeatedPositions names).map fun position => report names[position]
  /-- A name that occurs is reported once less than it occurs. -/
  count : ∀ name ∈ names, diagnostics.count (report name) + 1 = names.count name
  /-- A name that does not occur is not reported. -/
  absent : ∀ name ∉ names, report name ∉ diagnostics
  /-- Nothing is reported exactly if all names are distinct. -/
  empty_iff : diagnostics = [] ↔ names.Nodup
  /-- The reports make up for the difference to the number of distinct names. -/
  length : diagnostics.length + names.dedup.length = names.length

section Names

variable {name : String} {names rest : List String}

/-- A name in front is repeated if it is among the others, which move on by one position. -/
theorem repeatedPositions_cons (name : String) (rest : List String) :
    repeatedPositions (name :: rest) =
      (if name ∈ rest then [0] else []) ++ (repeatedPositions rest).map Fin.succ := by
  have htail : ((List.finRange rest.length).map Fin.succ).filter (occursAfter (name :: rest)) =
      (repeatedPositions rest).map Fin.succ := List.filter_map
  have hpositions : List.finRange (name :: rest).length =
      0 :: (List.finRange rest.length).map Fin.succ := List.finRange_succ
  have hhead : occursAfter (name :: rest) (0 : Fin (rest.length + 1)) = decide (name ∈ rest) := rfl
  rw [repeatedPositions, hpositions, List.filter_cons, htail, hhead]
  by_cases hmem : name ∈ rest
  · rw [if_pos (decide_eq_true hmem), if_pos hmem, List.singleton_append]
  · rw [if_neg fun h => hmem (of_decide_eq_true h), if_neg hmem, List.nil_append]

/-- The names that are repeated stand in the order of the occurrences that have a later one. -/
theorem repeatedNames_eq_map (names : List String) :
    repeatedNames names = (repeatedPositions names).map fun position => names[position] := by
  induction names with
  | nil => rfl
  | cons name rest ih =>
    rw [repeatedPositions_cons, List.map_append, List.map_map, repeatedNames, ih]
    split <;> rfl

/-- Only names that occur are repeated. -/
theorem repeatedNames_sublist (names : List String) : (repeatedNames names).Sublist names := by
  induction names with
  | nil => exact .slnil
  | cons name rest ih =>
    rw [repeatedNames]
    split
    · exact ih.cons_cons name
    · exact ih.cons name

/-- A name that occurs is repeated once less than it occurs. -/
theorem count_repeatedNames (h : name ∈ names) :
    (repeatedNames names).count name + 1 = names.count name := by
  induction names with
  | nil => contradiction
  | cons head rest ih =>
    rw [repeatedNames]
    by_cases hmem : name ∈ rest
    · have hrest := ih hmem
      by_cases hhead : head = name
      · subst hhead
        rw [if_pos hmem, List.count_cons_self, List.count_cons_self, hrest]
      · rw [List.count_cons_of_ne hhead, ← hrest]
        split
        · rw [List.count_cons_of_ne hhead]
        · rfl
    · -- the only occurrence is in front
      obtain rfl := (List.mem_cons.mp h).resolve_right hmem
      have hnone : name ∉ repeatedNames rest := fun h => hmem ((repeatedNames_sublist rest).subset h)
      rw [if_neg hmem, List.count_cons_self, List.count_eq_zero.mpr hnone,
        List.count_eq_zero.mpr hmem]

/-- With the distinct names, the repeated ones are as many as all. -/
theorem length_repeatedNames (names : List String) :
    (repeatedNames names).length + names.dedup.length = names.length := by
  induction names with
  | nil => rfl
  | cons name rest ih =>
    rw [repeatedNames, List.length_cons]
    by_cases hmem : name ∈ rest
    · rw [if_pos hmem, List.dedup_cons_of_mem hmem, List.length_cons]
      omega
    · rw [if_neg hmem, List.dedup_cons_of_notMem hmem, List.length_cons]
      omega

end Names

/-- Names that are reported where they are repeated are reported as they should be. -/
theorem reportsRepeats {report : String → Diagnostic} (hreport : Function.Injective report)
    (names : List String) : ReportsRepeats report names ((repeatedNames names).map report) where
  inOrder := by
    rw [repeatedNames_eq_map, List.map_map]
    rfl
  count name hname := by
    rw [List.count_map_of_injective _ report hreport, count_repeatedNames hname]
  absent name hname hmem :=
    hname ((repeatedNames_sublist names).subset ((List.mem_map_of_injective hreport).mp hmem))
  empty_iff := by rw [List.map_eq_nil_iff, repeatedNames_eq_nil_iff]
  length := by rw [List.length_map, length_repeatedNames]

/-- Whatever is declared and implemented, both lists are checked for repeated names alike: every
occurrence that has a later one is reported. -/
theorem duplicates_reported (decls : List Decl) (implementations : List Implementation) :
    ReportsRepeats .duplicateDeclaration (decls.map Decl.name) (checkDeclarations decls) ∧
      ReportsRepeats .duplicateImplementation (implementations.map Implementation.name)
        (checkImplementations implementations) :=
  ⟨reportsRepeats (fun _ _ => Diagnostic.duplicateDeclaration.inj) _,
    reportsRepeats (fun _ _ => Diagnostic.duplicateImplementation.inj) _⟩

end ThreeAddress
