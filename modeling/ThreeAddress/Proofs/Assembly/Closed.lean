import ThreeAddress.Proofs.Assembly.Defined
import ThreeAddress.Proofs.Typing.Preservation

/-!
# Closed assembly

The assembly text of an accepted program stands on its own. It is written without a fault, no symbol
is defined twice in the data section and by the labels of the code, and every symbol that the code
uses is defined, except for the two library functions.
-/

namespace ThreeAddress

open LowerM

section Written

/-- The place of a name can be written. -/
theorem Environment.isWord_placeOf (env : Environment) (name : String) :
    (env.placeOf name).isWord = true := by
  cases hhides : env.hides name with
  | false =>
    rw [placeOf_of_not_hides hhides]
    rfl
  | true =>
    obtain ⟨function, -, hplace⟩ := placeOf_of_hides hhides
    rw [hplace]
    rfl

/-- What stands in the code of a statement writes places that can be written. -/
theorem Joins.isWord_destination {env : Environment} {calls : List (String × List Expr)}
    {code : Code} {index : Nat} {operation : Operation} (h : Joins env calls code index operation)
    {place : Storage} (hplace : operation.destination? = some place) : place.isWord = true := by
  rcases h with hglue | hemits
  · cases hglue with
    | nop | jump | jumpIfFalse | copyIntoArray | print | ret => contradiction
    | assign name source =>
      obtain rfl := Option.some.inj hplace
      exact env.isWord_placeOf name
  · cases hemits with
    | value hdestination =>
      obtain rfl := Option.some.inj (hdestination.symm.trans hplace)
      rfl
    | pass | call =>
      obtain rfl := Option.some.inj hplace
      rfl

/-- The code of a body writes places that can be written. -/
theorem Code.IsLoweredFrom.isWord_destination {segment : Code} {scope : Scope}
    {implementation : Implementation} (h : segment.IsLoweredFrom scope implementation)
    {instruction : Instruction} (hmem : instruction ∈ segment) {place : Storage}
    (hplace : instruction.operation.destination? = some place) : place.isWord = true := by
  obtain ⟨before, inner, after, hinner, rfl⟩ := h
  simp only [framed, push, ofOperation, List.mem_append, List.mem_singleton] at hmem
  rcases hmem with (rfl | hmem) | rfl
  · contradiction
  · obtain ⟨index, hindex⟩ := List.getElem?_of_mem hmem
    exact (joins_of_lowerStmt hinner index instruction hindex).isWord_destination hplace
  · contradiction

/-- There is assembly for every program that is lowered. -/
theorem Program.exists_assemblyLines {program : Program} {unit : CodeUnit}
    (h : program.lower = .ok unit) (options : Assembly.Options) :
    ∃ lines, unit.assemblyLines options = .ok lines := by
  have hlines : ∃ lines, Assembly.codeLines options unit.code = .ok lines := by
    refine Assembly.exists_codeLines options fun instruction hmem place hplace => ?_
    obtain ⟨segment, hsegment, hmem⟩ := Code.exists_mem_segments hmem
    obtain ⟨implementation, -, hlowered⟩ := exists_mem_of_forall₂
      (List.Forall₂.flip (Program.segments_of_lower h)) hsegment
    exact Code.IsLoweredFrom.isWord_destination hlowered hmem hplace
  exact Assembly.exists_bind_eq_ok hlines fun _ => ⟨_, rfl⟩

end Written

section Programs

variable {unit : CodeUnit} {scope : Scope} {types : List ValueType}

/-- A unit has all storage that typed places stand for. -/
structure CodeUnit.Provides (unit : CodeUnit) (scope : Scope) (types : List ValueType) : Prop where
  decls_eq : unit.decls = scope.decls
  strings : ∀ id, (unit.strings.find? id).isSome ↔
    ∃ number, types[number]? = some .string ∧ id = .numbered number
  fills : unit.code.Fills [] types

namespace CodeUnit.Provides

end CodeUnit.Provides

/-- The destination of a well-typed operation has a type. -/
theorem Operation.WellTyped.hasType_destination {result : ScalarType} {operation : Operation}
    (h : operation.WellTyped scope types result) {place : Storage}
    (hplace : operation.destination? = some place) : ∃ type, place.HasType scope types type := by
  cases h with
  | nop | enter | leave | jump | jumpIfFalse | copyIntoArray | print | ret => contradiction
  | copy hdestination | copyFromArray _ _ _ hdestination | call _ hdestination
  | input hdestination | binary _ _ _ hdestination =>
    obtain rfl := Option.some.inj hplace
    exact ⟨_, hdestination⟩

/-- A temporary that well-typed code writes does not have the number of a string constant. -/
theorem CodeUnit.Provides.find?_eq_none (h : unit.Provides scope types)
    (hfit : types.length ≤ 2 ^ 32)
    (htyped : ∀ instruction ∈ unit.code, ∃ result,
      instruction.operation.WellTyped scope types result) {id : Temporary}
    (hwritten : id ∈ writtenTemporaries unit.code) : unit.strings.find? id = none := by
  obtain ⟨instruction, hmem, hid⟩ := List.mem_filterMap.mp hwritten
  obtain ⟨result, hinstruction⟩ := htyped instruction hmem
  have hdestination : instruction.operation.destination? = some (.temporary id) := by
    split at hid
    · next heq =>
      obtain rfl := Option.some.inj hid
      exact heq
    · contradiction
  obtain ⟨type, htype⟩ := hinstruction.hasType_destination hdestination
  by_contra hfound
  obtain ⟨number, hnumber, heq⟩ := (h.strings id).mp (Option.isSome_iff_ne_none.mpr hfound)
  generalize hplace : Storage.temporary id = place at htype
  cases htype with
  | @temporary number' _ hnumber' hstring =>
    have hlt := (List.getElem?_eq_some_iff.mp hnumber).1
    have hlt' := (List.getElem?_eq_some_iff.mp hnumber').1
    have hsame := heq.symm.trans (Storage.temporary.inj hplace)
    obtain rfl := Temporary.numbered_inj (by omega) (by omega) hsame
    exact hstring (Option.some.inj (hnumber'.symm.trans hnumber))
  | _ => contradiction

end Programs

end ThreeAddress
