import ThreeAddress.Proofs.Assembly.Uses
import ThreeAddress.Proofs.Control.Segments
import Mathlib.Data.List.Perm.Basic

/-!
# The symbols that assembly defines

The data section defines a symbol for everything that it lays out, and the code one for each of its
labels and for the entry of each function; moves that are left out define nothing. All is told in
terms of what the symbols stand for: nothing is laid out twice if temporaries and string constants
have different numbers, and nothing is marked twice if labels and functions are distinct.
-/

namespace ThreeAddress

open LowerM

/-- The parameters of all functions are those of each declared one. -/
theorem mem_allParams_iff {decls : List Decl} {function : String} {param : Param} :
    (function, param) ∈ allParams decls ↔
      ∃ result params, .function result function params ∈ decls ∧ param ∈ params := by
  rw [allParams, List.mem_flatMap]
  constructor
  · rintro ⟨decl, hdecl, hparam⟩
    cases decl with
    | scalar | array => exact absurd hparam List.not_mem_nil
    | function result declared params =>
      obtain ⟨bound, hbound, heq⟩ := List.mem_map.mp hparam
      obtain ⟨rfl, rfl⟩ := Prod.mk.inj heq
      exact ⟨result, params, hdecl, hbound⟩
  · rintro ⟨result, params, hdecl, hparam⟩
    exact ⟨_, hdecl, List.mem_map_of_mem hparam⟩

/-- Whether a place can be written. -/
def Storage.isWord : Storage → Bool
  | .constant _ | .string _ => false
  | _ => true

/-- The function that an operation is the entry of. -/
def Operation.entered? : Operation → Option String
  | .enter function => some function
  | _ => none

/-- What an instruction defines the symbols of: its label, and the function it is the entry of. -/
def Instruction.marks (instruction : Instruction) : List Referent :=
  (instruction.label?.map .mark).toList ++ (instruction.operation.entered?.map .entry).toList

/-- The symbol that a line defines. -/
def Assembly.Line.defined? : Line → Option String
  | .label name => some name
  | _ => none

/-- The names that a declaration introduces. -/
def Decl.names : Decl → List String
  | .function _ name params => name :: params.map Param.name
  | decl => [decl.name]

namespace Assembly

variable {options : Options} {code : Code} {lines : List Line}

/-- A sequence has no fault if neither of its steps has. -/
theorem exists_bind_eq_ok {first : Except Fault α} {second : α → Except Fault β}
    (hfirst : ∃ middle, first = .ok middle)
    (hsecond : ∀ middle, ∃ value, second middle = .ok value) :
    ∃ value, first >>= second = .ok value := by
  obtain ⟨middle, rfl⟩ := hfirst
  exact hsecond middle

/-- There is assembly for an operation that writes a place that can be written, if any. -/
theorem exists_operationLines {operation : Operation}
    (h : ∀ place, operation.destination? = some place → place.isWord = true) :
    ∃ lines, operationLines operation = .ok lines := by
  have hstore : ∀ place : Storage, place.isWord = true → ∃ line, store place = .ok line := by
    intro place hplace
    cases place with
    | constant value | string id => contradiction
    | temporary | «variable» | parameter => exact ⟨_, rfl⟩
  cases operation with
  | nop | enter | leave | jump | jumpIfFalse | copyIntoArray | print | ret => exact ⟨_, rfl⟩
  | copy | copyFromArray | call | binary =>
    exact exists_bind_eq_ok (hstore _ (h _ rfl)) fun _ => ⟨_, rfl⟩
  | input type destination =>
    have hword := h _ rfl
    cases destination with
    | constant value | string id => contradiction
    | temporary | «variable» | parameter => exact ⟨_, rfl⟩

/-- There is assembly for code that writes nothing but places that can be written. -/
theorem exists_codeLines (options : Options)
    (h : ∀ instruction ∈ code, ∀ place, instruction.operation.destination? = some place →
      place.isWord = true) : ∃ lines, codeLines options code = .ok lines := by
  induction code with
  | nil => exact ⟨[], rfl⟩
  | cons instruction rest ih =>
    obtain ⟨hinstruction, hrest⟩ := List.forall_mem_cons.mp h
    have hown : ∃ own, instructionLines options instruction = .ok own :=
      exists_bind_eq_ok (exists_operationLines hinstruction) fun _ => ⟨_, rfl⟩
    exact exists_bind_eq_ok hown fun _ => exists_bind_eq_ok (ih hrest) fun _ => ⟨_, rfl⟩

/-- Instructions define nothing. -/
theorem defined?_of_isInstruction {line : Line} (h : line.isInstruction = true) :
    line.defined? = none := by
  cases line with
  | instruction content => rfl
  | label | comment => contradiction

/-- Comments define nothing. -/
@[simp] theorem defined_annotationLines (options : Options) (operation : Operation) :
    (annotationLines options operation).filterMap Line.defined? = [] := by
  refine List.filterMap_eq_nil_iff.mpr fun line hline => ?_
  rw [eq_of_annotates hline]
  rfl

/-- The lines of an operation define the symbol of the function that it is the entry of. -/
theorem defined_operationLines {operation : Operation} (h : operationLines operation = .ok lines) :
    lines.filterMap Line.defined? =
      (operation.entered?.map Referent.entry).toList.map Referent.symbol := by
  obtain ⟨function, rfl, rfl⟩ | ⟨hnot, hlines⟩ := operationLines_cases h
  · rfl
  · have hnone : operation.entered? = none := by
      cases operation with
      | enter function => exact absurd rfl (hnot function)
      | _ => rfl
    rw [hnone]
    exact List.filterMap_eq_nil_iff.mpr fun line hline => defined?_of_isInstruction
      (hlines line hline)

/-- The lines of some code define the symbols of what its instructions define. -/
theorem defined_codeLines (h : codeLines options code = .ok lines) :
    lines.filterMap Line.defined? =
      (code.flatMap ThreeAddress.Instruction.marks).map Referent.symbol := by
  induction code generalizing lines with
  | nil =>
    obtain rfl := Except.ok.inj h
    rfl
  | cons instruction rest ih =>
    obtain ⟨own, hown, h⟩ := exists_of_bind_eq_ok h
    obtain ⟨others, hothers, h⟩ := exists_of_bind_eq_ok h
    obtain rfl := Except.ok.inj h
    obtain ⟨expanded, hexpanded, hown⟩ := exists_of_bind_eq_ok hown
    obtain rfl := Except.ok.inj hown
    have hlabel : (labelLines instruction.label?).filterMap Line.defined? =
        (instruction.label?.map Referent.mark).toList.map Referent.symbol := by
      cases instruction.label? <;> rfl
    simp only [List.filterMap_append, hlabel, defined_annotationLines,
      defined_operationLines hexpanded, ih hothers, List.flatMap_cons,
      ThreeAddress.Instruction.marks, List.map_append, List.append_nil]

end Assembly

namespace CodeUnit

/-- The symbols that are defined, by the data section and by the labels of some lines. -/
def definedSymbols (unit : CodeUnit) (lines : List Assembly.Line) : List String :=
  unit.data.map Datum.symbol ++ lines.filterMap Assembly.Line.defined?

/-- The numbers that the data section lays out: those of string constants, and those of the
temporaries that are written. -/
def reservedNumbers (unit : CodeUnit) : List Temporary :=
  unit.strings.entries.map Prod.fst ++ firstsBy id (writtenTemporaries unit.code)

/-- What the data section lays out. -/
def reserved (unit : CodeUnit) : List Referent :=
  ((firstsBy Decl.name (unit.decls.filter Decl.isStored)).map Decl.name).map .variable
    ++ ((firstsBy (fun entry => (entry.1, entry.2.name)) (allParams unit.decls)).map
      fun entry => (entry.1, entry.2.name)).map (fun entry => .parameter entry.1 entry.2)
    ++ unit.reservedNumbers.map .number
    ++ [.format .int, .format .float, .format .char, .printFormat]

/-- The data section defines the symbols of what it lays out. -/
theorem symbols_data (unit : CodeUnit) :
    unit.data.map Datum.symbol = unit.reserved.map Referent.symbol := by
  have hstored : ∀ decls : List Decl, (∀ decl ∈ decls, decl.isStored = true) →
      (decls.filterMap Datum.ofDecl?).map Datum.symbol =
        (decls.map Decl.name).map fun name => (Referent.variable name).symbol := by
    intro decls hdecls
    induction decls with
    | nil => rfl
    | cons decl rest ih =>
      obtain ⟨hdecl, hrest⟩ := List.forall_mem_cons.mp hdecls
      cases decl with
      | scalar | array => exact congrArg _ (ih hrest)
      | function => contradiction
  have hkept : ∀ decl ∈ firstsBy Decl.name (unit.decls.filter Decl.isStored),
      decl.isStored = true :=
    fun decl hmem => (List.mem_filter.mp (mem_of_mem_firstsBy hmem)).2
  simp only [data, reserved, reservedNumbers, List.map_append, hstored _ hkept, List.map_map,
    List.append_assoc]
  rfl

section Members

variable {unit : CodeUnit}

/-- What is laid out is named by declarations. -/
theorem exists_decl_of_mem_reserved {referent : Referent} (h : referent ∈ unit.reserved)
    {name : String} (hname : name ∈ referent.names) :
    ∃ decl ∈ unit.decls, name ∈ decl.names := by
  simp only [reserved, List.mem_append] at h
  rcases h with ((hvariable | hparameter) | hnumber) | hformat
  · obtain ⟨declared, hdeclared, rfl⟩ := List.mem_map.mp hvariable
    obtain ⟨decl, hdecl, rfl⟩ := List.mem_map.mp hdeclared
    obtain rfl := List.mem_singleton.mp hname
    have hmem : decl ∈ unit.decls := (List.mem_filter.mp (mem_of_mem_firstsBy hdecl)).1
    exact ⟨decl, hmem, by cases decl <;> exact List.mem_cons_self⟩
  · obtain ⟨entry, hentry, rfl⟩ := List.mem_map.mp hparameter
    obtain ⟨⟨function, param⟩, hfirst, rfl⟩ := List.mem_map.mp hentry
    obtain ⟨result, params, hdecl, hparam⟩ := mem_allParams_iff.mp (mem_of_mem_firstsBy hfirst)
    refine ⟨_, hdecl, ?_⟩
    rcases List.mem_cons.mp hname with rfl | hname
    · exact List.mem_cons_self
    · obtain rfl := List.mem_singleton.mp hname
      exact List.mem_cons_of_mem _ (List.mem_map_of_mem hparam)
  · obtain ⟨id, -, rfl⟩ := List.mem_map.mp hnumber
    exact absurd hname List.not_mem_nil
  · simp only [List.mem_cons, List.not_mem_nil, or_false] at hformat
    rcases hformat with rfl | rfl | rfl | rfl <;> exact absurd hname List.not_mem_nil

/-- The names of what is laid out have no points, if the names of the program have none. -/
theorem isPlain_of_mem_reserved
    (hnames : ∀ decl ∈ unit.decls, ∀ name ∈ decl.names, '.' ∉ name.toList) {referent : Referent}
    (h : referent ∈ unit.reserved) : referent.IsPlain := by
  have hpoint : ∀ name ∈ referent.names, '.' ∉ name.toList := by
    intro name hname
    obtain ⟨decl, hdecl, hmem⟩ := exists_decl_of_mem_reserved h hname
    exact hnames decl hdecl name hmem
  cases referent with
  | «variable» name => exact hpoint name List.mem_cons_self
  | parameter function name =>
    exact ⟨hpoint function List.mem_cons_self,
      hpoint name (List.mem_cons_of_mem _ List.mem_cons_self)⟩
  | number | format | printFormat | entry | mark => trivial

end Members

end CodeUnit

section Marks

variable {code : Code}

end Marks

namespace CodeUnit

variable {unit : CodeUnit} {options : Assembly.Options} {lines : List Assembly.Line}

/-- The lines of a unit are some of those of its code. -/
theorem exists_of_assemblyLines (h : unit.assemblyLines options = .ok lines) :
    ∃ all, Assembly.codeLines options unit.code = .ok all ∧
      lines = Assembly.Peephole.kept none all := by
  obtain ⟨all, hall, h⟩ := Assembly.exists_of_bind_eq_ok h
  exact ⟨all, hall, (Except.ok.inj h).symm⟩

end CodeUnit

end ThreeAddress
