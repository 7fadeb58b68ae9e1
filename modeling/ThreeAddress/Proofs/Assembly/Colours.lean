import ThreeAddress.Compile
import ThreeAddress.Proofs.Assembly.Names
import ThreeAddress.Proofs.Text.Controls

/-!
# Colours

A listing is coloured by escape sequences around some of its runs. All that is listed beside the
names of the program shows: numbers, constants and quoted texts have their controls escaped. So if
no name has controls, the colours of a listing can be taken out of it, and what is left is the
listing without colours. The comments of assembly text are made in this way, and therefore
compilation gives the same text with colours and without.
-/

namespace ThreeAddress

namespace Listing

/-- An operation is listed without controls if the names in it have none. -/
theorem isClean_operation {operation : Operation}
    (h : ∀ name ∈ operation.names, Text.IsClean name) :
    ∀ span ∈ Listing.operation operation, Text.IsClean span.text :=
  all_operation (fun _ => Terminal.isDroppedControl_of_isGraphic) h

/-- An instruction is listed without controls if the names in it have none. -/
theorem isClean_instruction {instruction : ThreeAddress.Instruction}
    (h : ∀ name ∈ instruction.operation.names, Text.IsClean name) :
    ∀ span ∈ Listing.instruction instruction, Text.IsClean span.text := by
  have hmargin : ∀ span ∈ margin instruction.operation, Text.IsClean span.text := by
    unfold margin
    split <;> decide
  refine List.forall_mem_append.mpr
    ⟨List.forall_mem_append.mpr ⟨?_, hmargin⟩, isClean_operation h⟩
  cases instruction.label? with
  | none => decide
  | some label =>
    exact List.forall_mem_cons.mpr
      ⟨Text.all_append.mpr ⟨label.shows_symbol.isClean, by decide⟩, by decide⟩

/-- A string constant is listed without controls, whatever its text. -/
theorem isClean_stringLine (entry : Temporary × String) :
    ∀ span ∈ stringLine entry, Text.IsClean span.text := by
  have hequals : ∀ span ∈ equals, Text.IsClean span.text := by decide
  refine List.forall_mem_cons.mpr
    ⟨entry.1.shows_symbol.isClean, List.forall_mem_append.mpr ⟨hequals, ?_⟩⟩
  exact List.forall_mem_cons.mpr ⟨(Text.shows_quotedString entry.2).isClean, by decide⟩

end Listing

/-- A unit is listed without controls if the names in its code have none. -/
theorem CodeUnit.isClean_listing {unit : CodeUnit}
    (h : ∀ name ∈ unit.code.names, Text.IsClean name) :
    ∀ span ∈ unit.listing, Text.IsClean span.text := by
  refine List.forall_mem_append.mpr ⟨fun span hspan => ?_, fun span hspan => ?_⟩
  · obtain ⟨entry, -, hmem⟩ := List.mem_flatMap.mp hspan
    exact Listing.isClean_stringLine entry span hmem
  · obtain ⟨instruction, hinstruction, hmem⟩ := List.mem_flatMap.mp hspan
    have hnames : ∀ name ∈ instruction.operation.names, Text.IsClean name := fun name hname =>
      h name (List.mem_flatMap.mpr ⟨instruction, hinstruction, hname⟩)
    rcases List.mem_append.mp hmem with hmem | hmem
    · exact Listing.isClean_instruction hnames span hmem
    · rw [List.mem_singleton.mp hmem]
      decide

namespace Assembly

/-- The comment of an operation has no colours if the names in it have no controls. -/
theorem annotationLines_colour {operation : Operation}
    (h : ∀ name ∈ operation.names, Text.IsClean name) (annotate : Bool) :
    annotationLines ⟨annotate, true⟩ operation = annotationLines ⟨annotate, false⟩ operation := by
  have hclean := Listing.isClean_operation h
  unfold annotationLines
  split
  · rfl
  · rw [Styled.withoutControls_render hclean, Styled.withoutControls_render hclean]

/-- The lines of some code have no colours if the names in the code have no controls. -/
theorem codeLines_colour {code : Code} (h : ∀ name ∈ code.names, Text.IsClean name)
    (annotate : Bool) : codeLines ⟨annotate, true⟩ code = codeLines ⟨annotate, false⟩ code := by
  induction code with
  | nil => rfl
  | cons instruction rest ih =>
    obtain ⟨hinstruction, hrest⟩ := List.forall_mem_append.mp h
    rw [codeLines, codeLines, instructionLines, instructionLines,
      annotationLines_colour hinstruction, ih hrest]

end Assembly

/-- The assembly text of a unit has no colours if the names in its code have no controls. -/
theorem CodeUnit.assemble_colour {unit : CodeUnit}
    (h : ∀ name ∈ unit.code.names, Text.IsClean name) (annotate : Bool) :
    unit.assemble ⟨annotate, true⟩ = unit.assemble ⟨annotate, false⟩ := by
  rw [assemble, assemble, assemblyLines, assemblyLines, Assembly.codeLines_colour h]

/-- Compilation depends on how assembly is written only through the text of the lowered program. -/
theorem Program.compile_congr {program : Program} {options other : Assembly.Options}
    (h : ∀ unit, program.lower = .ok unit → unit.assemble options = unit.assemble other)
    (denied : Bool) : program.compile ⟨denied, options⟩ = program.compile ⟨denied, other⟩ := by
  unfold compile
  cases hlower : program.lower with
  | error cause => rfl
  | ok unit =>
    change (if _ then _ else (unit.assemble options).mapError CompileError.fault >>= _) = _
    rw [h unit hlower]
    rfl

/-- Colours never reach the assembly. If no name of a program has controls, the program is compiled
to the same text with colours and without, or fails for the same cause. And if no name in the code
of a unit has controls, its listing with colours is, once escape sequences are taken out, its
listing without. -/
theorem colours_removed :
    (∀ program : Program, (∀ name ∈ program.names, Text.IsClean name) → ∀ denied annotate : Bool,
      program.compile ⟨denied, ⟨annotate, true⟩⟩ = program.compile ⟨denied, ⟨annotate, false⟩⟩) ∧
    ∀ unit : CodeUnit, (∀ name ∈ unit.code.names, Text.IsClean name) →
      Terminal.withoutControls (unit.listing.render true) = unit.listing.render false := by
  constructor
  · intro program hnames denied annotate
    refine Program.compile_congr (fun unit hlower => CodeUnit.assemble_colour ?_ annotate) denied
    exact fun name hname => hnames name (Program.names_of_lower hlower hname)
  · intro unit hnames
    exact Styled.withoutControls_render (CodeUnit.isClean_listing hnames) true

/-- A program that prints a text and a character with controls of their own. -/
def painting : Program where
  decls := [.scalar .char "mark" (.char 'a'), .function .int "main" []]
  implementations := [
    { name := "main"
      body := .block
        [.print (.literal (.string "\x1b[31mred\x1b[0m")),
         .assign "mark" (.literal (.char '\x1b')),
         .ret (.literal (.int 0))] }]

/-- What the program with a text in colours is lowered to. -/
def paintingUnit : CodeUnit where
  decls := painting.decls
  strings := StringPool.empty.insert (.numbered 0) "\x1b[31mred\x1b[0m"
  code :=
    [⟨none, .enter "main"⟩,
     ⟨none, .print (.string (.numbered 0))⟩,
     ⟨none, .copy (.variable "mark") (.constant (.char '\x1b'))⟩,
     ⟨none, .ret (.constant (.int 0))⟩,
     ⟨none, .leave⟩]

/-- Colours are taken out of the listing and of the assembly, although the text has some of its
own. -/
theorem painting_removed :
    (∀ name ∈ painting.names, Text.IsClean name) ∧
      (∃ text, painting.compile ⟨true, ⟨true, true⟩⟩ = .ok ⟨[], text⟩ ∧
        painting.compile ⟨true, ⟨true, false⟩⟩ = .ok ⟨[], text⟩) ∧
      painting.lower = .ok paintingUnit ∧
      (∀ name ∈ paintingUnit.code.names, Text.IsClean name) ∧
      paintingUnit.listing.render true ≠ paintingUnit.listing.render false ∧
      Terminal.withoutControls (paintingUnit.listing.render true) =
        paintingUnit.listing.render false := by
  obtain ⟨hcompile, hlisting⟩ := colours_removed
  have hnames : ∀ name ∈ painting.names, Text.IsClean name := by decide
  have hcode : ∀ name ∈ paintingUnit.code.names, Text.IsClean name := by decide
  exact ⟨hnames, ⟨_, hcompile painting hnames true true, rfl⟩, rfl, hcode, by decide,
    hlisting paintingUnit hcode⟩

end ThreeAddress
