import ThreeAddress.Compile
import ThreeAddress.Proofs.Assembly.Closed

/-!
# Compilation succeeds

A program without diagnostics is compiled, whatever the options. A program with diagnostics can be
rejected for them, and it can fail to be lowered, but nothing else goes wrong: lowering never makes
an instruction that has no assembly.
-/

namespace ThreeAddress

section Outcomes

variable {program : Program} {unit : CodeUnit}

/-- There is assembly text for every program that is lowered. -/
theorem Program.exists_assemble (h : program.lower = .ok unit) (options : Assembly.Options) :
    ∃ text, unit.assemble options = .ok text :=
  Assembly.exists_bind_eq_ok (Program.exists_assemblyLines h options) fun _ => ⟨_, rfl⟩

/-- A program is not rejected that has no diagnostics or may have some. -/
theorem Program.denied_eq_false {options : CompileOptions}
    (hallowed : options.denyWarnings = true → program.check = []) :
    (options.denyWarnings && !program.check.isEmpty) = false := by
  cases hdeny : options.denyWarnings with
  | false => rfl
  | true =>
    rw [hallowed hdeny]
    rfl

/-- A program that is not rejected is compiled to the assembly text of its code. -/
theorem Program.compile_eq_ok {options : CompileOptions} {text : String}
    (hallowed : options.denyWarnings = true → program.check = []) (hlower : program.lower = .ok unit)
    (htext : unit.assemble options.assembly = .ok text) :
    program.compile options = .ok ⟨program.check, text⟩ := by
  dsimp only [compile]
  rw [denied_eq_false hallowed, hlower]
  change (unit.assemble options.assembly).mapError CompileError.fault >>= _ = _
  rw [htext]
  rfl

/-- A program that can not be lowered is not compiled, if it is not rejected before. -/
theorem Program.compile_eq_lowering {options : CompileOptions} {cause : LoweringError}
    (hallowed : options.denyWarnings = true → program.check = [])
    (hlower : program.lower = .error cause) :
    program.compile options = .error (.lowering cause) := by
  dsimp only [compile]
  rw [denied_eq_false hallowed, hlower]
  rfl

/-- A program with diagnostics is rejected if they are denied. -/
theorem Program.compile_eq_rejected {options : CompileOptions} (hdeny : options.denyWarnings = true)
    (hcheck : program.check ≠ []) :
    program.compile options = .error (.rejected program.check) := by
  have hdenied : (options.denyWarnings && !program.check.isEmpty) = true := by
    rw [hdeny, List.isEmpty_eq_false_iff.mpr hcheck]
    rfl
  dsimp only [compile]
  rw [hdenied]
  rfl

/-- Compilation never ends in an instruction that has no assembly. -/
theorem Program.compile_ne_fault (program : Program) (options : CompileOptions)
    (fault : Assembly.Fault) : program.compile options ≠ .error (.fault fault) := by
  by_cases hallowed : options.denyWarnings = true → program.check = []
  · cases hlower : program.lower with
    | error cause =>
      rw [Program.compile_eq_lowering hallowed hlower]
      simp
    | ok unit =>
      obtain ⟨text, htext⟩ := Program.exists_assemble hlower options.assembly
      rw [Program.compile_eq_ok hallowed hlower htext]
      simp
  · obtain ⟨hdeny, hcheck⟩ := Classical.not_imp.mp hallowed
    rw [Program.compile_eq_rejected hdeny hcheck]
    simp

end Outcomes

/-- A program without diagnostics is lowered and compiled to the assembly text of its code, also if
diagnostics are denied. There is assembly text for every program that is lowered, with and without
comments, and no compilation ends in an instruction that has no assembly. -/
theorem accepted_compiles (program : Program) :
    (program.check = [] → ∀ options : CompileOptions, ∃ unit text,
      program.lower = .ok unit ∧ unit.assemble options.assembly = .ok text ∧
        program.compile options = .ok ⟨[], text⟩) ∧
      (∀ unit, program.lower = .ok unit → ∀ options, ∃ text, unit.assemble options = .ok text) ∧
      ∀ options fault, program.compile options ≠ .error (.fault fault) := by
  refine ⟨fun hcheck options => ?_, fun unit hlower options => ?_, program.compile_ne_fault⟩
  · obtain ⟨unit, types, hlower, -⟩ := Program.exists_typing_of_check hcheck
    obtain ⟨text, htext⟩ := Program.exists_assemble hlower options.assembly
    have hcompile := Program.compile_eq_ok (fun _ => hcheck) hlower htext
    rw [hcheck] at hcompile
    exact ⟨unit, text, hlower, htext, hcompile⟩
  · exact Program.exists_assemble hlower options

/-- The measuring program is compiled although diagnostics are denied, and there is assembly text for
the program with branches, which has diagnostics. -/
theorem measuring_compiles :
    (∃ unit text, measuring.lower = .ok unit ∧ unit.assemble ⟨true, false⟩ = .ok text ∧
      measuring.compile ⟨true, ⟨true, false⟩⟩ = .ok ⟨[], text⟩) ∧
      branching.check ≠ [] ∧ ∃ text, branchingUnit.assemble ⟨true, false⟩ = .ok text := by
  obtain ⟨haccepted, -, -⟩ := accepted_compiles measuring
  obtain ⟨-, hlowered, -⟩ := accepted_compiles branching
  exact ⟨haccepted rfl ⟨true, ⟨true, false⟩⟩, by decide,
    hlowered branchingUnit branching_lower ⟨true, false⟩⟩

end ThreeAddress
