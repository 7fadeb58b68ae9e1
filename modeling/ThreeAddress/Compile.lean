import ThreeAddress.Assembly.Unit
import ThreeAddress.Check.Program
import ThreeAddress.Lowering.Program

/-!
# Compilation

A program is checked, lowered and written as assembly. Diagnostics do not stop compilation
unless they are denied; lowering can still fail on a program that has some.
-/

namespace ThreeAddress

/-- How a program is compiled. -/
structure CompileOptions where
  /-- Whether a program with any diagnostic is rejected. -/
  denyWarnings : Bool
  /-- How assembly text is written. -/
  assembly : Assembly.Options

/-- Diagnostics are allowed and assembly text has no comments. -/
def CompileOptions.standard (colour : Bool) : CompileOptions := ⟨false, ⟨false, colour⟩⟩

/-- Why there is no assembly text. -/
inductive CompileError where
  /-- The program has diagnostics, and they were denied. -/
  | rejected (diagnostics : List Diagnostic)
  | lowering (cause : LoweringError)
  | fault (cause : Assembly.Fault)

/-- The sentence of an error. -/
def CompileError.message : CompileError → String
  | .rejected diagnostics =>
    "program rejected with " ++ toString diagnostics.length ++ " diagnostic(s)"
  | .lowering cause => cause.message
  | .fault cause => cause.message

/-- A compiled program. -/
structure Compilation where
  /-- What was wrong with the program. -/
  diagnostics : List Diagnostic
  /-- The assembly text. -/
  assembly : String

/-- Compiles a program. -/
def Program.compile (program : Program) (options : CompileOptions) :
    Except CompileError Compilation := do
  let diagnostics := program.check
  if options.denyWarnings && !diagnostics.isEmpty then
    throw (.rejected diagnostics)
  let unit ← program.lower.mapError .lowering
  let assembly ← (unit.assemble options.assembly).mapError .fault
  return ⟨diagnostics, assembly⟩

/-- The line that reports a diagnostic. -/
def Diagnostic.reportLine (diagnostic : Diagnostic) : Styled :=
  [.styled .boldYellow "warning", .plain (": " ++ diagnostic.message ++ "\n")]

/-- The report on a compiled program, a line for each diagnostic. -/
def Compilation.report (compilation : Compilation) : Styled :=
  compilation.diagnostics.flatMap Diagnostic.reportLine

end ThreeAddress
