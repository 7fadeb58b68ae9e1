import ThreeAddress.Assembly.Data
import ThreeAddress.Assembly.Selection

/-!
# Assembly units

The assembly text of a lowered program: the data section, the code without the moves that undo
each other, and the marker that the stack need not be executable.
-/

namespace ThreeAddress

/-- The text of the data section. -/
def CodeUnit.dataText (unit : CodeUnit) : String :=
  "\n".intercalate (unit.data.map Datum.line)

/-- The lines of a program's code, without the moves that undo each other. -/
def CodeUnit.assemblyLines (unit : CodeUnit) (options : Assembly.Options) :
    Except Assembly.Fault (List Assembly.Line) := do
  return Assembly.Peephole.kept none (← Assembly.codeLines options unit.code)

/-- The assembly text of a lowered program. -/
def CodeUnit.assemble (unit : CodeUnit) (options : Assembly.Options) :
    Except Assembly.Fault String := do
  let lines ← unit.assemblyLines options
  return ".global main\n\n.data\n" ++ unit.dataText ++ "\n\n.text\n"
    ++ Assembly.linesText lines ++ "\n.section .note.GNU-stack,\"\",@progbits\n"

end ThreeAddress
