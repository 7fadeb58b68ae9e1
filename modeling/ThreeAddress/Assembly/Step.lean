import ThreeAddress.Assembly.Writer

/-!
# Writing assembly step by step

Assembly text is written in steps. Most of them are one line; a call is bracketed by saving and
restoring the frame pointer, which also aligns the stack, and steps can be taken between the
call and the restoring, where the result is still in its register.
-/

namespace ThreeAddress

namespace Assembly

/-- A step of writing assembly. -/
inductive Step where
  /-- An instruction given by its text. -/
  | emit (text : String)
  | label (name : String)
  | comment (text : String)
  | mov (source destination : Operand)
  | lea (source : Operand) (destination : Register)
  | push (register : Register)
  | pop (register : Register)
  /-- A call with the steps between it and the restoring of the frame pointer. -/
  | call (function : String) (inside : List Step)

/-- A call with the lines between it and the restoring of the frame pointer. -/
def callLines (function : String) (inside : List Line) : List Line :=
  [.instruction (.push .rbp), .instruction (.call function)] ++ inside
    ++ [.instruction (.pop .rbp)]

mutual

/-- The lines of a step, before any move is left out. -/
def Step.lines : Step → List Line
  | .emit text => [.instruction (.verbatim text)]
  | .label name => [.label name]
  | .comment text => [.comment text]
  | .mov source destination => [.instruction (.mov source destination)]
  | .lea source destination => [.instruction (.lea source destination)]
  | .push register => [.instruction (.push register)]
  | .pop register => [.instruction (.pop register)]
  | .call function inside => callLines function (Step.linesOf inside)

/-- The lines of a sequence of steps. -/
def Step.linesOf : List Step → List Line
  | [] => []
  | step :: rest => step.lines ++ Step.linesOf rest

end

mutual

/-- Takes a step of writing. -/
def Step.writeTo (writer : Writer) : Step → Writer
  | .emit text => writer.write (.instruction (.verbatim text))
  | .label name => writer.write (.label name)
  | .comment text => writer.write (.comment text)
  | .mov source destination => writer.write (.instruction (.mov source destination))
  | .lea source destination => writer.write (.instruction (.lea source destination))
  | .push register => writer.write (.instruction (.push register))
  | .pop register => writer.write (.instruction (.pop register))
  | .call function inside =>
    let called := (writer.write (.instruction (.push .rbp))).write (.instruction (.call function))
    (Step.writeAllTo called inside).write (.instruction (.pop .rbp))

/-- Takes steps of writing one after the other. -/
def Step.writeAllTo (writer : Writer) : List Step → Writer
  | [] => writer
  | step :: rest => Step.writeAllTo (step.writeTo writer) rest

end

/-- The text that each step adds, from a writer on. -/
def Step.textsFrom (writer : Writer) : List Step → List String
  | [] => []
  | step :: rest =>
    let after := step.writeTo { writer with output := "" }
    after.output :: Step.textsFrom after rest

/-- The text that each step adds, given the move made directly before the first. -/
def Step.texts (moved? : Option Move) (steps : List Step) : List String :=
  Step.textsFrom (.following moved?) steps

end Assembly

end ThreeAddress
