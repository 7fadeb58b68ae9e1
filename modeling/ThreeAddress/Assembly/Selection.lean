import ThreeAddress.Assembly.Step
import ThreeAddress.Assembly.Symbol
import ThreeAddress.Code.Unit

/-!
# From three-address code to assembly

Every instruction is expanded on its own: operands are loaded into `rax` and `rcx`, combined
there, and the result is stored. A string is used by its address, a constant by its bits.
Storing into a constant or a string, or reading input into a constant, makes no sense and is a
fault.
-/

namespace ThreeAddress

namespace Assembly

/-- An instruction for which there is no assembly. -/
inductive Fault where
  /-- A constant as a destination. -/
  | storeIntoConstant (value : Immediate)
  /-- The address of a string as a destination. -/
  | storeIntoString (id : Temporary)
  /-- Input into a constant. -/
  | inputIntoConstant (value : Immediate)
  deriving DecidableEq

/-- A constant with its sort, as a fault reports it. -/
def reportConstant : Immediate → String
  | .int value => "Integer(" ++ toString value ++ ")"
  | .float value => "Float(" ++ FloatNotation.listing.text value ++ ")"
  | .char value => "Char(" ++ Quoted.char value ++ ")"

/-- The cause of a fault. -/
def Fault.cause : Fault → String
  | .storeIntoConstant value => "cannot store into Constant(" ++ reportConstant value ++ ")"
  | .storeIntoString id =>
    "cannot store into String(TemporaryId(" ++ toString id.id.toNat ++ "))"
  | .inputIntoConstant value => "constant " ++ reportConstant value ++ " has no memory"

/-- The sentence of a fault. -/
def Fault.message (fault : Fault) : String :=
  "internal error: entered unreachable code: " ++ fault.cause

/-- Loads the value of a place into a register. -/
def load (destination : Register) : Storage → Line
  | .constant value => .instruction (.mov (.immediate value.word) (.register destination))
  | .string id => .instruction (.lea (.memory id.symbol) destination)
  | .temporary id => .instruction (.mov (.memory id.symbol) (.register destination))
  | .variable name =>
    .instruction (.mov (.memory (Symbol.ofVariable name)) (.register destination))
  | .parameter function name =>
    .instruction (.mov (.memory (Symbol.ofParameter function name)) (.register destination))

/-- Stores `rax` into a place. -/
def store : Storage → Except Fault Line
  | .temporary id => .ok (.instruction (.mov (.register .rax) (.memory id.symbol)))
  | .variable name =>
    .ok (.instruction (.mov (.register .rax) (.memory (Symbol.ofVariable name))))
  | .parameter function name =>
    .ok (.instruction (.mov (.register .rax) (.memory (Symbol.ofParameter function name))))
  | .constant value => .error (.storeIntoConstant value)
  | .string id => .error (.storeIntoString id)

/-- The word a place occupies. -/
def wordOf : Storage → Except Fault Operand
  | .constant value => .error (.inputIntoConstant value)
  | .temporary id => .ok (.memory id.symbol)
  | .string id => .ok (.memory id.symbol)
  | .variable name => .ok (.memory (Symbol.ofVariable name))
  | .parameter function name => .ok (.memory (Symbol.ofParameter function name))

/-- Leaves the comparison of `rax` with `rcx` in `rax`, as `0` or `1`. -/
def comparison (condition : Condition) : List Line :=
  [.instruction (.compare (.register .rcx) .rax), .instruction (.set condition .al),
    .instruction (.extendZero .al .rax)]

/-- Combines `rax` and `rcx` into `rax`. -/
def combine : BinaryOp → List Line
  | .add => [.instruction (.word .add .rcx .rax)]
  | .sub => [.instruction (.word .sub .rcx .rax)]
  | .mul => [.instruction (.word .imul .rcx .rax)]
  | .div => [.instruction .extendSign, .instruction (.divide .rcx)]
  | .lt => comparison .less
  | .gt => comparison .greater
  | .le => comparison .lessOrEqual
  | .ge => comparison .greaterOrEqual
  | .eq => comparison .equal
  | .ne => comparison .notEqual
  | .and => [.instruction (.word .and .rcx .rax)]
  | .or => [.instruction (.word .or .rcx .rax)]
  | .xor => [.instruction (.word .xor .rcx .rax)]

/-- A call of a library function with a variable number of arguments, none of which is in a
vector register. -/
def libraryCall (function : String) : List Line :=
  .instruction (.clear .eax) :: callLines function []

/-- The address of an array in `rax`. -/
def loadArray (array : String) : Line :=
  .instruction (.lea (.memory (Symbol.ofVariable array)) .rax)

/-- The lines of an operation. -/
def operationLines : Operation → Except Fault (List Line)
  | .nop => .ok []
  | .enter function => .ok [.label (Symbol.ofFunction function)]
  | .leave => .ok [.instruction .ret]
  | .jump target => .ok [.instruction (.jump target.symbol)]
  | .jumpIfFalse condition target =>
    .ok [load .rax condition, .instruction (.compare (.immediate 0) .rax),
      .instruction (.jumpIfEqual target.symbol)]
  | .copy destination source => do
    return [load .rax source, ← store destination]
  | .copyIntoArray array index source =>
    .ok [load .rcx index, loadArray array, .instruction (.lea (.indexed .rax .rcx) .rcx),
      load .rax source, .instruction (.mov (.register .rax) (.indirect .rcx))]
  | .copyFromArray destination array index => do
    return [load .rcx index, loadArray array,
      .instruction (.mov (.indexed .rax .rcx) (.register .rax)), ← store destination]
  | .call function destination => do
    return callLines (Symbol.ofFunction function) [← store destination]
  | .input type destination => do
    let word ← wordOf destination
    return [.instruction (.lea (.memory (Symbol.ofFormat type)) .rdi),
      .instruction (.lea word .rsi)] ++ libraryCall Symbol.reader
  | .print source =>
    .ok ([.instruction (.lea (.memory Symbol.printFormat) .rdi), load .rsi source]
      ++ libraryCall Symbol.printer)
  | .ret source => .ok [load .rax source, .instruction .ret]
  | .binary op destination lhs rhs => do
    return [load .rax lhs, load .rcx rhs] ++ combine op ++ [← store destination]

/-- How assembly text is written. -/
structure Options where
  /-- Whether each instruction's listing stands as a comment above its lines. -/
  annotate : Bool
  /-- Whether listings are written with colours. -/
  colour : Bool

/-- The comment above an instruction's lines. Colours are taken out of it again, and an
instruction without effect has none. -/
def annotationLines (options : Options) : Operation → List Line
  | .nop => []
  | operation =>
    if options.annotate then
      [.comment (Terminal.withoutControls
        (Styled.render options.colour (Listing.operation operation)))]
    else []

/-- The line that defines a label. -/
def labelLines : Option Label → List Line
  | some label => [.label label.symbol]
  | none => []

/-- The lines of an instruction. -/
def instructionLines (options : Options) (instruction : ThreeAddress.Instruction) :
    Except Fault (List Line) := do
  return labelLines instruction.label? ++ annotationLines options instruction.operation
    ++ (← operationLines instruction.operation)

/-- The lines of some code, before any move is left out. -/
def codeLines (options : Options) : Code → Except Fault (List Line)
  | [] => .ok []
  | instruction :: rest => do
    let lines ← instructionLines options instruction
    return lines ++ (← codeLines options rest)

end Assembly

end ThreeAddress
