import ThreeAddress.Code.Strings
import ThreeAddress.Syntax.Print
import ThreeAddress.Text.Quoted
import ThreeAddress.Text.Styled

/-!
# Listings of three-address code

The readable form of three-address code: one line for each instruction, with its label on a line
of its own in front, and the entries and ends of functions at the margin. Floats are marked as
such, and characters and strings are quoted with escapes. The parts of a line have terminal
styles, which `Styled.render` writes or drops.
-/

namespace ThreeAddress

/-- A constant as it is listed. -/
def Immediate.text : Immediate → String
  | .int value => toString value
  | .float value => FloatNotation.listing.text value
  | .char value => Quoted.char value

namespace Listing

/-- The listed form of a place. -/
def storage : Storage → Styled
  | .variable name => [.plain name]
  | .parameter function name => [.plain (function ++ "." ++ name)]
  | .temporary id => [.styled .yellow id.symbol]
  | .string id => [.styled .yellow id.symbol]
  | .constant value => [.styled .magenta value.text]

/-- The listed form of an array element. -/
def element (array : String) (index : Storage) : Styled :=
  .plain array :: .plain "[" :: storage index ++ [.plain "]"]

/-- The equals sign between a destination and what is written there. -/
def equals : Styled := [.plain " ", .styled .white "=", .plain " "]

/-- The name of an operation, with a blank behind it. -/
def keyword (word : String) : Styled := [.styled .cyan word, .plain " "]

/-- The listed form of an operation. -/
def operation : Operation → Styled
  | .nop => [.styled .cyan "nop"]
  | .enter function =>
    [.styled .magenta "fn", .plain " ", .styled .blue function, .styled .white ":"]
  | .leave => [.styled .magenta "end"]
  | .jump target => keyword "jmp" ++ [.styled .blue target.symbol]
  | .jumpIfFalse condition target =>
    keyword "jmpf" ++ storage condition
      ++ [.styled .white ",", .plain " ", .styled .blue target.symbol]
  | .copy destination source => storage destination ++ equals ++ storage source
  | .copyIntoArray array index source => element array index ++ equals ++ storage source
  | .copyFromArray destination array index =>
    storage destination ++ equals ++ element array index
  | .call function destination =>
    storage destination ++ equals ++ keyword "call" ++ [.styled .blue function]
  | .input type destination =>
    storage destination ++ equals ++ keyword "input" ++ [.plain type.text]
  | .print source => keyword "print" ++ storage source
  | .ret source => keyword "ret" ++ storage source
  | .binary op destination lhs rhs =>
    storage destination ++ equals ++ storage lhs
      ++ [.plain " ", .styled .white op.symbol, .plain " "] ++ storage rhs

/-- Functions stand at the margin, everything inside them is indented. -/
def margin : Operation → Styled
  | .enter _ => []
  | .leave => []
  | _ => [.plain "    "]

/-- The line of a label. -/
def labelLine (label : Label) : Styled :=
  [.styled .brightRed (label.symbol ++ ":"), .plain "\n"]

/-- The listed form of an instruction, without a line end. -/
def instruction (instruction : Instruction) : Styled :=
  (match instruction.label? with
    | some label => labelLine label
    | none => [])
    ++ margin instruction.operation ++ operation instruction.operation

/-- The line of a string constant. -/
def stringLine (entry : Temporary × String) : Styled :=
  .styled .yellow entry.1.symbol :: equals
    ++ [.styled .green (Quoted.string entry.2), .plain "\n"]

/-- The listed form of string constants and code. -/
def lines (strings : StringPool) (code : Code) : Styled :=
  strings.entries.flatMap stringLine
    ++ code.flatMap fun line => instruction line ++ [.plain "\n"]

end Listing

end ThreeAddress
