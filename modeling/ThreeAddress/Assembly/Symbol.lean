import ThreeAddress.Code.Basic

/-!
# Symbols

The names under which storage and code appear in assembly text. Variables start with an
underscore, a parameter adds its function's name and a point, and functions live under `fn.`, so
that none of them can hide a library function or a generated symbol. The entry point alone keeps
its name.
-/

namespace ThreeAddress

namespace Symbol

/-- The symbol of a variable or an array. -/
def ofVariable (name : String) : String := "_" ++ name

/-- The symbol of a function's parameter. -/
def ofParameter (function name : String) : String := "_" ++ function ++ "." ++ name

/-- The symbol of a function. -/
def ofFunction (name : String) : String :=
  if name = "main" then name else "fn." ++ name

/-- The symbol of the format that reads a type. -/
def ofFormat : ScalarType → String
  | .int => "format_integer"
  | .float => "format_float"
  | .char => "format_char"

/-- The symbol of the format that prints a string. -/
def printFormat : String := "format_string"

/-- The library function that reads. -/
def reader : String := "scanf"

/-- The library function that prints. -/
def printer : String := "printf"

end Symbol

/-- The bits of a constant as a word. -/
def Immediate.word : Immediate → Int64
  | .int value => value
  | .float value => value.bits.toInt64
  | .char value => Int64.ofNat value.toNat

end ThreeAddress
