import ThreeAddress.Code.Unit
import ThreeAddress.Lowering.Context
import Mathlib.Logic.Function.Basic

/-!
# What a program acts on

Running a program reads and writes named storage, takes from the input and adds to the output.
What values are, how operators combine them and which element of an array an index means is left
open: an interpretation says so, and may refuse, in which case the program is stopped. Everything
that is proved about running code holds under every interpretation.
-/

namespace ThreeAddress

/-- The meaning of values, operators, indices and input. -/
structure Interpretation (Value Input : Type) where
  /-- The value of a constant. -/
  constant : Immediate → Value
  /-- The value that stands for the text of a string constant. -/
  text : String → Value
  /-- Whether a condition with this value fails. -/
  isFalse : Value → Bool
  /-- What an operator makes of two values; none if it stops the program. -/
  combine : BinaryOp → Value → Value → Option Value
  /-- The element of an array that an index means; none if the access stops the program. -/
  element : String → Value → Option Int
  /-- Reads a value of a type; none if that stops the program. -/
  read : ScalarType → Input → Option (Value × Input)
  /-- What a call yields if the function ends without a return. -/
  leftover : Value

/-- Values as whole numbers, a list of them as the input: enough to run small programs. -/
def Interpretation.wholeNumbers : Interpretation Int (List Int) where
  constant
    | .int value => value.toInt
    | .float _ => 0
    | .char value => value.toNat
  text text := text.length
  isFalse value := value == 0
  combine op lhs rhs :=
    match op with
    | .add => some (lhs + rhs)
    | .sub => some (lhs - rhs)
    | .mul => some (lhs * rhs)
    | .div => if rhs = 0 then none else some (lhs.tdiv rhs)
    | .lt => some (decide (lhs < rhs)).toInt
    | .gt => some (decide (lhs > rhs)).toInt
    | .le => some (decide (lhs ≤ rhs)).toInt
    | .ge => some (decide (lhs ≥ rhs)).toInt
    | .eq => some (lhs == rhs).toInt
    | .ne => some (lhs != rhs).toInt
    | .and => some (lhs != 0 && rhs != 0).toInt
    | .or => some (lhs != 0 || rhs != 0).toInt
    | .xor => some ((lhs != 0) ^^ (rhs != 0)).toInt
  element _ index := some index
  read _ input :=
    match input with
    | [] => none
    | value :: rest => some (value, rest)
  leftover := 0

/-- The value of a literal. -/
def Interpretation.literal {Value Input : Type} (meaning : Interpretation Value Input) :
    Literal → Value
  | .int value => meaning.constant (.int value)
  | .float value => meaning.constant (.float value)
  | .char value => meaning.constant (.char value)
  | .string text => meaning.text text

/-- Named storage, what is left of the input, and the output so far. -/
structure World (Value Input : Type) where
  /-- The global variables. -/
  globals : String → Value
  /-- The parameters, by function and name; each has one place for all calls. -/
  parameters : String → String → Value
  /-- The elements of the arrays. -/
  arrays : String → Int → Value
  /-- The input that has not been read. -/
  input : Input
  /-- What has been printed. -/
  output : List Value

namespace World

variable {Value Input : Type}

/-- The world after a variable is written. -/
def setVariable (world : World Value Input) (name : String) (value : Value) :
    World Value Input :=
  { world with globals := Function.update world.globals name value }

/-- The world after a parameter is written. -/
def setParameter (world : World Value Input) (function name : String) (value : Value) :
    World Value Input :=
  { world with
    parameters := Function.update world.parameters function
      (Function.update (world.parameters function) name value) }

/-- The world after an element of an array is written. -/
def setElement (world : World Value Input) (array : String) (slot : Int) (value : Value) :
    World Value Input :=
  { world with
    arrays := Function.update world.arrays array
      (Function.update (world.arrays array) slot value) }

/-- The world after a value is printed. -/
def print (world : World Value Input) (value : Value) : World Value Input :=
  { world with output := world.output ++ [value] }

/-- The value of a name: a parameter of the function around comes before a variable. -/
def lookup (env : Environment) (world : World Value Input) (name : String) : Value :=
  match env.enclosing? with
  | some function =>
    if name ∈ function.params then world.parameters function.name name
    else world.globals name
  | none => world.globals name

/-- The world after the place that a name means is written. -/
def assign (env : Environment) (world : World Value Input) (name : String) (value : Value) :
    World Value Input :=
  match env.enclosing? with
  | some function =>
    if name ∈ function.params then world.setParameter function.name name value
    else world.setVariable name value
  | none => world.setVariable name value

end World

end ThreeAddress
