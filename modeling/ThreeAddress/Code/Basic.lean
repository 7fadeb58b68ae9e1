import ThreeAddress.Syntax.Basic

/-!
# Three-address code

Control structures are reduced to labels and jumps, and expression trees to operations between
places in storage. A place is a global variable, a parameter of some function, a temporary, a
constant, or the address of a string; each function owns its parameters, apart from any global
of the same name. Temporaries and strings share one supply of numbers.

A label sits on the instruction it marks. `Code.marked` never takes a label away: a head
that already has one gets an instruction without effect in front, which carries the new one.
-/

namespace ThreeAddress

/-- A place made up during lowering, by its number. -/
@[ext]
structure Temporary where
  /-- The number. -/
  id : UInt32
  deriving DecidableEq

/-- A target of jumps, by its number. -/
@[ext]
structure Label where
  /-- The number. -/
  id : UInt32
  deriving DecidableEq

/-- The symbol of a temporary or of a string constant. -/
def Temporary.symbol (temporary : Temporary) : String :=
  "storage_" ++ toString temporary.id.toNat

/-- The symbol of a label. -/
def Label.symbol (label : Label) : String :=
  "label_" ++ toString label.id.toNat

/-- A constant that fits into a word. -/
inductive Immediate where
  | int (value : Int64)
  | float (value : Binary64)
  | char (value : Char)
  deriving DecidableEq

/-- Where a value lives. -/
inductive Storage where
  /-- A global variable. -/
  | variable (name : String)
  /-- A parameter of a function. -/
  | parameter (function name : String)
  | temporary (id : Temporary)
  /-- A literal used as an operand. -/
  | constant (value : Immediate)
  /-- The address of a string constant. -/
  | string (id : Temporary)
  deriving DecidableEq

/-- What an instruction does. -/
inductive Operation where
  /-- Nothing; it can carry a label. -/
  | nop
  /-- The entry of a function. -/
  | enter (function : String)
  /-- The end of a function's code. -/
  | leave
  | jump (target : Label)
  | jumpIfFalse (condition : Storage) (target : Label)
  | copy (destination source : Storage)
  | copyIntoArray (array : String) (index source : Storage)
  | copyFromArray (destination : Storage) (array : String) (index : Storage)
  /-- A call whose arguments have been copied into the function's parameters. -/
  | call (function : String) (destination : Storage)
  | input (type : ScalarType) (destination : Storage)
  | print (source : Storage)
  | ret (source : Storage)
  | binary (op : BinaryOp) (destination lhs rhs : Storage)
  deriving DecidableEq

/-- The place an operation writes, if it writes one; an array element is none. -/
def Operation.destination? : Operation → Option Storage
  | .copy destination _ => some destination
  | .copyFromArray destination _ _ => some destination
  | .call _ destination => some destination
  | .input _ destination => some destination
  | .binary _ destination _ _ => some destination
  | _ => none

/-- An operation with the label that marks it. -/
structure Instruction where
  /-- The label, if the instruction is marked. -/
  label? : Option Label
  /-- What the instruction does. -/
  operation : Operation
  deriving DecidableEq

/-- An instruction without a label. -/
def Operation.unlabelled (operation : Operation) : Instruction := ⟨none, operation⟩

/-- A run of instructions. -/
abbrev Code := List Instruction

/-- The code of one operation. -/
def Code.ofOperation (operation : Operation) : Code := [operation.unlabelled]

/-- Code with one operation more at its end. -/
def Code.push (code : Code) (operation : Operation) : Code := code ++ Code.ofOperation operation

/-- Code whose first instruction carries a label. -/
def Code.marked (label : Label) : Code → Code
  | ⟨none, operation⟩ :: rest => ⟨some label, operation⟩ :: rest
  | code => ⟨some label, .nop⟩ :: code

/-- The labels that mark instructions of some code, in order. -/
def Code.labels (code : Code) : List Label :=
  code.filterMap Instruction.label?

/-- Labelling adds its label in front and keeps all others. -/
@[simp] theorem Code.labels_marked (label : Label) (code : Code) :
    (code.marked label).labels = label :: code.labels := by
  match code with
  | [] => rfl
  | ⟨none, _⟩ :: _ => rfl
  | ⟨some _, _⟩ :: _ => rfl

end ThreeAddress
