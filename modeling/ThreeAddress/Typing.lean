import ThreeAddress.Scope

/-!
# Types of expressions

Comparisons yield truth values and string literals yield strings, so expressions have more types
than declarations do. The type of an expression depends on names, operators and operands only;
an index or an argument may be wrong without changing it. An expression that breaks a typing
rule, or stands on a name of the wrong sort, has no type.
-/

namespace ThreeAddress

/-- The types a value can have. -/
inductive ValueType where
  | int
  | float
  | char
  | bool
  | string
  deriving DecidableEq

/-- A declared type as the type of a value. -/
def ScalarType.value : ScalarType → ValueType
  | .int => .int
  | .float => .float
  | .char => .char

/-- The spelling of a type. -/
def ValueType.text : ValueType → String
  | .int => "int"
  | .float => "float"
  | .char => "char"
  | .bool => "bool"
  | .string => "string"

/-- Whether storage of one type takes a value of another: integers and characters convert into
each other, anything else must match. -/
def ValueType.accepts (target source : ValueType) : Bool :=
  match target, source with
  | .int, .char => true
  | .char, .int => true
  | _, _ => decide (target = source)

/-- The type of a literal. -/
def Literal.type : Literal → ValueType
  | .int _ => .int
  | .float _ => .float
  | .char _ => .char
  | .string _ => .string

/-- The type of an operation on operands of two types, if it is allowed. -/
def BinaryOp.resultType? (op : BinaryOp) (lhs rhs : ValueType) : Option ValueType :=
  match op.kind with
  | .arithmetic =>
    match lhs, rhs with
    | .char, .char => some .char
    | .int, .int | .int, .char | .char, .int => some .int
    | .float, .float => some .float
    | _, _ => none
  | .relational => if lhs = rhs then some .bool else none
  | .logical => if lhs = .bool ∧ rhs = .bool then some .bool else none

namespace Scope

/-- The type of the variable a name means. -/
def scalarType? (scope : Scope) (name : String) : Option ValueType :=
  match scope.find? name with
  | some (.scalar type _ _) => some type.value
  | _ => none

/-- The element type of the array a name means. -/
def elementType? (scope : Scope) (name : String) : Option ValueType :=
  match scope.find? name with
  | some (.array type _ _ _) => some type.value
  | _ => none

/-- The result type of the function a name means. -/
def resultType? (scope : Scope) (name : String) : Option ValueType :=
  (scope.function? name).map fun signature => signature.type.value

/-- The type of an expression. -/
def typeOf? (scope : Scope) : Expr → Option ValueType
  | .literal value => some value.type
  | .scalar name => scope.scalarType? name
  | .element array _ => scope.elementType? array
  | .call function _ => scope.resultType? function
  | .input type => some type.value
  | .binary op lhs rhs => do
    let left ← scope.typeOf? lhs
    let right ← scope.typeOf? rhs
    op.resultType? left right

end Scope

/-- Every type takes its own values. -/
@[simp] theorem ValueType.accepts_self (type : ValueType) : type.accepts type = true := by
  cases type <;> rfl

end ThreeAddress
