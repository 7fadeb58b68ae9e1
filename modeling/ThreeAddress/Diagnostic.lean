import ThreeAddress.Syntax.Print
import ThreeAddress.Typing

/-!
# Diagnostics

What can be wrong with a program, and the sentence that says so. A diagnostic records its cause;
the wording is in one place.
-/

namespace ThreeAddress

/-- The statements that have a condition. -/
inductive Conditional where
  | if
  | while
  deriving DecidableEq

/-- The keyword of a statement with a condition. -/
def Conditional.text : Conditional → String
  | .if => "if"
  | .while => "while"

/-- Something wrong with a program. -/
inductive Diagnostic where
  /-- A declaration whose name is declared again further down. -/
  | duplicateDeclaration (name : String)
  /-- A function body whose name has another body further down. -/
  | duplicateImplementation (name : String)
  /-- A declared function without a body. -/
  | missingImplementation (name : String)
  /-- A body for a name that is not declared. -/
  | undeclaredImplementation (name : String)
  /-- A body for a variable or an array. -/
  | nonFunctionImplementation (name : String)
  | unresolvedIdentifier (name : String)
  /-- An array or a function used as a plain value. -/
  | nonScalarInExpression (name : String)
  | nonArrayIndexed (name : String)
  | nonIntegerIndex (array : String) (provided : ValueType)
  | undeclaredFunction (name : String)
  | nonCallableCalled (name : String)
  | argumentCountMismatch (function : String) (expected actual : Nat)
  | argumentTypeMismatch (function param : String) (expected actual : ValueType)
  | incompatibleOperands (op : BinaryOp) (lhs rhs : ValueType)
  | assignmentTypeMismatch (name : String) (expected actual : ValueType)
  | arrayElementTypeMismatch (name : String) (expected actual : ValueType)
  | assignmentToNonVariable (name : String)
  | indexedAssignmentToNonArray (name : String)
  /-- A condition with a type, but another one than a truth value's; its text is kept. -/
  | nonBooleanCondition (construct : Conditional) (condition : String) (actual : ValueType)
  | returnTypeMismatch (function : String) (expected actual : ValueType)
  /-- A function that may end without returning a value. -/
  | missingReturn (function : String)
  deriving DecidableEq

/-- A name between double quotes, as it stands. -/
def inQuotes (name : String) : String := "\"" ++ name ++ "\""

/-- The sentence of a diagnostic. -/
def Diagnostic.message : Diagnostic → String
  | .duplicateDeclaration name =>
    "identifier " ++ inQuotes name ++ " declared more than once"
  | .duplicateImplementation name =>
    "function " ++ inQuotes name ++ " implemented more than once"
  | .missingImplementation name =>
    "function " ++ inQuotes name ++ " declared but not implemented"
  | .undeclaredImplementation name =>
    "function " ++ inQuotes name ++ " implemented but not declared"
  | .nonFunctionImplementation name =>
    "identifier " ++ inQuotes name ++ " implemented but is not a function"
  | .unresolvedIdentifier name => "identifier " ++ inQuotes name ++ " not found"
  | .nonScalarInExpression name =>
    "non-scalar identifier " ++ inQuotes name ++ " used in expression"
  | .nonArrayIndexed name =>
    "non-array identifier " ++ inQuotes name ++ " indexed as array"
  | .nonIntegerIndex array provided =>
    "expression of type " ++ provided.text ++ " used to index array " ++ inQuotes array
      ++ ", expected int"
  | .undeclaredFunction name => "call to undeclared function " ++ inQuotes name
  | .nonCallableCalled name =>
    "non-callable identifier " ++ inQuotes name ++ " used as function"
  | .argumentCountMismatch function expected actual =>
    inQuotes function ++ " expected " ++ toString expected ++ " argument(s) but received "
      ++ toString actual
  | .argumentTypeMismatch function param expected actual =>
    "type " ++ actual.text ++ " passed to " ++ inQuotes param ++ " in call to function "
      ++ inQuotes function ++ ", expected " ++ expected.text
  | .incompatibleOperands op lhs rhs =>
    "binary expression with incompatible types: " ++ lhs.text ++ " " ++ op.symbol ++ " "
      ++ rhs.text
  | .assignmentTypeMismatch name expected actual =>
    "cannot assign value of type " ++ actual.text ++ " to variable " ++ inQuotes name
      ++ " of type " ++ expected.text
  | .arrayElementTypeMismatch name expected actual =>
    "cannot assign value of type " ++ actual.text ++ " to an element of " ++ inQuotes name
      ++ " of type " ++ expected.text ++ "[]"
  | .assignmentToNonVariable name => "assignment to non-variable symbol " ++ inQuotes name
  | .indexedAssignmentToNonArray name =>
    "indexed assignment to non-array identifier " ++ inQuotes name
  | .nonBooleanCondition construct condition actual =>
    "non-boolean condition `" ++ condition ++ "` of type " ++ actual.text ++ " in "
      ++ construct.text ++ " statement"
  | .returnTypeMismatch function expected actual =>
    "returned type " ++ actual.text ++ " does not match the return type " ++ expected.text
      ++ " of function " ++ inQuotes function
  | .missingReturn function =>
    "not every path through function " ++ inQuotes function ++ " returns a value"

end ThreeAddress
