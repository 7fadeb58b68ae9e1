import ThreeAddress.Diagnostic

/-!
# Checking a body

Every node of a body has a rule of its own, and a body's diagnostics are those of its nodes: an
expression reports its parts first and then itself, a statement its expressions in the order in
which they are evaluated and then its own rule, before its branches. A rule that needs the type
of an expression keeps silent if there is none, because some part of that expression has
reported the cause.
-/

namespace ThreeAddress

namespace Scope

/-- The type of an expression whose value storage of the expected type does not take. -/
def refusedType? (scope : Scope) (expected : ValueType) (expr : Expr) : Option ValueType :=
  (scope.typeOf? expr).filter fun actual => !expected.accepts actual

/-- An index must be assignable to an integer. -/
def indexRule (scope : Scope) (array : String) (index : Expr) : List Diagnostic :=
  ((scope.refusedType? .int index).map fun actual => .nonIntegerIndex array actual).toList

/-- A condition must be a truth value. -/
def conditionRule (scope : Scope) (construct : Conditional) (condition : Expr) :
    List Diagnostic :=
  match scope.typeOf? condition with
  | some .bool => []
  | some actual => [.nonBooleanCondition construct condition.text actual]
  | none => []

/-- A name used as a value must mean a variable. -/
def scalarRule (scope : Scope) (name : String) : List Diagnostic :=
  match scope.find? name with
  | some (.scalar ..) => []
  | some _ => [.nonScalarInExpression name]
  | none => [.unresolvedIdentifier name]

/-- An indexed name must mean an array. -/
def elementRule (scope : Scope) (array : String) : List Diagnostic :=
  match scope.find? array with
  | some (.array ..) => []
  | some _ => [.nonArrayIndexed array]
  | none => [.unresolvedIdentifier array]

/-- Each argument must have a type that its parameter takes; a surplus on either side is not
looked at here. -/
def argumentRule (scope : Scope) (function : String) : List Expr → List Param → List Diagnostic
  | arg :: args, param :: params =>
    ((scope.refusedType? param.type.value arg).map fun actual =>
        .argumentTypeMismatch function param.name param.type.value actual).toList
      ++ scope.argumentRule function args params
  | _, _ => []

/-- There must be as many arguments as parameters. -/
def argumentCountRule (function : String) (expected actual : Nat) : List Diagnostic :=
  if actual = expected then [] else [.argumentCountMismatch function expected actual]

/-- A called name must mean a function, and the arguments must match its parameters. -/
def callRule (scope : Scope) (function : String) (args : List Expr) : List Diagnostic :=
  match scope.find? function with
  | some (.function _ _ params) =>
    scope.argumentRule function args params
      ++ argumentCountRule function params.length args.length
  | some _ => [.nonCallableCalled function]
  | none => [.undeclaredFunction function]

/-- An operator must be allowed on the types of its operands. -/
def binaryRule (scope : Scope) (op : BinaryOp) (lhs rhs : Expr) : List Diagnostic :=
  match scope.typeOf? lhs, scope.typeOf? rhs with
  | some left, some right =>
    if (op.resultType? left right).isSome then [] else [.incompatibleOperands op left right]
  | _, _ => []

/-- The rule of an expression's own node. -/
def exprRule (scope : Scope) : Expr → List Diagnostic
  | .literal _ => []
  | .scalar name => scope.scalarRule name
  | .element array index => scope.indexRule array index ++ scope.elementRule array
  | .call function args => scope.callRule function args
  | .input _ => []
  | .binary op lhs rhs => scope.binaryRule op lhs rhs

mutual

/-- The diagnostics of an expression. -/
def checkExpr (scope : Scope) : Expr → List Diagnostic
  | .literal value => scope.exprRule (.literal value)
  | .scalar name => scope.exprRule (.scalar name)
  | .element array index => scope.checkExpr index ++ scope.exprRule (.element array index)
  | .call function args => scope.checkArgs args ++ scope.exprRule (.call function args)
  | .input type => scope.exprRule (.input type)
  | .binary op lhs rhs =>
    scope.checkExpr lhs ++ scope.checkExpr rhs ++ scope.exprRule (.binary op lhs rhs)

/-- The diagnostics of a list of arguments. -/
def checkArgs (scope : Scope) : List Expr → List Diagnostic
  | [] => []
  | arg :: rest => scope.checkExpr arg ++ scope.checkArgs rest

end

/-- The target of an assignment must mean a variable that takes the value. -/
def assignRule (scope : Scope) (target : String) (value : Expr) : List Diagnostic :=
  match scope.find? target with
  | some (.scalar type _ _) =>
    ((scope.refusedType? type.value value).map fun actual =>
      .assignmentTypeMismatch target type.value actual).toList
  | some _ => [.assignmentToNonVariable target]
  | none => [.unresolvedIdentifier target]

/-- The target of an assignment to an element must mean an array that takes the value. -/
def assignElementRule (scope : Scope) (array : String) (value : Expr) : List Diagnostic :=
  match scope.find? array with
  | some (.array type _ _ _) =>
    ((scope.refusedType? type.value value).map fun actual =>
      .arrayElementTypeMismatch array type.value actual).toList
  | some _ => [.indexedAssignmentToNonArray array]
  | none => [.unresolvedIdentifier array]

mutual

/-- The diagnostics of a statement. -/
def checkStmt (scope : Scope) : Stmt → List Diagnostic
  | .assign target value => scope.checkExpr value ++ scope.assignRule target value
  | .assignElement array index value =>
    scope.checkExpr value ++ scope.checkExpr index ++ scope.indexRule array index
      ++ scope.assignElementRule array value
  | .print value => scope.checkExpr value
  | .ret value => scope.checkExpr value
  | .ifThen condition positive =>
    scope.checkExpr condition ++ scope.conditionRule .if condition ++ scope.checkStmt positive
  | .ifElse condition positive negative =>
    scope.checkExpr condition ++ scope.conditionRule .if condition ++ scope.checkStmt positive
      ++ scope.checkStmt negative
  | .loop condition body =>
    scope.checkExpr condition ++ scope.conditionRule .while condition ++ scope.checkStmt body
  | .block body => scope.checkStmts body
  | .empty => []

/-- The diagnostics of the members of a block. -/
def checkStmts (scope : Scope) : List Stmt → List Diagnostic
  | [] => []
  | stmt :: rest => scope.checkStmt stmt ++ scope.checkStmts rest

end

/-- The diagnostics of a list of arguments are those of its members. -/
theorem checkArgs_eq_flatMap (scope : Scope) (args : List Expr) :
    scope.checkArgs args = args.flatMap scope.checkExpr := by
  induction args with
  | nil => rfl
  | cons arg rest ih => rw [checkArgs, ih, List.flatMap_cons]

/-- The diagnostics of a block are those of its members. -/
theorem checkStmts_eq_flatMap (scope : Scope) (body : List Stmt) :
    scope.checkStmts body = body.flatMap scope.checkStmt := by
  induction body with
  | nil => rfl
  | cons stmt rest ih => rw [checkStmts, ih, List.flatMap_cons]

end Scope

end ThreeAddress
