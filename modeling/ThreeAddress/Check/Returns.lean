import ThreeAddress.Check.Body

/-!
# Checking what a function returns

Every value that a function's body returns must have a type that the result type takes, and
every path through the body must end in a return. Loops may run zero times, so a return inside
one settles nothing.
-/

namespace ThreeAddress

mutual

/-- Whether every path through a statement ends in a return. -/
def Stmt.endsInReturn : Stmt → Bool
  | .ret _ => true
  | .ifElse _ positive negative => positive.endsInReturn && negative.endsInReturn
  | .block body => Stmt.anyEndsInReturn body
  | _ => false

/-- Whether some member of a block ends every path in a return. -/
def Stmt.anyEndsInReturn : List Stmt → Bool
  | [] => false
  | stmt :: rest => stmt.endsInReturn || Stmt.anyEndsInReturn rest

end

mutual

/-- The expressions that a statement returns anywhere inside, in order. -/
def Stmt.returned : Stmt → List Expr
  | .ret value => [value]
  | .ifThen _ positive => positive.returned
  | .ifElse _ positive negative => positive.returned ++ negative.returned
  | .loop _ body => body.returned
  | .block body => Stmt.returnedAll body
  | _ => []

/-- The expressions that the members of a block return. -/
def Stmt.returnedAll : List Stmt → List Expr
  | [] => []
  | stmt :: rest => stmt.returned ++ Stmt.returnedAll rest

end

namespace Scope

/-- A returned value must have a type that the result type takes. -/
def returnRule (scope : Scope) (function : String) (type : ScalarType) (value : Expr) :
    List Diagnostic :=
  ((scope.refusedType? type.value value).map fun actual =>
    .returnTypeMismatch function type.value actual).toList

/-- The diagnostics of the values that a function's body returns. -/
def checkReturned (scope : Scope) (function : String) (type : ScalarType) (body : Stmt) :
    List Diagnostic :=
  body.returned.flatMap (scope.returnRule function type)

end Scope

/-- A block ends every path in a return if one of its members does. -/
theorem Stmt.anyEndsInReturn_eq_any (body : List Stmt) :
    Stmt.anyEndsInReturn body = body.any Stmt.endsInReturn := by
  induction body with
  | nil => rfl
  | cons stmt rest ih => rw [Stmt.anyEndsInReturn, ih, List.any_cons]

/-- A block returns what its members return. -/
theorem Stmt.returnedAll_eq_flatMap (body : List Stmt) :
    Stmt.returnedAll body = body.flatMap Stmt.returned := by
  induction body with
  | nil => rfl
  | cons stmt rest ih => rw [Stmt.returnedAll, ih, List.flatMap_cons]

end ThreeAddress
