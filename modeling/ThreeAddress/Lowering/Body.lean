import ThreeAddress.Lowering.Context

/-!
# Lowering of bodies

An expression becomes the code that computes it and the place where its value then is. Literals
and names need no code: a name's value is taken from its own place. Every other value goes into
a fresh temporary. The arguments of a call are written straight into the parameters of the
called function, one after another; a surplus of arguments is not evaluated.

A statement becomes code that falls through at its end. The labels of a conditional or a loop
are taken before its branches are lowered and placed afterwards.
-/

namespace ThreeAddress

/-- A fresh temporary as a place. -/
def takePlace : LowerM Storage :=
  return .temporary (← takeTemporary)

/-- The operand a literal becomes; a string is registered and used by its address. -/
def lowerLiteral : Literal → LowerM Storage
  | .int value => return .constant (.int value)
  | .float value => return .constant (.float value)
  | .char value => return .constant (.char value)
  | .string text => do
    let id ← takeTemporary
    registerString id text
    return .string id

mutual

/-- The code of an expression and the place of its value. -/
def lowerExpr (env : Environment) : Expr → LowerM (Code × Storage)
  | .literal value => return ([], ← lowerLiteral value)
  | .scalar name => return ([], env.placeOf name)
  | .element array index => do
    let (indexCode, place) ← lowerExpr env index
    let destination ← takePlace
    return (indexCode.push (.copyFromArray destination array place), destination)
  | .call function args => do
    let params ← ExceptT.mk (pure (env.callee function))
    let argsCode ← lowerArgs env function args params
    let destination ← takePlace
    return (argsCode.push (.call function destination), destination)
  | .input type => do
    let destination ← takePlace
    return (Code.ofOperation (.input type destination), destination)
  | .binary op lhs rhs => do
    let (leftCode, left) ← lowerExpr env lhs
    let (rightCode, right) ← lowerExpr env rhs
    let destination ← takePlace
    return ((leftCode ++ rightCode).push (.binary op destination left right), destination)

/-- The code that evaluates the arguments of a call into the parameters they belong to. -/
def lowerArgs (env : Environment) (function : String) : List Expr → List Param → LowerM Code
  | arg :: args, param :: params => do
    let (argCode, source) ← lowerExpr env arg
    let rest ← lowerArgs env function args params
    return argCode.push (.copy (.parameter function param.name) source) ++ rest
  | _, _ => return []

end

/-- The instruction without effect that marks the place behind a construct. -/
def Code.landing (label : Label) : Code := Code.marked label []

mutual

/-- The code of a statement. -/
def lowerStmt (env : Environment) : Stmt → LowerM Code
  | .assign target value => do
    let (code, source) ← lowerExpr env value
    return code.push (.copy (env.placeOf target) source)
  | .assignElement array index value => do
    let (valueCode, source) ← lowerExpr env value
    let (indexCode, place) ← lowerExpr env index
    return (valueCode ++ indexCode).push (.copyIntoArray array place source)
  | .print value => do
    let (code, source) ← lowerExpr env value
    return code.push (.print source)
  | .ret value => do
    let (code, source) ← lowerExpr env value
    return code.push (.ret source)
  | .ifThen condition positive => do
    let (test, place) ← lowerExpr env condition
    let behind ← takeLabel
    let branch ← lowerStmt env positive
    return test.push (.jumpIfFalse place behind) ++ branch ++ Code.landing behind
  | .ifElse condition positive negative => do
    let (test, place) ← lowerExpr env condition
    let otherwise ← takeLabel
    let behind ← takeLabel
    let branch ← lowerStmt env positive
    let alternative ← lowerStmt env negative
    return test.push (.jumpIfFalse place otherwise) ++ branch.push (.jump behind)
      ++ alternative.marked otherwise ++ Code.landing behind
  | .loop condition body => do
    let start ← takeLabel
    let behind ← takeLabel
    let (test, place) ← lowerExpr env condition
    let round ← lowerStmt env body
    return (test.marked start).push (.jumpIfFalse place behind) ++ round.push (.jump start)
      ++ Code.landing behind
  | .block body => lowerStmts env body
  | .empty => return []

/-- The code of the members of a block. -/
def lowerStmts (env : Environment) : List Stmt → LowerM Code
  | [] => return []
  | stmt :: rest => do
    let code ← lowerStmt env stmt
    return code ++ (← lowerStmts env rest)

end

end ThreeAddress
