import ThreeAddress.Syntax.Print

/-!
# The trace of a tree

A trace goes through a statement depth first, from left to right as the parts are written: the
index of an array assignment before its value, a condition before the branches. It yields an
event on the way into each node, one on the way out, and one for each literal.
-/

namespace ThreeAddress

/-- A step of a trace. -/
inductive TraceEvent where
  | enterStmt (stmt : Stmt)
  | leaveStmt
  | enterExpr (expr : Expr)
  | leaveExpr
  | literal (value : Literal)

/-- The line of a recorded event. -/
def TraceEvent.text : TraceEvent → String
  | .enterStmt stmt => "statement " ++ stmt.text
  | .leaveStmt => "end statement"
  | .enterExpr expr => "expression " ++ expr.text
  | .leaveExpr => "end expression"
  | .literal value => "literal " ++ value.text

/-- The literal an event is about. -/
def TraceEvent.literal? : TraceEvent → Option Literal
  | .literal value => some value
  | _ => none

mutual

/-- The trace of an expression. -/
def Expr.trace : Expr → List TraceEvent
  | .literal value => [.enterExpr (.literal value), .literal value, .leaveExpr]
  | .scalar name => [.enterExpr (.scalar name), .leaveExpr]
  | .element array index =>
    .enterExpr (.element array index) :: index.trace ++ [.leaveExpr]
  | .call function args =>
    .enterExpr (.call function args) :: Expr.traceAll args ++ [.leaveExpr]
  | .input type => [.enterExpr (.input type), .leaveExpr]
  | .binary op lhs rhs =>
    .enterExpr (.binary op lhs rhs) :: lhs.trace ++ rhs.trace ++ [.leaveExpr]

/-- The trace of a list of expressions. -/
def Expr.traceAll : List Expr → List TraceEvent
  | [] => []
  | expr :: rest => expr.trace ++ Expr.traceAll rest

end

mutual

/-- The trace of a statement. -/
def Stmt.trace : Stmt → List TraceEvent
  | .assign target value => .enterStmt (.assign target value) :: value.trace ++ [.leaveStmt]
  | .assignElement array index value =>
    .enterStmt (.assignElement array index value) :: index.trace ++ value.trace ++ [.leaveStmt]
  | .print value => .enterStmt (.print value) :: value.trace ++ [.leaveStmt]
  | .ret value => .enterStmt (.ret value) :: value.trace ++ [.leaveStmt]
  | .ifThen condition positive =>
    .enterStmt (.ifThen condition positive) :: condition.trace ++ positive.trace ++ [.leaveStmt]
  | .ifElse condition positive negative =>
    .enterStmt (.ifElse condition positive negative) :: condition.trace ++ positive.trace
      ++ negative.trace ++ [.leaveStmt]
  | .loop condition body =>
    .enterStmt (.loop condition body) :: condition.trace ++ body.trace ++ [.leaveStmt]
  | .block body => .enterStmt (.block body) :: Stmt.traceAll body ++ [.leaveStmt]
  | .empty => [.enterStmt .empty, .leaveStmt]

/-- The trace of a list of statements. -/
def Stmt.traceAll : List Stmt → List TraceEvent
  | [] => []
  | stmt :: rest => stmt.trace ++ Stmt.traceAll rest

end

/-- The literals of a statement, in the order of its trace. -/
def Stmt.literals (stmt : Stmt) : List Literal :=
  stmt.trace.filterMap TraceEvent.literal?

/-- A list of expressions is traced member by member. -/
theorem Expr.traceAll_eq_flatMap (exprs : List Expr) :
    Expr.traceAll exprs = exprs.flatMap Expr.trace := by
  induction exprs with
  | nil => rfl
  | cons expr rest ih => rw [Expr.traceAll, ih, List.flatMap_cons]

/-- A list of statements is traced member by member. -/
theorem Stmt.traceAll_eq_flatMap (stmts : List Stmt) :
    Stmt.traceAll stmts = stmts.flatMap Stmt.trace := by
  induction stmts with
  | nil => rfl
  | cons stmt rest ih => rw [Stmt.traceAll, ih, List.flatMap_cons]

end ThreeAddress
