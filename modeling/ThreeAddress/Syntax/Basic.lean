import ThreeAddress.Number.Binary64

/-!
# Programs as trees

A program is a list of declarations and a list of function bodies that implement declared
functions. Declarations are global and flat; the order of the list matters, because a name
means its first declaration.

The two tree types, expressions and statements, nest through lists, so both come with an
induction principle that hands over the members of such a list one by one.
-/

namespace ThreeAddress

/-- The types a variable, an array element, a parameter or a result can be declared with. -/
inductive ScalarType where
  | int
  | float
  | char
  deriving DecidableEq

/-- A constant written in the program. -/
inductive Literal where
  | int (value : Int64)
  | float (value : Binary64)
  | char (value : Char)
  | string (value : String)
  deriving DecidableEq

/-- The value that storage of a type starts out with. -/
def Literal.zero : ScalarType → Literal
  | .int => .int 0
  | .float => .float ⟨0⟩
  | .char => .char '\x00'

/-- A parameter of a function. -/
structure Param where
  /-- The declared type. -/
  type : ScalarType
  /-- The name, visible in the function's body only. -/
  name : String
  deriving DecidableEq

/-- A global declaration. -/
inductive Decl where
  /-- A variable with its initial value. -/
  | scalar (type : ScalarType) (name : String) (initial : Literal)
  /-- An array; fewer initial values than elements leave the rest zero, more are kept. -/
  | array (type : ScalarType) (name : String) (size : Nat) (initials : List Literal)
  /-- A function with its result type; the body is an `Implementation`. -/
  | function (type : ScalarType) (name : String) (params : List Param)
  deriving DecidableEq

/-- The declared name. -/
def Decl.name : Decl → String
  | .scalar _ name _ => name
  | .array _ name _ _ => name
  | .function _ name _ => name

/-- The type of a variable, of an array's elements or of a function's result. -/
def Decl.type : Decl → ScalarType
  | .scalar type _ _ => type
  | .array type _ _ _ => type
  | .function type _ _ => type

/-- The binary operators. -/
inductive BinaryOp where
  | add
  | sub
  | mul
  | div
  | lt
  | gt
  | le
  | ge
  | eq
  | ne
  | and
  | or
  | xor
  deriving DecidableEq

/-- What an operator takes and yields. -/
inductive OpKind where
  /-- Numbers to a number. -/
  | arithmetic
  /-- Two operands of one type to a truth value. -/
  | relational
  /-- Truth values to a truth value. -/
  | logical
  deriving DecidableEq

/-- The kind of an operator. -/
def BinaryOp.kind : BinaryOp → OpKind
  | .add | .sub | .mul | .div => .arithmetic
  | .lt | .gt | .le | .ge | .eq | .ne => .relational
  | .and | .or | .xor => .logical

/-- An expression. -/
inductive Expr where
  | literal (value : Literal)
  /-- The value of a variable or parameter. -/
  | scalar (name : String)
  /-- The element of an array at an index. -/
  | element (array : String) (index : Expr)
  | call (function : String) (args : List Expr)
  /-- A value of a type, read from the input. -/
  | input (type : ScalarType)
  | binary (op : BinaryOp) (lhs rhs : Expr)

/-- A statement. -/
inductive Stmt where
  | assign (target : String) (value : Expr)
  | assignElement (array : String) (index value : Expr)
  | print (value : Expr)
  | ret (value : Expr)
  | ifThen (condition : Expr) (positive : Stmt)
  | ifElse (condition : Expr) (positive negative : Stmt)
  | loop (condition : Expr) (body : Stmt)
  | block (body : List Stmt)
  /-- A lone semicolon. -/
  | empty

/-- The body of a function. -/
structure Implementation where
  /-- The name of the function. -/
  name : String
  /-- What a call executes. -/
  body : Stmt

/-- A whole program. -/
structure Program where
  /-- The global declarations, in order. -/
  decls : List Decl
  /-- The function bodies, in order. -/
  implementations : List Implementation

/-- Induction over expressions, with one hypothesis for all arguments of a call. -/
@[induction_eliminator]
theorem Expr.induction {motive : Expr → Prop}
    (literal : ∀ value, motive (.literal value))
    (scalar : ∀ name, motive (.scalar name))
    (element : ∀ array index, motive index → motive (.element array index))
    (call : ∀ function args, (∀ arg ∈ args, motive arg) → motive (.call function args))
    (input : ∀ type, motive (.input type))
    (binary : ∀ op lhs rhs, motive lhs → motive rhs → motive (.binary op lhs rhs))
    (expr : Expr) : motive expr :=
  Expr.rec (motive_2 := fun args => ∀ arg ∈ args, motive arg)
    literal scalar element call input binary
    (fun _ h => absurd h List.not_mem_nil)
    (fun _ _ hhead htail _ h => (List.mem_cons.mp h).elim (fun heq => heq ▸ hhead) (htail _))
    expr

/-- Induction over statements, with one hypothesis for all members of a block. -/
@[induction_eliminator]
theorem Stmt.induction {motive : Stmt → Prop}
    (assign : ∀ target value, motive (.assign target value))
    (assignElement : ∀ array index value, motive (.assignElement array index value))
    (print : ∀ value, motive (.print value))
    (ret : ∀ value, motive (.ret value))
    (ifThen : ∀ condition positive, motive positive → motive (.ifThen condition positive))
    (ifElse : ∀ condition positive negative, motive positive → motive negative →
      motive (.ifElse condition positive negative))
    (loop : ∀ condition body, motive body → motive (.loop condition body))
    (block : ∀ body, (∀ stmt ∈ body, motive stmt) → motive (.block body))
    (empty : motive .empty)
    (stmt : Stmt) : motive stmt :=
  Stmt.rec (motive_2 := fun body => ∀ stmt ∈ body, motive stmt)
    assign assignElement print ret ifThen ifElse loop block empty
    (fun _ h => absurd h List.not_mem_nil)
    (fun _ _ hhead htail _ h => (List.mem_cons.mp h).elim (fun heq => heq ▸ hhead) (htail _))
    stmt

end ThreeAddress
