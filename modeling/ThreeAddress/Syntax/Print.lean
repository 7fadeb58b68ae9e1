import ThreeAddress.Number.Notation
import ThreeAddress.Syntax.Basic

/-!
# Source text

A program is printed so that it can be read again. Expressions are printed as a sequence of
tokens, with parentheses only where reading would group the operators differently; statements
are printed as a sequence of pieces, in which expressions are units and blanks are marked as
such. The text is the concatenation, so what has to be shown about reading can be shown about
tokens.

Nothing is escaped inside quotes.
-/

namespace ThreeAddress

/-- The keyword of a type. -/
def ScalarType.text : ScalarType → String
  | .int => "int"
  | .float => "float"
  | .char => "char"

/-- The sign of an operator. -/
def BinaryOp.symbol : BinaryOp → String
  | .add => "+"
  | .sub => "-"
  | .mul => "*"
  | .div => "/"
  | .lt => "<"
  | .gt => ">"
  | .le => "<="
  | .ge => ">="
  | .eq => "=="
  | .ne => "!="
  | .and => "&"
  | .or => "|"
  | .xor => "~"

/-- How tightly an operator binds. -/
def BinaryOp.precedence (op : BinaryOp) : Nat :=
  match op with
  | .mul | .div => 4
  | .add | .sub => 3
  | _ =>
    match op.kind with
    | .relational => 2
    | _ => 1

/-- The text of a literal. -/
def Literal.text : Literal → String
  | .int value => toString value
  | .float value => FloatNotation.source.text value
  | .char value => "'" ++ String.singleton value ++ "'"
  | .string value => "\"" ++ value ++ "\""

/-- The tokens of a printed expression. -/
inductive ExprToken where
  | literal (value : Literal)
  | name (spelling : String)
  | input (type : ScalarType)
  | op (sign : BinaryOp)
  | leftParen
  | rightParen
  | leftBracket
  | rightBracket
  | comma
  deriving DecidableEq

/-- The text of a token, with the blanks that go with it. -/
def ExprToken.text : ExprToken → String
  | .literal value => value.text
  | .name spelling => spelling
  | .input type => "input(" ++ type.text ++ ")"
  | .op sign => " " ++ sign.symbol ++ " "
  | .leftParen => "("
  | .rightParen => ")"
  | .leftBracket => "["
  | .rightBracket => "]"
  | .comma => ", "

/-- The two places of an operand. -/
inductive Side where
  | left
  | right
  deriving DecidableEq

/-- Whether an operand of `parent` needs parentheses: it binds less tightly, or as tightly and
on the side where reading would regroup it. Comparisons do not chain on either side. -/
def BinaryOp.grouped (parent : BinaryOp) (side : Side) : Expr → Bool
  | .binary op _ _ =>
    decide (op.precedence < parent.precedence)
      || (decide (op.precedence = parent.precedence)
        && (decide (side = .right) || decide (parent.kind = .relational)))
  | _ => false

/-- Tokens in parentheses, if wanted. -/
def ExprToken.parens (wanted : Bool) (tokens : List ExprToken) : List ExprToken :=
  if wanted then .leftParen :: tokens ++ [.rightParen] else tokens

mutual

/-- The tokens of an expression. -/
def Expr.tokens : Expr → List ExprToken
  | .literal value => [.literal value]
  | .scalar name => [.name name]
  | .element array index => [.name array, .leftBracket] ++ index.tokens ++ [.rightBracket]
  | .call function args => [.name function, .leftParen] ++ Expr.argTokens args ++ [.rightParen]
  | .input type => [.input type]
  | .binary op lhs rhs =>
    ExprToken.parens (op.grouped .left lhs) lhs.tokens ++ .op op ::
      ExprToken.parens (op.grouped .right rhs) rhs.tokens

/-- The tokens of a list of arguments, separated by commas. -/
def Expr.argTokens : List Expr → List ExprToken
  | [] => []
  | [arg] => arg.tokens
  | arg :: rest => arg.tokens ++ .comma :: Expr.argTokens rest

end

/-- The text of an expression. -/
def Expr.text (expr : Expr) : String :=
  String.join (expr.tokens.map ExprToken.text)

/-- The keywords that begin or divide statements. -/
inductive Keyword where
  | print
  | ret
  | if
  | else
  | while
  deriving DecidableEq

/-- The spelling of a keyword. -/
def Keyword.text : Keyword → String
  | .print => "print"
  | .ret => "return"
  | .if => "if"
  | .else => "else"
  | .while => "while"

/-- The pieces of a printed statement. -/
inductive StmtPiece where
  | keyword (word : Keyword)
  | name (spelling : String)
  /-- A whole printed expression. -/
  | expr (value : Expr)
  | equals
  | semicolon
  | leftParen
  | rightParen
  | leftBracket
  | rightBracket
  | leftBrace
  | rightBrace
  /-- A single blank. -/
  | space
  /-- A line break and the indentation of the next line, by level. -/
  | newline (level : Nat)

/-- Two blanks for each level. -/
def indentation (level : Nat) : String :=
  String.ofList (List.replicate (2 * level) ' ')

/-- The text of a piece. -/
def StmtPiece.text : StmtPiece → String
  | .keyword word => word.text
  | .name spelling => spelling
  | .expr value => value.text
  | .equals => "="
  | .semicolon => ";"
  | .leftParen => "("
  | .rightParen => ")"
  | .leftBracket => "["
  | .rightBracket => "]"
  | .leftBrace => "\x7b"
  | .rightBrace => "\x7d"
  | .space => " "
  | .newline level => "\n" ++ indentation level

/-- The head of a conditional or a loop. -/
def StmtPiece.head (word : Keyword) (condition : Expr) : List StmtPiece :=
  [.keyword word, .space, .leftParen, .expr condition, .rightParen, .space]

mutual

/-- The pieces of a statement whose block, if it is one, stands at a level. The branch of a
conditional stays on the line of its head. -/
def Stmt.pieces (level : Nat) : Stmt → List StmtPiece
  | .assign target value =>
    [.name target, .space, .equals, .space, .expr value, .semicolon]
  | .assignElement array index value =>
    [.name array, .leftBracket, .expr index, .rightBracket,
      .space, .equals, .space, .expr value, .semicolon]
  | .print value => [.keyword .print, .space, .expr value, .semicolon]
  | .ret value => [.keyword .ret, .space, .expr value, .semicolon]
  | .ifThen condition positive => StmtPiece.head .if condition ++ positive.pieces level
  | .ifElse condition positive negative =>
    StmtPiece.head .if condition ++ positive.pieces level
      ++ [.space, .keyword .else, .space] ++ negative.pieces level
  | .loop condition body => StmtPiece.head .while condition ++ body.pieces level
  | .block [] => [.leftBrace, .space, .rightBrace]
  | .block (first :: rest) =>
    .leftBrace :: (Stmt.memberPieces (level + 1) (first :: rest))
      ++ [.newline level, .rightBrace]
  | .empty => [.semicolon]

/-- The pieces of the members of a block, each on a line of its own. -/
def Stmt.memberPieces (level : Nat) : List Stmt → List StmtPiece
  | [] => []
  | stmt :: rest => .newline level :: stmt.pieces level ++ Stmt.memberPieces level rest

end

/-- The text of a statement. -/
def Stmt.text (stmt : Stmt) : String :=
  String.join ((stmt.pieces 0).map StmtPiece.text)

/-- The text of a parameter. -/
def Param.text (param : Param) : String :=
  param.type.text ++ " " ++ param.name

/-- The text of a declaration. -/
def Decl.text : Decl → String
  | .scalar type name initial => type.text ++ " " ++ name ++ " = " ++ initial.text ++ ";"
  | .array type name size initials =>
    type.text ++ " " ++ name ++ "[" ++ toString size ++ "]"
      ++ String.join (initials.map fun initial => " " ++ initial.text) ++ ";"
  | .function type name params =>
    type.text ++ " " ++ name ++ "(" ++ ", ".intercalate (params.map Param.text) ++ ");"

/-- The text of a function body. -/
def Implementation.text (implementation : Implementation) : String :=
  "code " ++ implementation.name ++ " " ++ implementation.body.text

/-- The text of a program, one declaration or body after another, each with a line end. -/
def Program.text (program : Program) : String :=
  String.join (program.decls.map fun decl => decl.text ++ "\n")
    ++ String.join
      (program.implementations.map fun implementation => implementation.text ++ "\n")

end ThreeAddress
