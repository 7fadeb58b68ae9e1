import ThreeAddress.Check.Program

/-!
# The static semantics

What makes a program well formed, stated as rules and without a checker in mind. A name means
the first declaration that carries it. An expression has a type if a rule gives it one, and every
rule asks for all parts to have types of their own, indices and arguments included. Paths through
a body are followed without looking at conditions: either branch may be taken, and a loop may end
before its first round.
-/

namespace ThreeAddress

/-- Storage of one type takes values of another: its own, and characters and integers take each
other. -/
inductive ValueType.Takes : ValueType → ValueType → Prop
  | same (type : ValueType) : Takes type type
  | character : Takes .int .char
  | integer : Takes .char .int

namespace Scope

/-- A name means a declaration: it is the first that carries the name. -/
def Means (scope : Scope) (name : String) (decl : Decl) : Prop :=
  ∃ before after, scope.decls = before ++ decl :: after ∧ decl.name = name ∧
    ∀ earlier ∈ before, earlier.name ≠ name

mutual

/-- An expression has a type. -/
inductive HasType (scope : Scope) : Expr → ValueType → Prop
  | literal (value : Literal) : HasType scope (.literal value) value.type
  | scalar {name : String} {type : ScalarType} {initial : Literal} :
      scope.Means name (.scalar type name initial) → HasType scope (.scalar name) type.value
  | element {array : String} {type : ScalarType} {size : Nat} {initials : List Literal}
      {index : Expr} {indexType : ValueType} :
      scope.Means array (.array type array size initials) → HasType scope index indexType →
      ValueType.Takes .int indexType → HasType scope (.element array index) type.value
  | call {function : String} {type : ScalarType} {params : List Param} {args : List Expr} :
      scope.Means function (.function type function params) → ArgsMatch scope args params →
      HasType scope (.call function args) type.value
  | input (type : ScalarType) : HasType scope (.input type) type.value
  | binary {op : BinaryOp} {lhs rhs : Expr} {left right type : ValueType} :
      HasType scope lhs left → HasType scope rhs right → op.resultType? left right = some type →
      HasType scope (.binary op lhs rhs) type

/-- Arguments match parameters: there are as many, and each parameter takes its argument. -/
inductive ArgsMatch (scope : Scope) : List Expr → List Param → Prop
  | nil : ArgsMatch scope [] []
  | cons {arg : Expr} {args : List Expr} {param : Param} {params : List Param}
      {type : ValueType} :
      HasType scope arg type → param.type.value.Takes type → ArgsMatch scope args params →
      ArgsMatch scope (arg :: args) (param :: params)

end

/-- A statement is well typed in a function with a given type of results. -/
inductive WellTyped (scope : Scope) (result : ScalarType) : Stmt → Prop
  | assign {target : String} {type : ScalarType} {initial : Literal} {value : Expr}
      {valueType : ValueType} :
      scope.Means target (.scalar type target initial) → scope.HasType value valueType →
      type.value.Takes valueType → WellTyped scope result (.assign target value)
  | assignElement {array : String} {type : ScalarType} {size : Nat} {initials : List Literal}
      {index value : Expr} {indexType valueType : ValueType} :
      scope.Means array (.array type array size initials) → scope.HasType index indexType →
      ValueType.Takes .int indexType → scope.HasType value valueType →
      type.value.Takes valueType → WellTyped scope result (.assignElement array index value)
  | print {value : Expr} {type : ValueType} :
      scope.HasType value type → WellTyped scope result (.print value)
  | ret {value : Expr} {type : ValueType} :
      scope.HasType value type → result.value.Takes type → WellTyped scope result (.ret value)
  | ifThen {condition : Expr} {positive : Stmt} :
      scope.HasType condition .bool → WellTyped scope result positive →
      WellTyped scope result (.ifThen condition positive)
  | ifElse {condition : Expr} {positive negative : Stmt} :
      scope.HasType condition .bool → WellTyped scope result positive →
      WellTyped scope result negative → WellTyped scope result (.ifElse condition positive negative)
  | loop {condition : Expr} {body : Stmt} :
      scope.HasType condition .bool → WellTyped scope result body →
      WellTyped scope result (.loop condition body)
  | block {body : List Stmt} :
      (∀ stmt ∈ body, WellTyped scope result stmt) → WellTyped scope result (.block body)
  | empty : WellTyped scope result .empty

end Scope

/-- Some path through a statement gets to its end without a return. -/
inductive Stmt.FallsThrough : Stmt → Prop
  | assign (target : String) (value : Expr) : FallsThrough (.assign target value)
  | assignElement (array : String) (index value : Expr) :
      FallsThrough (.assignElement array index value)
  | print (value : Expr) : FallsThrough (.print value)
  | untaken (condition : Expr) (positive : Stmt) : FallsThrough (.ifThen condition positive)
  | taken (condition : Expr) {positive : Stmt} :
      FallsThrough positive → FallsThrough (.ifThen condition positive)
  | positive (condition : Expr) {positive : Stmt} (negative : Stmt) :
      FallsThrough positive → FallsThrough (.ifElse condition positive negative)
  | negative (condition : Expr) (positive : Stmt) {negative : Stmt} :
      FallsThrough negative → FallsThrough (.ifElse condition positive negative)
  | finished (condition : Expr) (body : Stmt) : FallsThrough (.loop condition body)
  | repeated (condition : Expr) {body : Stmt} :
      FallsThrough body → FallsThrough (.loop condition body) →
      FallsThrough (.loop condition body)
  | block {body : List Stmt} : (∀ stmt ∈ body, FallsThrough stmt) → FallsThrough (.block body)
  | empty : FallsThrough .empty

/-- A program obeys the rules of the language. -/
structure Program.WellFormed (program : Program) : Prop where
  /-- No name is declared twice. -/
  decls_distinct : (program.decls.map Decl.name).Nodup
  /-- No name is implemented twice. -/
  implementations_distinct : (program.implementations.map Implementation.name).Nodup
  /-- Every declared function has a body. -/
  implemented : ∀ type name params, .function type name params ∈ program.decls →
    ∃ implementation ∈ program.implementations, implementation.name = name
  /-- Every body belongs to a declared function. -/
  declared : ∀ implementation ∈ program.implementations,
    ∃ type params, .function type implementation.name params ∈ program.decls
  /-- Every body is well typed among its function's parameters and the global declarations. -/
  typed : ∀ implementation ∈ program.implementations, ∀ type params,
    .function type implementation.name params ∈ program.decls →
      (program.scope.withParams params).WellTyped type implementation.body
  /-- Every path through a body ends in a return. -/
  returns : ∀ implementation ∈ program.implementations, ¬ implementation.body.FallsThrough

end ThreeAddress
