import ThreeAddress.Syntax.Basic

/-!
# Scopes

A name means its first declaration. A function's body sees the function's parameters first,
bound like variables, and then the global declarations; there is no deeper nesting.
-/

namespace ThreeAddress

/-- The declarations that can be seen from a place in the program, nearest first. -/
structure Scope where
  /-- The declarations, of which the first with a name is the one that is meant. -/
  decls : List Decl

/-- The part of a function that a call depends on. -/
structure Signature where
  /-- The type of the result. -/
  type : ScalarType
  /-- The parameters, in the order of the arguments. -/
  params : List Param

/-- A parameter as the function's body sees it: a variable that starts out zero. -/
def Param.decl (param : Param) : Decl :=
  .scalar param.type param.name (Literal.zero param.type)

/-- The signature of a declaration, if it declares a function. -/
def Decl.signature? : Decl → Option Signature
  | .function type _ params => some ⟨type, params⟩
  | _ => none

namespace Scope

/-- The declaration a name means. -/
def find? (scope : Scope) (name : String) : Option Decl :=
  scope.decls.find? fun decl => decl.name = name

/-- The scope inside a function with the given parameters. -/
def withParams (scope : Scope) (params : List Param) : Scope :=
  ⟨params.map Param.decl ++ scope.decls⟩

/-- The signature of the function a name means; none if it means anything else. -/
def function? (scope : Scope) (name : String) : Option Signature :=
  (scope.find? name).bind Decl.signature?

/-- A parameter has the name of the declaration it is bound as. -/
@[simp] theorem name_paramDecl (param : Param) : param.decl.name = param.name := rfl

/-- What is found has the name that was looked for. -/
theorem name_of_find? {scope : Scope} {name : String} {decl : Decl}
    (h : scope.find? name = some decl) : decl.name = name := by
  simpa using List.find?_some h

/-- Inside a function a name means the first parameter of that name, and only then what it
means outside. -/
theorem find?_withParams (scope : Scope) (params : List Param) (name : String) :
    (scope.withParams params).find? name
      = ((params.find? fun param => param.name = name).map Param.decl).or (scope.find? name) := by
  induction params with
  | nil => simp [withParams, find?]
  | cons param rest ih =>
    simp only [withParams, find?, List.map_cons, List.cons_append, List.find?_cons,
      name_paramDecl] at ih ⊢
    by_cases h : param.name = name <;> simp [h, ih]

end Scope

end ThreeAddress
