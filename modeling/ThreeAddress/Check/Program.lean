import ThreeAddress.Check.Returns

/-!
# Checking a program

The checks of a program are independent of each other, and none of them stops at the first
problem: names declared or implemented twice, functions without a body, and then the bodies one
by one. Whether a diagnostic is fatal is for the caller to decide.
-/

namespace ThreeAddress

/-- The names that occur again further down a list, once for each such occurrence. -/
def repeatedNames : List String → List String
  | [] => []
  | name :: rest =>
    if name ∈ rest then name :: repeatedNames rest else repeatedNames rest

/-- The global scope of a program. -/
def Program.scope (program : Program) : Scope := ⟨program.decls⟩

/-- One diagnostic for every declaration whose name is declared again. -/
def checkDeclarations (decls : List Decl) : List Diagnostic :=
  (repeatedNames (decls.map Decl.name)).map .duplicateDeclaration

/-- One diagnostic for every body whose name has another one further down. -/
def checkImplementations (implementations : List Implementation) : List Diagnostic :=
  (repeatedNames (implementations.map Implementation.name)).map .duplicateImplementation

/-- The name of a declared function. -/
def Decl.functionName? (decl : Decl) : Option String :=
  decl.signature?.map fun _ => decl.name

namespace Program

/-- One diagnostic for every declared function without a body. -/
def checkMissing (program : Program) : List Diagnostic :=
  ((program.decls.filterMap Decl.functionName?).filter fun name =>
    name ∉ program.implementations.map Implementation.name).map .missingImplementation

end Program

namespace Scope

/-- The diagnostics of a function's body. One that is not declared as a function is still
checked in the global scope. -/
def checkImplementation (scope : Scope) (implementation : Implementation) : List Diagnostic :=
  match scope.find? implementation.name with
  | some (.function type _ params) =>
    let inner := scope.withParams params
    inner.checkStmt implementation.body
      ++ inner.checkReturned implementation.name type implementation.body
      ++ (if implementation.body.endsInReturn then [] else [.missingReturn implementation.name])
  | some _ =>
    .nonFunctionImplementation implementation.name :: scope.checkStmt implementation.body
  | none =>
    .undeclaredImplementation implementation.name :: scope.checkStmt implementation.body

end Scope

/-- All diagnostics of a program. -/
def Program.check (program : Program) : List Diagnostic :=
  checkDeclarations program.decls
    ++ checkImplementations program.implementations
    ++ program.checkMissing
    ++ program.implementations.flatMap program.scope.checkImplementation

/-- Nothing is repeated exactly if all names are distinct. -/
theorem repeatedNames_eq_nil_iff (names : List String) :
    repeatedNames names = [] ↔ names.Nodup := by
  induction names with
  | nil => simp [repeatedNames]
  | cons name rest ih =>
    by_cases h : name ∈ rest <;> simp [repeatedNames, h, ih]

end ThreeAddress
