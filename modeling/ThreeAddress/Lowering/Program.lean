import ThreeAddress.Code.Unit
import ThreeAddress.Lowering.Body

/-!
# Lowering of programs

The bodies of a program are lowered one after another from one supply, each in the environment
of its function. A `LoweringSession` keeps environment and supply between calls, for lowering
piece by piece: only a body that was lowered to its end leaves its function again.
-/

namespace ThreeAddress

/-- The code of a body: the entry of the function, the statement, the end. -/
def lowerImplementation (scope : Scope) (implementation : Implementation) : LowerM Code := do
  let body ← lowerStmt (.inside scope implementation.name) implementation.body
  return (Code.ofOperation (.enter implementation.name) ++ body).push .leave

/-- The code of a list of bodies. -/
def lowerImplementations (scope : Scope) : List Implementation → LowerM Code
  | [] => return []
  | implementation :: rest => do
    let code ← lowerImplementation scope implementation
    return code ++ (← lowerImplementations scope rest)

/-- Lowers a program, starting all numbers from zero. -/
def Program.lower (program : Program) : Except LoweringError CodeUnit :=
  match (lowerImplementations ⟨program.decls⟩ program.implementations).runOn .full with
  | (.ok code, supply) => .ok ⟨program.decls, supply.strings, code⟩
  | (.error error, _) => .error error

/-- Lowering under way. -/
structure LoweringSession where
  /-- What names mean at this point. -/
  env : Environment
  /-- What has been taken up to this point. -/
  supply : Supply

namespace LoweringSession

/-- The start of lowering, outside all functions. -/
def start (scope : Scope) : LoweringSession := ⟨.outside scope, .full⟩

/-- Lowers an expression. -/
def lowerExpr (context : LoweringSession) (expr : Expr) :
    Except LoweringError (Code × Storage) × LoweringSession :=
  let (result, supply) := (ThreeAddress.lowerExpr context.env expr).runOn context.supply
  (result, { context with supply := supply })

/-- Lowers a statement. -/
def lowerStmt (context : LoweringSession) (stmt : Stmt) :
    Except LoweringError Code × LoweringSession :=
  let (result, supply) := (ThreeAddress.lowerStmt context.env stmt).runOn context.supply
  (result, { context with supply := supply })

/-- Lowers a body. A body that fails leaves the context inside its function. -/
def lowerImplementation (context : LoweringSession) (implementation : Implementation) :
    Except LoweringError Code × LoweringSession :=
  let scope := context.env.scope
  match (ThreeAddress.lowerImplementation scope implementation).runOn context.supply with
  | (.ok code, supply) => (.ok code, ⟨.outside scope, supply⟩)
  | (.error error, supply) => (.error error, ⟨.inside scope implementation.name, supply⟩)

end LoweringSession

end ThreeAddress
