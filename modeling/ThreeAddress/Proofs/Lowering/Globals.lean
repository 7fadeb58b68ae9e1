import ThreeAddress.Proofs.Lowering.Pairs

/-!
# The globals that lowered code refers to

An instruction refers to global declarations: to variables that it reads or writes, to an array, to
a function that it calls. To which of them the code of a statement refers can be told from the
statement. A parameter hides a variable or a function of its own name; the names of arrays are taken
as they stand.
-/

namespace ThreeAddress

open LowerM

/-- A global declaration, by the use that an instruction makes of it. -/
inductive Global where
  | variable (name : String)
  | array (name : String)
  | function (name : String)
  deriving DecidableEq

/-- The global variable that a place is, if it is one. -/
def Storage.globals : Storage → List Global
  | .variable name => [.variable name]
  | _ => []

/-- The globals that an operation refers to. -/
def Operation.globals (operation : Operation) : List Global :=
  (operation.operands ++ operation.destination?.toList).flatMap Storage.globals ++
    match operation with
    | .copyIntoArray array _ _ | .copyFromArray _ array _ => [.array array]
    | .call function _ => [.function function]
    | _ => []

/-- What a name in a body refers to: nothing, if a parameter hides it. -/
def Environment.seen (env : Environment) (name : String) (global : Global) : List Global :=
  if env.hides name then [] else [global]

/-- The globals that an expression refers to by itself. -/
def Expr.ownGlobals (env : Environment) : Expr → List Global
  | .scalar name => env.seen name (.variable name)
  | .element array _ => [.array array]
  | .call function _ => env.seen function (.function function)
  | .literal _ | .input _ | .binary .. => []

/-- The globals that are referred to while an expression is evaluated. -/
def Expr.globals (env : Environment) (expr : Expr) : List Global :=
  (expr.evaluated env).flatMap (Expr.ownGlobals env)

/-- The globals that a statement refers to as the target of an assignment. -/
def Stmt.targetGlobals (env : Environment) : Stmt → List Global
  | .assign target _ => env.seen target (.variable target)
  | .assignElement array _ _ => [.array array]
  | _ => []

/-- The globals that a statement refers to. -/
def Stmt.globals (env : Environment) (stmt : Stmt) : List Global :=
  stmt.exprs.flatMap (Expr.globals env) ++ stmt.parts.flatMap (Stmt.targetGlobals env)

namespace Code

/-- The globals that the instructions of some code refer to, in order. -/
def globals (code : Code) : List Global :=
  code.flatMap fun instruction => instruction.operation.globals

/-- A sequence refers to what its parts refer to. -/
@[simp] theorem globals_append (first second : Code) :
    globals (first ++ second) = globals first ++ globals second :=
  List.flatMap_append

/-- An operation at the end adds what it refers to. -/
@[simp] theorem globals_push (code : Code) (operation : Operation) :
    (code.push operation).globals = code.globals ++ operation.globals := by
  rw [push, globals_append]
  exact congrArg (_ ++ ·) (List.append_nil _)

/-- Labelling adds no references. -/
@[simp] theorem globals_marked (label : Label) (code : Code) :
    (code.marked label).globals = code.globals :=
  flatMap_marked Operation.globals rfl label code

/-- The place behind a construct refers to nothing. -/
@[simp] theorem globals_landing (label : Label) : (landing label).globals = [] := rfl

end Code

/-- The place of a name is the global variable that the name refers to. -/
theorem Environment.globals_placeOf (env : Environment) (name : String) :
    (env.placeOf name).globals = env.seen name (.variable name) := by
  unfold seen
  cases h : env.hides name with
  | true =>
    obtain ⟨function, -, hplace⟩ := placeOf_of_hides h
    rw [hplace]
    rfl
  | false =>
    rw [placeOf_of_not_hides h]
    rfl

/-- A name that can be called is hidden by no parameter. -/
theorem Environment.hides_of_callee {env : Environment} {function : String} {params : List Param}
    (h : env.callee function = .ok params) : env.hides function = false := by
  unfold callee at h
  split at h
  · split at h
    · contradiction
    · simp_all
  · split at h <;> contradiction

section Lowering

attribute [local simp] Operation.globals Operation.operands Operation.destination? Expr.ownGlobals
  Stmt.globals Stmt.exprs Stmt.parts Stmt.targetGlobals

variable {env : Environment} {before after : Supply} {code : Code}

/-- The code of an expression, with the place of its value, refers to the globals that the
expression refers to. -/
theorem globals_of_lowerExpr {expr : Expr} {place : Storage}
    (h : (lowerExpr env expr).Yields before (code, place) after) :
    (code.globals ++ place.globals).Perm (expr.globals env) := by
  refine lowerExpr_induction
    (P := fun expr _ code place _ => (code.globals ++ place.globals).Perm (expr.globals env))
    (Q := fun _ args params _ code _ => code.globals.Perm
      ((Expr.evaluatedArgs env args params.length).flatMap (Expr.ownGlobals env)))
    ?constant ?string ?scalar ?element ?call ?input ?binary ?surplus ?argument h
  case constant => exact fun _ _ => .nil
  case string => exact fun _ _ => .nil
  case scalar =>
    intro name supply
    rw [Environment.globals_placeOf]
    exact .of_eq (List.append_nil _).symm
  case element =>
    intro array index before code place after _ hindex
    rw [Expr.globals, Expr.evaluated, List.flatMap_append]
    refine (List.Perm.of_eq ?_).trans (hindex.append_right _)
    simp [Storage.globals]
  case call =>
    intro function args params before code after hcallee _ hargs
    have hseen : env.seen function (.function function) = [.function function] := by
      rw [Environment.seen, Environment.hides_of_callee hcallee]
      rfl
    have harity : env.arity function = params.length := by rw [Environment.arity, hcallee]
    rw [Expr.globals, Expr.evaluated, harity, List.flatMap_append]
    refine (List.Perm.of_eq ?_).trans (hargs.append_right _)
    simp [Storage.globals, hseen]
  case input => exact fun _ _ => .nil
  case binary =>
    intro op lhs rhs before leftCode left middle rightCode right after _ _ hleft hright
    rw [Expr.globals, Expr.evaluated, List.flatMap_append, List.flatMap_append]
    refine (List.perm_iff_count.mpr fun global => ?_).trans ((hleft.append hright).append_right _)
    simp [Storage.globals]
    omega
  case surplus =>
    rintro function args params supply (rfl | rfl)
    · exact .nil
    · cases args <;> exact .nil
  case argument =>
    intro function arg args param params before argCode source middle rest after _ _ harg hrest
    rw [List.length_cons, Expr.evaluatedArgs, List.flatMap_append]
    refine (List.Perm.of_eq ?_).trans (harg.append hrest)
    simp [Storage.globals]

/-- The code of a statement refers to the globals that the statement refers to. -/
theorem globals_of_lowerStmt {stmt : Stmt} (h : (lowerStmt env stmt).Yields before code after) :
    code.globals.Perm (stmt.globals env) := by
  refine List.perm_iff_count.mpr fun global => ?_
  have hexpr : ∀ {expr : Expr} {before after : Supply} {code : Code} {place : Storage},
      (lowerExpr env expr).Yields before (code, place) after →
        code.globals.count global + place.globals.count global =
          (expr.globals env).count global := fun hexpr => by
    rw [← List.count_append]
    exact (globals_of_lowerExpr hexpr).count_eq global
  refine lowerStmt_induction
    (P := fun stmt _ code _ => code.globals.count global = (stmt.globals env).count global)
    (Q := fun body _ code _ => code.globals.count global =
      ((Stmt.exprsAll body).flatMap (Expr.globals env)).count global +
        ((Stmt.partsAll body).flatMap (Stmt.targetGlobals env)).count global)
    ?assign ?assignElement ?print ?ret ?ifThen ?ifElse ?loop ?block ?empty ?nil ?cons h
  case assign =>
    intro target value before code source after hvalue
    simp [Environment.globals_placeOf, ← hexpr hvalue, Nat.add_assoc]
  case assignElement =>
    intro array index value before valueCode source middle indexCode place after hvalue hindex
    simp [← hexpr hvalue, ← hexpr hindex]
    omega
  case print =>
    intro value before code source after hvalue
    simp [← hexpr hvalue]
  case ret =>
    intro value before code source after hvalue
    simp [← hexpr hvalue]
  case ifThen =>
    intro condition positive before test place middle branch after htest hbranch
    simp [← hexpr htest, hbranch, Nat.add_assoc]
  case ifElse =>
    intro condition positive negative before test place middle branch last alternative after htest
      hbranch halternative
    simp [← hexpr htest, hbranch, halternative]
    omega
  case loop =>
    intro condition body before test place middle round after htest hround
    simp [← hexpr htest, hround, Nat.add_assoc]
  case block =>
    intro body before code after hbody
    simp [hbody]
  case empty => exact fun _ => rfl
  case nil => exact fun _ => rfl
  case cons =>
    intro stmt rest before first middle others after hfirst hothers
    simp [hfirst, hothers, Stmt.exprsAll, Stmt.partsAll]
    omega

end Lowering

end ThreeAddress
