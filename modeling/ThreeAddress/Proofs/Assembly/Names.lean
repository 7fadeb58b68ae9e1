import ThreeAddress.Proofs.Assembly.Layout
import ThreeAddress.Proofs.Calls.Reach
import ThreeAddress.Proofs.Typing.Nodes

/-!
# The names in lowered code

Lowering makes up numbers, but no names. Whatever the code of a program names, the program names: in
a declaration, as the function of a body, or in an expression or a statement of one. So what holds
of all names of a program holds of those in its code.
-/

namespace ThreeAddress

open LowerM

/-- The names that an expression has by itself. -/
def Expr.ownNames : Expr → List String
  | .scalar name | .element name _ | .call name _ => [name]
  | .literal _ | .input _ | .binary .. => []

/-- The names in an expression. -/
def Expr.names (expr : Expr) : List String := expr.parts.flatMap Expr.ownNames

/-- The names that a statement has by itself. -/
def Stmt.ownNames : Stmt → List String
  | .assign target _ => [target]
  | .assignElement array _ _ => [array]
  | _ => []

/-- The names in a statement. -/
def Stmt.names (stmt : Stmt) : List String :=
  stmt.exprs.flatMap Expr.names ++ stmt.parts.flatMap Stmt.ownNames

/-- The names in a body, that of its function included. -/
def Implementation.names (implementation : Implementation) : List String :=
  implementation.name :: implementation.body.names

/-- The names in a program. -/
def Program.names (program : Program) : List String :=
  program.decls.flatMap Decl.names ++ program.implementations.flatMap Implementation.names

/-- The names that lowering finds around a body. -/
def Environment.names (env : Environment) : List String :=
  env.scope.decls.flatMap Decl.names ++ (env.enclosing?.map EnclosingFunction.name).toList

/-- The names of the program that a place is named by. -/
def Storage.names (place : Storage) : List String := place.referents.flatMap Referent.names

namespace Code

/-- The names of the program in some code. -/
def names (code : Code) : List String :=
  code.flatMap fun instruction => instruction.operation.names

/-- A sequence names what its parts name. -/
@[simp] theorem names_append (first second : Code) :
    names (first ++ second) = names first ++ names second :=
  List.flatMap_append

/-- The code of one operation names what that operation names. -/
@[simp] theorem names_ofOperation (operation : Operation) :
    (ofOperation operation).names = operation.names :=
  List.append_nil _

/-- An operation at the end adds what it names. -/
@[simp] theorem names_push (code : Code) (operation : Operation) :
    (code.push operation).names = code.names ++ operation.names := by
  rw [push, names_append, names_ofOperation]

/-- Labelling adds no names. -/
@[simp] theorem names_marked (label : Label) (code : Code) :
    (code.marked label).names = code.names :=
  flatMap_marked Operation.names rfl label code

/-- The place behind a construct names nothing. -/
@[simp] theorem names_landing (label : Label) : (landing label).names = [] := rfl

end Code

section Lowering

attribute [local simp] Operation.names Operation.referents Operation.entered? Storage.names
  Storage.referents Referent.names Expr.names Expr.parts Expr.ownNames Stmt.names Stmt.exprs
  Stmt.parts Stmt.ownNames

variable {env : Environment} {before after : Supply} {code : Code}

/-- A name stands for itself, with the function around if it is one of its parameters. -/
theorem Environment.names_placeOf (env : Environment) (name : String) :
    (env.placeOf name).names ⊆ name :: env.names := by
  cases h : env.hides name with
  | true =>
    obtain ⟨function, henclosing, hplace⟩ := placeOf_of_hides h
    simp [hplace, Environment.names, henclosing]
  | false => simp [placeOf_of_not_hides h]

/-- The code of an expression, with the place of its value, names nothing but what the expression
and its environment name. -/
theorem names_of_lowerExpr {expr : Expr} {place : Storage}
    (h : (lowerExpr env expr).Yields before (code, place) after) :
    code.names ++ place.names ⊆ expr.names ++ env.names := by
  refine lowerExpr_induction
    (P := fun expr _ code place _ => code.names ++ place.names ⊆ expr.names ++ env.names)
    (Q := fun function args params _ code _ => code.names ⊆
      (Expr.partsAll args).flatMap Expr.ownNames ++ function :: params.map Param.name ++
        env.names)
    ?constant ?string ?scalar ?element ?call ?input ?binary ?surplus ?argument h
  case constant | string | input => exact fun _ _ => List.nil_subset _
  case scalar => exact fun name _ => env.names_placeOf name
  case element =>
    intro array index before code place after _ hindex
    simp at hindex ⊢
    grind
  case call =>
    intro function args params before code after hcallee _ hargs
    obtain ⟨type, hdecl⟩ := mem_decls_of_callee hcallee
    have hparams : params.map Param.name ⊆ env.names := fun name hname =>
      List.mem_append_left _ (List.mem_flatMap.mpr ⟨_, hdecl, List.mem_cons_of_mem _ hname⟩)
    simp at hargs ⊢
    grind
  case binary =>
    intro op lhs rhs before leftCode left middle rightCode right after _ _ hleft hright
    simp at hleft hright ⊢
    grind
  case surplus => exact fun _ _ _ _ _ => List.nil_subset _
  case argument =>
    intro function arg args param params before argCode source middle rest after _ _ harg hrest
    simp [Expr.partsAll] at harg hrest ⊢
    grind

/-- The code of a statement names nothing but what the statement and its environment name. -/
theorem names_of_lowerStmt {stmt : Stmt} (h : (lowerStmt env stmt).Yields before code after) :
    code.names ⊆ stmt.names ++ env.names := by
  have hexpr : ∀ {expr : Expr} {before after : Supply} {code : Code} {place : Storage},
      (lowerExpr env expr).Yields before (code, place) after →
        code.names ⊆ expr.names ++ env.names ∧ place.names ⊆ expr.names ++ env.names :=
    fun hexpr => List.append_subset.mp (names_of_lowerExpr hexpr)
  refine lowerStmt_induction
    (P := fun stmt _ code _ => code.names ⊆ stmt.names ++ env.names)
    (Q := fun body _ code _ => code.names ⊆ (Stmt.exprsAll body).flatMap Expr.names ++
      (Stmt.partsAll body).flatMap Stmt.ownNames ++ env.names)
    ?assign ?assignElement ?print ?ret ?ifThen ?ifElse ?loop ?block ?empty ?nil ?cons h
  case assign =>
    intro target value before code source after hvalue
    obtain ⟨hcode, hsource⟩ := hexpr hvalue
    have htarget := env.names_placeOf target
    simp at hcode hsource htarget ⊢
    grind
  case assignElement =>
    intro array index value before valueCode source middle indexCode place after hvalue hindex
    obtain ⟨hvalue, hsource⟩ := hexpr hvalue
    obtain ⟨hindex, hplace⟩ := hexpr hindex
    simp at hvalue hsource hindex hplace ⊢
    grind
  case print | ret =>
    intro value before code source after hvalue
    obtain ⟨hcode, hsource⟩ := hexpr hvalue
    simp at hcode hsource ⊢
    grind
  case ifThen =>
    intro condition positive before test place middle branch after htest hbranch
    obtain ⟨htest, hplace⟩ := hexpr htest
    simp at htest hplace hbranch ⊢
    grind
  case ifElse =>
    intro condition positive negative before test place middle branch last alternative after htest
      hbranch halternative
    obtain ⟨htest, hplace⟩ := hexpr htest
    simp at htest hplace hbranch halternative ⊢
    grind
  case loop =>
    intro condition body before test place middle round after htest hround
    obtain ⟨htest, hplace⟩ := hexpr htest
    simp at htest hplace hround ⊢
    grind
  case block =>
    intro body before code after hbody
    simp at hbody ⊢
    grind
  case empty | nil => exact fun _ => List.nil_subset _
  case cons =>
    intro stmt rest before first middle others after hfirst hothers
    simp [Stmt.exprsAll, Stmt.partsAll] at hfirst hothers ⊢
    grind

/-- The code of all bodies names nothing but what the bodies and the declarations name. -/
theorem names_of_lowerImplementations {scope : Scope} {implementations : List Implementation}
    (h : (lowerImplementations scope implementations).Yields before code after) :
    code.names ⊆
      scope.decls.flatMap Decl.names ++ implementations.flatMap Implementation.names := by
  induction implementations generalizing before code with
  | nil =>
    obtain ⟨rfl, -⟩ := yields_implementations_nil_iff.mp h
    exact List.nil_subset _
  | cons implementation rest ih =>
    obtain ⟨first, middle, others, hfirst, hothers, rfl⟩ := yields_implementations_cons_iff.mp h
    obtain ⟨inner, hinner, rfl⟩ := yields_implementation_iff.mp hfirst
    have henclosing : (Environment.inside scope implementation.name).names ⊆
        implementation.name :: scope.decls.flatMap Decl.names := by
      unfold Environment.names Environment.inside
      cases scope.function? implementation.name <;> simp
    have hbody := names_of_lowerStmt hinner
    have hrest := ih hothers
    simp [Implementation.names] at hbody hrest ⊢
    grind

end Lowering

/-- The code of a program names nothing but what the program names. -/
theorem Program.names_of_lower {program : Program} {unit : CodeUnit}
    (h : program.lower = .ok unit) : unit.code.names ⊆ program.names := by
  obtain ⟨code, after, hyields, rfl⟩ := Program.lower_eq_ok_iff.mp h
  exact names_of_lowerImplementations hyields

end ThreeAddress
