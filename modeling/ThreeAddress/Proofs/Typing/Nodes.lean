import ThreeAddress.Check.Program
import ThreeAddress.Proofs.Lowering.Pairs

/-!
# Diagnostics node by node

The checker goes through all nodes of a body, also through those that have no code. The diagnostics
of an expression are those of the rules of its parts, one after the other, and the diagnostics of a
statement are those of the statements inside it, each taken without the others. So a rule that is
broken anywhere in the body of a function shows among the diagnostics of the program.
-/

namespace ThreeAddress

mutual

/-- An expression and all expressions inside it, itself the last. -/
def Expr.parts : Expr → List Expr
  | .literal value => [.literal value]
  | .scalar name => [.scalar name]
  | .element array index => index.parts ++ [.element array index]
  | .call function args => Expr.partsAll args ++ [.call function args]
  | .input type => [.input type]
  | .binary op lhs rhs => lhs.parts ++ rhs.parts ++ [.binary op lhs rhs]

/-- The members of a list of expressions and all expressions inside them. -/
def Expr.partsAll : List Expr → List Expr
  | [] => []
  | expr :: rest => expr.parts ++ Expr.partsAll rest

end

/-- The expressions inside a list are those inside its members. -/
theorem Expr.partsAll_eq_flatMap (exprs : List Expr) :
    Expr.partsAll exprs = exprs.flatMap Expr.parts := by
  induction exprs with
  | nil => rfl
  | cons expr rest ih => rw [partsAll, ih, List.flatMap_cons]

/-- The calls inside a list are those inside its members, one member after the other. -/
theorem Expr.callsAll_eq_flatMap (exprs : List Expr) :
    Expr.callsAll exprs = exprs.flatMap Expr.calls := by
  induction exprs with
  | nil => rfl
  | cons expr rest ih => rw [callsAll, ih, List.flatMap_cons]

/-- What is evaluated with an expression is a part of it. -/
theorem Expr.evaluated_subset_parts (env : Environment) (expr : Expr) :
    expr.evaluated env ⊆ expr.parts := by
  induction expr with
  | literal | scalar | input => exact List.Subset.refl _
  | element array index ih =>
    exact List.append_subset.mpr
      ⟨List.subset_append_of_subset_left _ ih, List.subset_append_right _ _⟩
  | call function args ih =>
    refine List.append_subset.mpr
      ⟨List.subset_append_of_subset_left _ fun inner hinner => ?_, List.subset_append_right _ _⟩
    obtain ⟨arg, harg, hinner⟩ := Expr.exists_of_mem_evaluatedArgs hinner
    rw [partsAll_eq_flatMap]
    exact List.mem_flatMap.mpr ⟨arg, harg, ih arg harg hinner⟩
  | binary op lhs rhs ihl ihr =>
    refine List.append_subset.mpr
      ⟨List.subset_append_of_subset_left _ ?_, List.subset_append_right _ _⟩
    exact List.append_subset.mpr ⟨List.subset_append_of_subset_left _ ihl,
      List.subset_append_of_subset_right _ ihr⟩

/-- The expressions of a statement without those of the statements inside it. -/
def Stmt.ownExprs : Stmt → List Expr
  | .ifThen condition _ | .ifElse condition _ _ | .loop condition _ => [condition]
  | .block _ => []
  | stmt => stmt.exprs

/-- The statements inside a block are those inside its members. -/
theorem Stmt.partsAll_eq_flatMap (body : List Stmt) :
    Stmt.partsAll body = body.flatMap Stmt.parts := by
  induction body with
  | nil => rfl
  | cons stmt rest ih => rw [partsAll, ih, List.flatMap_cons]

/-- The expressions of a block are those of its members. -/
theorem Stmt.exprsAll_eq_flatMap (body : List Stmt) :
    Stmt.exprsAll body = body.flatMap Stmt.exprs := by
  induction body with
  | nil => rfl
  | cons stmt rest ih => rw [exprsAll, ih, List.flatMap_cons]

/-- The expressions of a statement are those of the statements inside it, each taken alone. -/
theorem Stmt.exprs_eq_flatMap (stmt : Stmt) : stmt.exprs = stmt.parts.flatMap Stmt.ownExprs := by
  induction stmt with
  | assign | assignElement | print | ret | empty => exact (List.flatMap_singleton _ _).symm
  | ifThen condition positive ih | loop condition positive ih =>
    rw [exprs, parts, List.flatMap_cons, ih]
    rfl
  | ifElse condition positive negative ihp ihn =>
    rw [exprs, parts, List.flatMap_cons, List.flatMap_append, ihp, ihn]
    rfl
  | block body ih =>
    rw [exprs, parts, List.flatMap_cons, exprsAll_eq_flatMap, partsAll_eq_flatMap,
      List.flatMap_assoc, List.flatMap_congr ih]
    rfl

namespace Scope

/-- The diagnostics of an expression are those of the rules of its parts. -/
theorem checkExpr_eq_flatMap (scope : Scope) (expr : Expr) :
    scope.checkExpr expr = expr.parts.flatMap scope.exprRule := by
  induction expr with
  | literal | scalar | input => exact (List.flatMap_singleton _ _).symm
  | element array index ih =>
    rw [checkExpr, Expr.parts, List.flatMap_append, ih, List.flatMap_singleton]
  | call function args ih =>
    rw [checkExpr, Expr.parts, List.flatMap_append, checkArgs_eq_flatMap,
      Expr.partsAll_eq_flatMap, List.flatMap_assoc, List.flatMap_singleton,
      List.flatMap_congr ih]
  | binary op lhs rhs ihl ihr =>
    rw [checkExpr, Expr.parts, List.flatMap_append, List.flatMap_append, ihl, ihr,
      List.flatMap_singleton]

/-- The diagnostics of a statement without those of the statements inside it. -/
def checkHead (scope : Scope) : Stmt → List Diagnostic
  | .ifThen condition _ | .ifElse condition _ _ =>
    scope.checkExpr condition ++ scope.conditionRule .if condition
  | .loop condition _ => scope.checkExpr condition ++ scope.conditionRule .while condition
  | .block _ => []
  | stmt => scope.checkStmt stmt

/-- The diagnostics of a statement are those of the statements inside it, each taken alone. -/
theorem checkStmt_eq_flatMap (scope : Scope) (stmt : Stmt) :
    scope.checkStmt stmt = stmt.parts.flatMap scope.checkHead := by
  induction stmt with
  | assign | assignElement | print | ret | empty => exact (List.flatMap_singleton _ _).symm
  | ifThen condition positive ih | loop condition positive ih =>
    rw [checkStmt, Stmt.parts, List.flatMap_cons, ih]
    rfl
  | ifElse condition positive negative ihp ihn =>
    rw [checkStmt, Stmt.parts, List.flatMap_cons, List.flatMap_append, ihp, ihn,
      ← List.append_assoc]
    rfl
  | block body ih =>
    rw [checkStmt, Stmt.parts, List.flatMap_cons, checkStmts_eq_flatMap, Stmt.partsAll_eq_flatMap,
      List.flatMap_assoc, List.flatMap_congr ih]
    rfl

variable {scope : Scope} {stmt part : Stmt} {expr inner : Expr}

/-- The rule of a part shows in the diagnostics of an expression. -/
theorem exprRule_subset_checkExpr (h : inner ∈ expr.parts) :
    scope.exprRule inner ⊆ scope.checkExpr expr := by
  rw [checkExpr_eq_flatMap]
  exact fun diagnostic hmem => List.mem_flatMap.mpr ⟨inner, h, hmem⟩

/-- What is wrong with a statement inside another shows in the diagnostics of that other. -/
theorem checkHead_subset_checkStmt (h : part ∈ stmt.parts) :
    scope.checkHead part ⊆ scope.checkStmt stmt := by
  rw [checkStmt_eq_flatMap]
  exact fun diagnostic hmem => List.mem_flatMap.mpr ⟨part, h, hmem⟩

/-- What is wrong with an expression of a statement shows in the diagnostics of the statement. -/
theorem checkExpr_subset_checkStmt (h : expr ∈ stmt.exprs) :
    scope.checkExpr expr ⊆ scope.checkStmt stmt := by
  rw [Stmt.exprs_eq_flatMap] at h
  obtain ⟨part, hpart, hexpr⟩ := List.mem_flatMap.mp h
  refine List.Subset.trans (fun diagnostic hmem => ?_) (checkHead_subset_checkStmt hpart)
  cases part with
  | empty | block => exact absurd hexpr List.not_mem_nil
  | assignElement array index value =>
    rcases List.mem_pair.mp hexpr with rfl | rfl <;> simp [checkHead, checkStmt, hmem]
  | _ =>
    obtain rfl := List.mem_singleton.mp hexpr
    simp [checkHead, checkStmt, hmem]

/-- The rule of a part of an expression shows in the diagnostics of the statement. -/
theorem exprRule_subset_checkStmt (hexpr : expr ∈ stmt.exprs) (hinner : inner ∈ expr.parts) :
    scope.exprRule inner ⊆ scope.checkStmt stmt :=
  List.Subset.trans (exprRule_subset_checkExpr hinner) (checkExpr_subset_checkStmt hexpr)

/-- The scope inside the body of a name; a name that is not a declared function has no parameters to
offer. -/
def within (scope : Scope) (name : String) : Scope :=
  match scope.function? name with
  | some signature => scope.withParams signature.params
  | none => scope

/-- What is wrong inside a body shows in the diagnostics of the function. -/
theorem checkStmt_subset_checkImplementation (scope : Scope) (implementation : Implementation) :
    (scope.within implementation.name).checkStmt implementation.body ⊆
      scope.checkImplementation implementation := by
  rw [within, function?, checkImplementation]
  cases scope.find? implementation.name with
  | none => exact List.subset_cons_self _ _
  | some decl =>
    cases decl with
    | scalar | array => exact List.subset_cons_self _ _
    | function type name params =>
      exact List.subset_append_of_subset_left _ (List.subset_append_left _ _)

/-- Inside a body, a name that a parameter hides means a variable. -/
theorem exists_find?_within_of_hides {caller name : String}
    (h : (Environment.inside scope caller).hides name = true) :
    ∃ type initial, (scope.within caller).find? name = some (.scalar type name initial) := by
  unfold Environment.inside Environment.hides at h
  unfold within
  cases hfunction : scope.function? caller with
  | none => simp [hfunction] at h
  | some signature =>
    simp only [hfunction, Option.map_some, decide_eq_true_eq, List.mem_map] at h
    obtain ⟨bound, hbound, hname⟩ := h
    rw [find?_withParams]
    cases hparam : signature.params.find? fun param => param.name = name with
    | none => exact absurd hname (by simpa using List.find?_eq_none.mp hparam bound hbound)
    | some param =>
      obtain rfl : param.name = name := by simpa using List.find?_some hparam
      exact ⟨param.type, Literal.zero param.type, rfl⟩

/-- Inside a body, a name that no parameter hides means what it means outside. -/
theorem find?_within_of_not_hides {caller name : String}
    (h : (Environment.inside scope caller).hides name = false) :
    (scope.within caller).find? name = scope.find? name := by
  unfold Environment.inside Environment.hides at h
  unfold within
  cases hfunction : scope.function? caller with
  | none => rfl
  | some signature =>
    simp only [hfunction, Option.map_some, decide_eq_false_iff_not, List.mem_map, not_exists,
      not_and] at h
    have hnone : (signature.params.find? fun param => param.name = name) = none :=
      List.find?_eq_none.mpr fun param hparam => by simpa using h param hparam
    rw [find?_withParams, hnone]
    rfl

end Scope

/-- What is wrong inside a body shows in the diagnostics of the program. -/
theorem Program.checkStmt_subset_check {program : Program} {implementation : Implementation}
    (h : implementation ∈ program.implementations) :
    (program.scope.within implementation.name).checkStmt implementation.body ⊆ program.check := by
  intro diagnostic hmem
  have hbody := Scope.checkStmt_subset_checkImplementation program.scope implementation hmem
  exact List.mem_append_right _ (List.mem_flatMap.mpr ⟨implementation, h, hbody⟩)

end ThreeAddress
