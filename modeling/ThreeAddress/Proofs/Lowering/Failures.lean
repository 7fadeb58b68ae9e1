import ThreeAddress.Check.Program
import ThreeAddress.Proofs.Lowering.Operands

/-!
# Why lowering fails

A step of lowering fails at the first name that can not be called, among the names that it looks up.
Names are looked up in the order in which calls are lowered: the expressions of a statement one
after the other, operands from left to right, and the name of a call before its arguments. What has
been taken from the supply plays no part.
-/

namespace ThreeAddress

open LowerM

/-- Why a name can not be called, if it can not. -/
def Environment.refusal? (env : Environment) (name : String) : Option LoweringError :=
  match env.callee name with
  | .ok _ => none
  | .error cause => some cause

/-- A name can be called if its first global declaration declares a function and no parameter hides
it. Whether there is a declaration at all is decided first. -/
theorem Environment.refusal?_eq (env : Environment) (name : String) :
    env.refusal? name =
      match env.scope.find? name with
      | none => some (.undeclaredFunction name)
      | some (.function ..) => if env.hides name then some (.notAFunction name) else none
      | some _ => some (.notAFunction name) := by
  rw [refusal?, callee, Scope.function?]
  cases env.scope.find? name with
  | none => rfl
  | some decl =>
    cases decl with
    | scalar | array => rfl
    | function => cases env.hides name <;> rfl

mutual

/-- The names that are called while an expression is lowered, in the order in which they are looked
up. -/
def Expr.called (env : Environment) : Expr → List String
  | .literal _ | .scalar _ | .input _ => []
  | .element _ index => index.called env
  | .call function args => function :: Expr.calledArgs env args (env.arity function)
  | .binary _ lhs rhs => lhs.called env ++ rhs.called env

/-- The names that are called while a number of arguments are lowered. -/
def Expr.calledArgs (env : Environment) : List Expr → Nat → List String
  | arg :: args, count + 1 => arg.called env ++ Expr.calledArgs env args count
  | _, _ => []

end

/-- The names that are called while a statement is lowered. -/
def Stmt.called (env : Environment) (stmt : Stmt) : List String :=
  stmt.exprs.flatMap (Expr.called env)

/-- Why the first of some names that can not be called can not be, if there is one. -/
def Environment.firstRefusal? (env : Environment) (names : List String) : Option LoweringError :=
  names.findSome? env.refusal?

/-- Why the body of a function can not be lowered, if it can not. -/
def Implementation.refusal? (scope : Scope) (implementation : Implementation) :
    Option LoweringError :=
  let env := Environment.inside scope implementation.name
  env.firstRefusal? (implementation.body.called env)

/-- No name, no refusal. -/
@[simp] theorem Environment.firstRefusal?_nil (env : Environment) : env.firstRefusal? [] = none :=
  rfl

/-- The first refusal of two lists of names is that of the first list, if it has one. -/
@[simp] theorem Environment.firstRefusal?_append (env : Environment) (first second : List String) :
    env.firstRefusal? (first ++ second) =
      (env.firstRefusal? first).or (env.firstRefusal? second) :=
  List.findSome?_append

/-- The names that are called in arguments are called in one of them. -/
theorem Expr.exists_of_mem_calledArgs {env : Environment} {args : List Expr} {count : Nat}
    {name : String} (h : name ∈ Expr.calledArgs env args count) :
    ∃ arg ∈ args, name ∈ arg.called env := by
  induction args generalizing count with
  | nil => simp [calledArgs] at h
  | cons arg args ih =>
    cases count with
    | zero => simp [calledArgs] at h
    | succ count =>
      rcases List.mem_append.mp h with h | h
      · exact ⟨arg, List.mem_cons_self, h⟩
      · obtain ⟨other, hother, hname⟩ := ih h
        exact ⟨other, List.mem_cons_of_mem arg hother, hname⟩

/-- A name that is called while an expression is lowered is called inside it. -/
theorem Expr.exists_call_of_mem_called {env : Environment} {expr : Expr} {name : String}
    (h : name ∈ expr.called env) : ∃ args, (name, args) ∈ expr.calls := by
  induction expr with
  | literal | scalar | input => exact absurd h List.not_mem_nil
  | element array index ih => exact ih h
  | call function args ih =>
    rcases List.mem_cons.mp h with rfl | h
    · exact ⟨args, List.mem_append_right _ (List.mem_singleton_self _)⟩
    · obtain ⟨arg, harg, hname⟩ := Expr.exists_of_mem_calledArgs h
      obtain ⟨inner, hcall⟩ := ih arg harg hname
      exact ⟨inner, List.mem_append_left _ (Expr.mem_callsAll.mpr ⟨arg, harg, hcall⟩)⟩
  | binary op lhs rhs ihl ihr =>
    rcases List.mem_append.mp h with h | h
    · obtain ⟨args, hcall⟩ := ihl h
      exact ⟨args, List.mem_append_left _ hcall⟩
    · obtain ⟨args, hcall⟩ := ihr h
      exact ⟨args, List.mem_append_right _ hcall⟩

/-- A name that is called while a statement is lowered is called inside it. -/
theorem Stmt.exists_call_of_mem_called {env : Environment} {stmt : Stmt} {name : String}
    (h : name ∈ stmt.called env) : ∃ args, (name, args) ∈ stmt.calls := by
  obtain ⟨expr, hexpr, hname⟩ := List.mem_flatMap.mp h
  obtain ⟨args, hcall⟩ := Expr.exists_call_of_mem_called hname
  exact ⟨args, Expr.mem_callsAll.mpr ⟨expr, hexpr, hcall⟩⟩

namespace LowerM

/-- A step of lowering fails exactly if there is a cause, and for that cause, from any supply. -/
def FailsFor (step : LowerM α) (cause? : Option LoweringError) : Prop :=
  ∀ before error, (step.runOn before).1 = .error error ↔ cause? = some error

namespace FailsFor

/-- A sequence fails for the cause of its first step, or else for that of the second. -/
theorem bind {first : LowerM α} {second : α → LowerM β} {cause? cause?' : Option LoweringError}
    (h : first.FailsFor cause?) (h' : ∀ value, (second value).FailsFor cause?') :
    (first >>= second).FailsFor (cause?.or cause?') := by
  intro before error
  rw [runOn_bind]
  have hfirst := h before
  cases hrun : first.runOn before with
  | mk result rest =>
    rw [hrun] at hfirst
    cases result with
    | error cause => simp [(hfirst cause).mp rfl]
    | ok value =>
      have hnone : cause? = none := by
        cases cause? with
        | none => rfl
        | some cause => exact absurd ((hfirst cause).mpr rfl) (by simp)
      simpa [hnone] using h' value rest error

/-- A sequence whose first step fails fails for the same cause. -/
theorem bind_some {first : LowerM α} (second : α → LowerM β) {cause : LoweringError}
    (h : first.FailsFor (some cause)) : (first >>= second).FailsFor (some cause) := by
  intro before error
  rw [runOn_bind]
  have hfirst := (h before cause).mpr rfl
  cases hrun : first.runOn before with
  | mk result rest =>
    rw [hrun] at hfirst
    obtain rfl : result = .error cause := hfirst
    simp

/-- A sequence whose first step does not fail fails for the cause of the second. -/
theorem bind_right {first : LowerM α} {second : α → LowerM β} {cause? : Option LoweringError}
    (h : first.FailsFor none) (h' : ∀ value, (second value).FailsFor cause?) :
    (first >>= second).FailsFor cause? :=
  h.bind h'

/-- A sequence whose second step does not fail fails for the cause of the first. -/
theorem bind_left {first : LowerM α} {second : α → LowerM β} {cause? : Option LoweringError}
    (h : first.FailsFor cause?) (h' : ∀ value, (second value).FailsFor none) :
    (first >>= second).FailsFor cause? := by
  simpa using h.bind h'

end FailsFor

/-- A step that only yields a value does not fail. -/
theorem failsFor_pure (value : α) : (pure value : LowerM α).FailsFor none := by
  intro before error
  simp

/-- Looking a called name up fails if it is refused. -/
theorem failsFor_lift_error (cause : LoweringError) :
    FailsFor (ExceptT.mk (pure (.error cause)) : LowerM α) (some cause) := by
  intro before error
  change Except.error cause = (.error error : Except LoweringError α) ↔ some cause = some error
  simp

/-- Taking a temporary does not fail. -/
theorem failsFor_takeTemporary : takeTemporary.FailsFor none := by
  intro before error
  simp

/-- Taking a label does not fail. -/
theorem failsFor_takeLabel : takeLabel.FailsFor none := by
  intro before error
  simp

/-- Taking a place does not fail. -/
theorem failsFor_takePlace : takePlace.FailsFor none :=
  failsFor_takeTemporary.bind_right fun _ => failsFor_pure _

end LowerM

section Lowering

/-- Lowering a literal does not fail. -/
theorem failsFor_lowerLiteral (value : Literal) : (lowerLiteral value).FailsFor none := by
  cases value with
  | int | float | char => exact failsFor_pure _
  | string text =>
    refine failsFor_takeTemporary.bind_right fun id => FailsFor.bind_right ?_ fun _ =>
      failsFor_pure _
    intro before error
    change (.ok () : Except LoweringError Unit) = .error error ↔ none = some error
    simp

variable (env : Environment)

/-- Lowering arguments fails for the first refusal among the names that it looks up. -/
theorem failsFor_lowerArgs {function : String} {args : List Expr}
    (hargs : ∀ arg ∈ args, (lowerExpr env arg).FailsFor (env.firstRefusal? (arg.called env)))
    (params : List Param) :
    (lowerArgs env function args params).FailsFor
      (env.firstRefusal? (Expr.calledArgs env args params.length)) := by
  induction args generalizing params with
  | nil => exact failsFor_pure _
  | cons arg args ih =>
    cases params with
    | nil => exact failsFor_pure _
    | cons param params =>
      obtain ⟨harg, hargs⟩ := List.forall_mem_cons.mp hargs
      rw [lowerArgs, List.length_cons, Expr.calledArgs, Environment.firstRefusal?_append]
      exact harg.bind fun _ => (ih hargs params).bind_left fun _ => failsFor_pure _

/-- Lowering an expression fails for the first refusal among the names that it looks up. -/
theorem failsFor_lowerExpr (expr : Expr) :
    (lowerExpr env expr).FailsFor (env.firstRefusal? (expr.called env)) := by
  induction expr with
  | literal value => exact (failsFor_lowerLiteral value).bind_right fun _ => failsFor_pure _
  | scalar name => exact failsFor_pure _
  | element array index ih =>
    exact ih.bind_left fun _ => failsFor_takePlace.bind_right fun _ => failsFor_pure _
  | call function args ih =>
    rw [lowerExpr, Expr.called, Environment.firstRefusal?, List.findSome?_cons,
      Environment.refusal?, Environment.arity]
    cases env.callee function with
    | error cause => exact (failsFor_lift_error cause).bind_some _
    | ok params =>
      exact (failsFor_lowerArgs env ih params).bind_left fun _ =>
        failsFor_takePlace.bind_right fun _ => failsFor_pure _
  | input type => exact failsFor_takePlace.bind_right fun _ => failsFor_pure _
  | binary op lhs rhs ihl ihr =>
    rw [lowerExpr, Expr.called, Environment.firstRefusal?_append]
    exact ihl.bind fun _ => ihr.bind_left fun _ =>
      failsFor_takePlace.bind_right fun _ => failsFor_pure _

/-- Lowering a statement fails for the first refusal among the names that it looks up. -/
theorem failsFor_lowerStmt (stmt : Stmt) :
    (lowerStmt env stmt).FailsFor (env.firstRefusal? (stmt.called env)) := by
  have hexpr := failsFor_lowerExpr env
  induction stmt with
  | assign target value | print value | ret value =>
    rw [lowerStmt, Stmt.called, Stmt.exprs, List.flatMap_singleton]
    exact (hexpr value).bind_left fun _ => failsFor_pure _
  | assignElement array index value =>
    rw [lowerStmt, Stmt.called, Stmt.exprs, List.flatMap_cons, List.flatMap_singleton,
      Environment.firstRefusal?_append]
    exact (hexpr value).bind fun _ => (hexpr index).bind_left fun _ => failsFor_pure _
  | ifThen condition positive ih =>
    rw [lowerStmt, Stmt.called, Stmt.exprs, List.flatMap_cons, Environment.firstRefusal?_append]
    exact (hexpr condition).bind fun _ => failsFor_takeLabel.bind_right fun _ =>
      ih.bind_left fun _ => failsFor_pure _
  | ifElse condition positive negative ihp ihn =>
    rw [lowerStmt, Stmt.called, Stmt.exprs, List.flatMap_append, List.flatMap_cons,
      Environment.firstRefusal?_append, Environment.firstRefusal?_append, Option.or_assoc]
    exact (hexpr condition).bind fun _ => failsFor_takeLabel.bind_right fun _ =>
      failsFor_takeLabel.bind_right fun _ => ihp.bind fun _ =>
        ihn.bind_left fun _ => failsFor_pure _
  | loop condition body ih =>
    rw [lowerStmt, Stmt.called, Stmt.exprs, List.flatMap_cons, Environment.firstRefusal?_append]
    exact failsFor_takeLabel.bind_right fun _ => failsFor_takeLabel.bind_right fun _ =>
      (hexpr condition).bind fun _ => ih.bind_left fun _ => failsFor_pure _
  | block body ih =>
    rw [lowerStmt, Stmt.called, Stmt.exprs]
    induction body with
    | nil => exact failsFor_pure _
    | cons stmt rest ihrest =>
      obtain ⟨hstmt, hrest⟩ := List.forall_mem_cons.mp ih
      rw [lowerStmts, Stmt.exprsAll, List.flatMap_append, Environment.firstRefusal?_append]
      exact hstmt.bind fun _ => (ihrest hrest).bind_left fun _ => failsFor_pure _
  | empty => exact failsFor_pure _

/-- Lowering a body fails for the first refusal in it. -/
theorem failsFor_lowerImplementation (scope : Scope) (implementation : Implementation) :
    (lowerImplementation scope implementation).FailsFor (implementation.refusal? scope) :=
  (failsFor_lowerStmt _ implementation.body).bind_left fun _ => failsFor_pure _

/-- Lowering bodies fails for the first refusal in one of them. -/
theorem failsFor_lowerImplementations (scope : Scope) (implementations : List Implementation) :
    (lowerImplementations scope implementations).FailsFor
      (implementations.findSome? (Implementation.refusal? scope)) := by
  induction implementations with
  | nil => exact failsFor_pure _
  | cons implementation rest ih =>
    have hcauses : (implementation :: rest).findSome? (Implementation.refusal? scope) =
        (implementation.refusal? scope).or (rest.findSome? (Implementation.refusal? scope)) := by
      rw [List.findSome?_cons]
      cases implementation.refusal? scope <;> rfl
    rw [hcauses]
    exact (failsFor_lowerImplementation scope implementation).bind fun _ =>
      ih.bind_left fun _ => failsFor_pure _

end Lowering

/-- A program can not be lowered exactly if the body of some function can not, and the first such
body tells why. -/
theorem Program.lower_eq_error_iff {program : Program} {error : LoweringError} :
    program.lower = .error error ↔
      program.implementations.findSome? (Implementation.refusal? program.scope) = some error := by
  rw [← failsFor_lowerImplementations program.scope program.implementations .full error]
  unfold Program.lower Program.scope
  cases (lowerImplementations ⟨program.decls⟩ program.implementations).runOn .full with
  | mk result after => cases result <;> simp

/-- If a program can not be lowered, some name can not be called that is looked up in a body. -/
theorem Program.exists_refused {program : Program} {error : LoweringError}
    (h : program.lower = .error error) :
    ∃ implementation ∈ program.implementations,
      let env := Environment.inside program.scope implementation.name
      ∃ name ∈ implementation.body.called env, env.refusal? name = some error := by
  obtain ⟨implementation, hmem, hrefusal⟩ :=
    List.exists_of_findSome?_eq_some (Program.lower_eq_error_iff.mp h)
  obtain ⟨name, hname, hrefused⟩ := List.exists_of_findSome?_eq_some hrefusal
  exact ⟨implementation, hmem, name, hname, hrefused⟩

end ThreeAddress
