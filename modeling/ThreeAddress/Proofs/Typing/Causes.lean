import ThreeAddress.Proofs.Lowering.Failures
import ThreeAddress.Proofs.Typing.Nodes

/-!
# Causes of failure among the diagnostics

The checker reports every call of a name that can not be called, in every body, so it also reports
the call at which lowering fails. The two agree on the cause, except for a name that a parameter
hides and that has no global declaration: the checker finds the parameter, which is no function,
but lowering looks among the global declarations first, and finds nothing there.
-/

namespace ThreeAddress

/-- The diagnostic with the same cause as a failure. -/
def LoweringError.diagnostic : LoweringError → Diagnostic
  | .undeclaredFunction name => .undeclaredFunction name
  | .notAFunction name => .nonCallableCalled name

/-- Whether a diagnostic says that a name can not be called. -/
def Diagnostic.isRefusal : Diagnostic → Bool
  | .undeclaredFunction _ | .nonCallableCalled _ => true
  | _ => false

namespace Scope

/-- What is wrong with calling a name, unless it means a function. -/
def calleeDiagnostic? (scope : Scope) (name : String) : Option Diagnostic :=
  match scope.find? name with
  | some (.function ..) => none
  | some _ => some (.nonCallableCalled name)
  | none => some (.undeclaredFunction name)

/-- The diagnostics of some calls that say that their names can not be called. -/
def calleeDiagnostics (scope : Scope) (calls : List (String × List Expr)) : List Diagnostic :=
  calls.filterMap fun call => scope.calleeDiagnostic? call.1

/-- A name can not be called for want of a declaration exactly if it has none. -/
theorem calleeDiagnostic?_eq_undeclared_iff {scope : Scope} {called name : String} :
    scope.calleeDiagnostic? called = some (.undeclaredFunction name) ↔
      called = name ∧ scope.find? called = none := by
  unfold calleeDiagnostic?
  split <;> simp_all

/-- Only a name with a declaration is something else than a function. -/
theorem calleeDiagnostic?_eq_nonCallable {scope : Scope} {called name : String}
    (h : scope.calleeDiagnostic? called = some (.nonCallableCalled name)) :
    called = name ∧ scope.find? called ≠ none := by
  unfold calleeDiagnostic? at h
  split at h <;> simp_all

/-- What is reported of a name that means a variable. -/
theorem calleeDiagnostic?_of_scalar {scope : Scope} {name : String} {type : ScalarType}
    {initial : Literal} (h : scope.find? name = some (.scalar type name initial)) :
    scope.calleeDiagnostic? name = some (.nonCallableCalled name) := by
  rw [calleeDiagnostic?, h]

section Rules

variable (scope : Scope)

/-- What is reported of a type that is not taken says nothing about calls. -/
theorem filter_refusedType {report : ValueType → Diagnostic}
    (h : ∀ actual, (report actual).isRefusal = false) (expected : ValueType) (expr : Expr) :
    ((scope.refusedType? expected expr).map report).toList.filter Diagnostic.isRefusal = [] := by
  cases scope.refusedType? expected expr with
  | none => rfl
  | some actual => simp [h actual]

/-- The rule of an index says nothing about calls. -/
theorem filter_indexRule (array : String) (index : Expr) :
    (scope.indexRule array index).filter Diagnostic.isRefusal = [] :=
  scope.filter_refusedType (fun _ => rfl) _ index

/-- The rule of a condition says nothing about calls. -/
theorem filter_conditionRule (construct : Conditional) (condition : Expr) :
    (scope.conditionRule construct condition).filter Diagnostic.isRefusal = [] := by
  unfold conditionRule
  split <;> rfl

/-- The rules of arguments say nothing about calls. -/
theorem filter_argumentRule (function : String) (args : List Expr) (params : List Param) :
    (scope.argumentRule function args params).filter Diagnostic.isRefusal = [] := by
  induction args generalizing params with
  | nil => rfl
  | cons arg args ih =>
    cases params with
    | nil => rfl
    | cons param params =>
      rw [argumentRule, List.filter_append, ih, List.append_nil]
      exact scope.filter_refusedType (fun _ => rfl) _ arg

/-- The rule of a call reports that its name can not be called, and nothing else about that. -/
theorem filter_callRule (function : String) (args : List Expr) :
    (scope.callRule function args).filter Diagnostic.isRefusal =
      scope.calleeDiagnostics [(function, args)] := by
  unfold callRule calleeDiagnostics calleeDiagnostic?
  cases hfind : scope.find? function with
  | none => simp [hfind, Diagnostic.isRefusal]
  | some decl =>
    cases decl with
    | scalar | array => simp [hfind, Diagnostic.isRefusal]
    | function type name params =>
      rw [List.filter_append, scope.filter_argumentRule, argumentCountRule]
      split <;> simp [hfind, Diagnostic.isRefusal]

/-- The refusals among the diagnostics of an expression are those of its calls. -/
theorem filter_checkExpr (expr : Expr) :
    (scope.checkExpr expr).filter Diagnostic.isRefusal = scope.calleeDiagnostics expr.calls := by
  induction expr with
  | literal | input => rfl
  | scalar name =>
    rw [checkExpr, exprRule, scalarRule]
    split <;> rfl
  | element array index ih =>
    rw [checkExpr, exprRule, elementRule, List.filter_append, List.filter_append, ih,
      scope.filter_indexRule]
    split <;> simp [Expr.calls, Diagnostic.isRefusal]
  | call function args ih =>
    rw [checkExpr, exprRule, List.filter_append, scope.filter_callRule, Expr.calls,
      calleeDiagnostics, calleeDiagnostics, List.filterMap_append, checkArgs_eq_flatMap,
      Expr.callsAll_eq_flatMap, List.filter_flatMap, List.filterMap_flatMap]
    exact congrArg (· ++ _) (List.flatMap_congr ih)
  | binary op lhs rhs ihl ihr =>
    rw [checkExpr, exprRule, binaryRule, List.filter_append, List.filter_append, ihl, ihr,
      Expr.calls, calleeDiagnostics, calleeDiagnostics, calleeDiagnostics, List.filterMap_append]
    split
    · split <;> simp [Diagnostic.isRefusal]
    · simp

/-- The rules of a target say nothing about calls. -/
theorem filter_assignRule (target : String) (value : Expr) :
    (scope.assignRule target value).filter Diagnostic.isRefusal = [] := by
  unfold assignRule
  split
  · exact scope.filter_refusedType (fun _ => rfl) _ value
  · rfl
  · rfl

/-- The rules of an element that is assigned to say nothing about calls. -/
theorem filter_assignElementRule (array : String) (value : Expr) :
    (scope.assignElementRule array value).filter Diagnostic.isRefusal = [] := by
  unfold assignElementRule
  split
  · exact scope.filter_refusedType (fun _ => rfl) _ value
  · rfl
  · rfl

/-- The refusals that a statement adds to those inside it are those of its own calls. -/
theorem filter_checkHead (stmt : Stmt) :
    (scope.checkHead stmt).filter Diagnostic.isRefusal =
      stmt.ownExprs.flatMap fun expr => scope.calleeDiagnostics expr.calls := by
  cases stmt with
  | empty | block => rfl
  | _ =>
    simp only [checkHead, checkStmt, List.filter_append, scope.filter_checkExpr,
      scope.filter_conditionRule, scope.filter_indexRule, scope.filter_assignRule,
      scope.filter_assignElementRule, Stmt.ownExprs, Stmt.exprs, List.flatMap_cons,
      List.flatMap_nil, List.append_nil]

/-- The refusals among the diagnostics of a statement are those of its calls. -/
theorem filter_checkStmt (stmt : Stmt) :
    (scope.checkStmt stmt).filter Diagnostic.isRefusal = scope.calleeDiagnostics stmt.calls := by
  rw [checkStmt_eq_flatMap, List.filter_flatMap, List.flatMap_congr fun part _ =>
    scope.filter_checkHead part, ← List.flatMap_assoc, ← Stmt.exprs_eq_flatMap, Stmt.calls,
    calleeDiagnostics, Expr.callsAll_eq_flatMap, List.filterMap_flatMap]
  rfl

/-- The values that a function returns are not looked at for calls again. -/
theorem filter_checkReturned (function : String) (type : ScalarType) (body : Stmt) :
    (scope.checkReturned function type body).filter Diagnostic.isRefusal = [] := by
  rw [checkReturned, List.filter_flatMap, List.flatMap_eq_nil_iff]
  exact fun value _ => scope.filter_refusedType (fun _ => rfl) _ value

/-- The refusals among the diagnostics of a function are those of the calls in its body. -/
theorem filter_checkImplementation (implementation : Implementation) :
    (scope.checkImplementation implementation).filter Diagnostic.isRefusal =
      (scope.within implementation.name).calleeDiagnostics implementation.body.calls := by
  rw [checkImplementation, within, function?]
  cases scope.find? implementation.name with
  | none => exact scope.filter_checkStmt implementation.body
  | some decl =>
    cases decl with
    | scalar | array => exact scope.filter_checkStmt implementation.body
    | function type name params =>
      rw [List.filter_append, List.filter_append, filter_checkStmt, filter_checkReturned]
      split <;> simp [Diagnostic.isRefusal, Decl.signature?]

end Rules

end Scope

/-- The refusals among the diagnostics of a program are those of the calls in its bodies. -/
theorem Program.filter_check (program : Program) :
    program.check.filter Diagnostic.isRefusal =
      program.implementations.flatMap fun implementation =>
        (program.scope.within implementation.name).calleeDiagnostics implementation.body.calls := by
  have hdecls : (checkDeclarations program.decls).filter Diagnostic.isRefusal = [] := by
    simp [checkDeclarations, Diagnostic.isRefusal, List.filter_map]
  have himpls : (checkImplementations program.implementations).filter Diagnostic.isRefusal = [] := by
    simp [checkImplementations, Diagnostic.isRefusal, List.filter_map]
  have hmissing : program.checkMissing.filter Diagnostic.isRefusal = [] := by
    simp [checkMissing, Diagnostic.isRefusal, List.filter_map]
  rw [check, List.filter_append, List.filter_append, List.filter_append, hdecls, himpls, hmissing,
    List.filter_flatMap]
  exact List.flatMap_congr fun implementation _ =>
    program.scope.filter_checkImplementation implementation

/-- A call of a name stands in some body; whether a parameter hides the name there is given. -/
def Program.CallsHidden (program : Program) (name : String) (hidden : Bool) : Prop :=
  ∃ implementation ∈ program.implementations,
    (Environment.inside program.scope implementation.name).hides name = hidden ∧
      ∃ args, (name, args) ∈ implementation.body.calls

section Refusals

variable {program : Program} {scope : Scope} {caller called name : String}

/-- A refusal is among the diagnostics of a program exactly if a call in some body gives rise to
it. -/
theorem Program.mem_check_iff_of_isRefusal {diagnostic : Diagnostic}
    (h : diagnostic.isRefusal = true) :
    diagnostic ∈ program.check ↔
      ∃ implementation ∈ program.implementations, ∃ called args,
        (called, args) ∈ implementation.body.calls ∧
          (program.scope.within implementation.name).calleeDiagnostic? called =
            some diagnostic := by
  have hfilter : diagnostic ∈ program.check ↔
      diagnostic ∈ program.check.filter Diagnostic.isRefusal := by
    simp [List.mem_filter, h]
  rw [hfilter, Program.filter_check]
  simp only [Scope.calleeDiagnostics, List.mem_flatMap, List.mem_filterMap, Prod.exists]

/-- What is reported of a name that a parameter hides. -/
theorem calleeDiagnostic?_of_hides (h : (Environment.inside scope caller).hides called = true) :
    (scope.within caller).calleeDiagnostic? called = some (.nonCallableCalled called) := by
  obtain ⟨type, initial, hfind⟩ := Scope.exists_find?_within_of_hides h
  exact Scope.calleeDiagnostic?_of_scalar hfind

/-- What is reported of a name that no parameter hides is why it can not be called. -/
theorem calleeDiagnostic?_of_not_hides
    (h : (Environment.inside scope caller).hides called = false) :
    (scope.within caller).calleeDiagnostic? called =
      ((Environment.inside scope caller).refusal? called).map LoweringError.diagnostic := by
  have hscope : (Environment.inside scope caller).scope = scope := rfl
  rw [Scope.calleeDiagnostic?, Scope.find?_within_of_not_hides h, Environment.refusal?_eq, h, hscope]
  cases scope.find? called with
  | none => rfl
  | some decl => cases decl <;> rfl

/-- A name is refused as undeclared exactly if no global declaration has it. -/
theorem refusal?_eq_undeclared_iff {env : Environment} :
    env.refusal? called = some (.undeclaredFunction name) ↔
      called = name ∧ env.scope.find? called = none := by
  rw [Environment.refusal?_eq]
  split
  · simp_all
  · split <;> simp_all
  · simp_all

/-- A name is refused as something else than a function only where it means something else. -/
theorem calleeDiagnostic?_of_notAFunction
    (h : (Environment.inside scope caller).refusal? called = some (.notAFunction name)) :
    (scope.within caller).calleeDiagnostic? called = some (.nonCallableCalled name) := by
  cases hhides : (Environment.inside scope caller).hides called with
  | true =>
    rw [calleeDiagnostic?_of_hides hhides]
    rw [Environment.refusal?_eq] at h
    split at h <;> simp_all
  | false => rw [calleeDiagnostic?_of_not_hides hhides, h]; rfl

/-- In a failing program a refused name is called where it is looked up. -/
theorem Program.exists_called_of_lower {error : LoweringError} (h : program.lower = .error error) :
    ∃ implementation ∈ program.implementations, ∃ called args,
      (called, args) ∈ implementation.body.calls ∧
        (Environment.inside program.scope implementation.name).refusal? called = some error := by
  obtain ⟨implementation, hmem, called, hcalled, hrefusal⟩ := Program.exists_refused h
  obtain ⟨args, hcalls⟩ := Stmt.exists_call_of_mem_called hcalled
  exact ⟨implementation, hmem, called, args, hcalls, hrefusal⟩

/-- A name without a global declaration is reported as undeclared exactly if some body calls it in
which no parameter hides it. -/
theorem Program.undeclared_mem_check_iff (hfind : program.scope.find? name = none) :
    .undeclaredFunction name ∈ program.check ↔ program.CallsHidden name false := by
  rw [Program.mem_check_iff_of_isRefusal rfl]
  constructor
  · rintro ⟨implementation, hmem, called, args, hcalls, hreport⟩
    obtain ⟨rfl, hnone⟩ := Scope.calleeDiagnostic?_eq_undeclared_iff.mp hreport
    refine ⟨implementation, hmem, ?_, args, hcalls⟩
    rw [← Bool.not_eq_true]
    intro hhides
    rw [calleeDiagnostic?_of_hides hhides] at hreport
    simp at hreport
  · rintro ⟨implementation, hmem, hhides, args, hcalls⟩
    refine ⟨implementation, hmem, name, args, hcalls, ?_⟩
    rw [calleeDiagnostic?_of_not_hides hhides, refusal?_eq_undeclared_iff.mpr ⟨rfl, hfind⟩]
    rfl

/-- A name without a global declaration is reported as something else than a function exactly if
some body calls it in which a parameter hides it. -/
theorem Program.nonCallable_mem_check_iff (hfind : program.scope.find? name = none) :
    .nonCallableCalled name ∈ program.check ↔ program.CallsHidden name true := by
  rw [Program.mem_check_iff_of_isRefusal rfl]
  constructor
  · rintro ⟨implementation, hmem, called, args, hcalls, hreport⟩
    obtain ⟨rfl, hdeclared⟩ := Scope.calleeDiagnostic?_eq_nonCallable hreport
    refine ⟨implementation, hmem, ?_, args, hcalls⟩
    rw [← Bool.not_eq_false]
    intro hhides
    exact hdeclared ((Scope.find?_within_of_not_hides hhides).trans hfind)
  · rintro ⟨implementation, hmem, hhides, args, hcalls⟩
    exact ⟨implementation, hmem, name, args, hcalls, calleeDiagnostic?_of_hides hhides⟩

end Refusals

/-- If lowering fails because a name means something else than a function, the checker reports the
same of that name. If it fails for want of a declaration, the checker reports the same exactly if
some body calls the name in which no parameter hides it; in a body in which a parameter does, the
checker reports the parameter as something else than a function. One of the two is the case. -/
theorem lower_error_reported {program : Program} {error : LoweringError}
    (h : program.lower = .error error) :
    (∀ name, error = .notAFunction name → error.diagnostic ∈ program.check) ∧
      ∀ name, error = .undeclaredFunction name →
        (error.diagnostic ∈ program.check ↔ program.CallsHidden name false) ∧
          (.nonCallableCalled name ∈ program.check ↔ program.CallsHidden name true) ∧
          (program.CallsHidden name false ∨ program.CallsHidden name true) := by
  obtain ⟨implementation, hmem, called, args, hcalls, hrefusal⟩ :=
    Program.exists_called_of_lower h
  refine ⟨?_, ?_⟩
  · rintro name rfl
    exact (Program.mem_check_iff_of_isRefusal rfl).mpr
      ⟨implementation, hmem, called, args, hcalls, calleeDiagnostic?_of_notAFunction hrefusal⟩
  · rintro name rfl
    obtain ⟨rfl, hfind⟩ := refusal?_eq_undeclared_iff.mp hrefusal
    refine ⟨Program.undeclared_mem_check_iff hfind, Program.nonCallable_mem_check_iff hfind, ?_⟩
    cases hhides : (Environment.inside program.scope implementation.name).hides called with
    | true => exact .inr ⟨implementation, hmem, hhides, args, hcalls⟩
    | false => exact .inl ⟨implementation, hmem, hhides, args, hcalls⟩

/-- A program in which a function calls its own parameter. -/
def callback : Program where
  decls := [.function .int "h" [⟨.int, "f"⟩]]
  implementations := [⟨"h", .ret (.call "f" [])⟩]

/-- The program that calls a parameter fails for want of a declaration, but only the parameter is
reported. -/
theorem callback_reported :
    callback.lower = .error (.undeclaredFunction "f") ∧
      .nonCallableCalled "f" ∈ callback.check ∧ .undeclaredFunction "f" ∉ callback.check := by
  have hlower : callback.lower = .error (.undeclaredFunction "f") := by rfl
  obtain ⟨hundeclared, hcallable, -⟩ := (lower_error_reported hlower).2 "f" rfl
  have hhides : (Environment.inside callback.scope "h").hides "f" = true := by decide
  have hcalled : callback.CallsHidden "f" true :=
    ⟨_, List.mem_singleton_self _, hhides, [], List.mem_singleton_self _⟩
  refine ⟨hlower, hcallable.mpr hcalled, fun hmem => ?_⟩
  obtain ⟨implementation, himplementation, hfree, -⟩ := hundeclared.mp hmem
  rw [List.mem_singleton.mp himplementation] at hfree
  exact absurd hhides (by rw [hfree]; decide)

/-- A failure is not always reported with its cause: a called parameter is not. -/
theorem callback_cause_not_reported :
    ¬ ∀ (program : Program) (error : LoweringError), program.lower = .error error →
      error.diagnostic ∈ program.check := by
  intro h
  exact absurd (h callback (.undeclaredFunction "f") rfl) (by decide)

end ThreeAddress
