import ThreeAddress.Proofs.Typing.Nodes

/-!
# What each visit reports

The checker visits the tree of a body. It visits what a node is made of and goes by the rule of the
node in between: behind the expressions of the node, and before its branches. Each step reports
without regard to the others, so what a visit reports stands in one piece in what every visit around
it reports, and different visits report one after the other, in the order of the steps.

A place in the tree is the list of the numbers of the steps that lead to it. A place is inside
another if that one is a prefix of it; places of which none is inside the other are ordered like
words in a dictionary.
-/

namespace ThreeAddress

/-- What one element yields stands behind what those in front of it yield. -/
theorem prefix_flatMap_of_getElem? {list : List α} {index : Nat} {element : α}
    (h : list[index]? = some element) (yields : α → List β) :
    (list.take index).flatMap yields ++ yields element <+: list.flatMap yields := by
  have htake : list.take (index + 1) = list.take index ++ [element] := by
    rw [List.take_add_one, h]
    rfl
  rw [← List.flatMap_singleton yields element, ← List.flatMap_append, ← htake]
  refine ⟨(list.drop (index + 1)).flatMap yields, ?_⟩
  rw [← List.flatMap_append, List.take_append_drop]

/-- The expressions that an expression is made of, in the order in which they are visited. -/
def Expr.children : Expr → List Expr
  | .element _ index => [index]
  | .call _ args => args
  | .binary _ lhs rhs => [lhs, rhs]
  | .literal _ | .scalar _ | .input _ => []

/-- The statements that a statement is made of, in the order in which they are visited. -/
def Stmt.children : Stmt → List Stmt
  | .ifThen _ positive => [positive]
  | .ifElse _ positive negative => [positive, negative]
  | .loop _ body => [body]
  | .block body => body
  | .assign .. | .assignElement .. | .print _ | .ret _ | .empty => []

/-- What the checker does: it visits a node, or it goes by the rule of one. -/
inductive Visit where
  | expr (expr : Expr)
  | stmt (stmt : Stmt)
  | exprRule (expr : Expr)
  | stmtRule (stmt : Stmt)

/-- The steps of a visit, in order. -/
def Visit.steps : Visit → List Visit
  | .expr node => node.children.map .expr ++ [.exprRule node]
  | .stmt node => node.ownExprs.map .expr ++ [.stmtRule node] ++ node.children.map .stmt
  | .exprRule _ | .stmtRule _ => []

/-- What is done at a place. -/
def Visit.at? : Visit → List Nat → Option Visit
  | visit, [] => some visit
  | visit, index :: path => visit.steps[index]?.bind fun step => step.at? path

namespace Scope

/-- The rule of a statement's own node. -/
def stmtRule (scope : Scope) : Stmt → List Diagnostic
  | .assign target value => scope.assignRule target value
  | .assignElement array index value =>
    scope.indexRule array index ++ scope.assignElementRule array value
  | .ifThen condition _ | .ifElse condition _ _ => scope.conditionRule .if condition
  | .loop condition _ => scope.conditionRule .while condition
  | .print _ | .ret _ | .block _ | .empty => []

/-- The diagnostics of a visit. -/
def report (scope : Scope) : Visit → List Diagnostic
  | .expr expr => scope.checkExpr expr
  | .stmt stmt => scope.checkStmt stmt
  | .exprRule expr => scope.exprRule expr
  | .stmtRule stmt => scope.stmtRule stmt

/-- What is reported during a visit before it comes to a place. -/
def reportedBefore (scope : Scope) : Visit → List Nat → List Diagnostic
  | _, [] => []
  | visit, index :: path => (visit.steps.take index).flatMap scope.report ++
      match visit.steps[index]? with
      | some step => scope.reportedBefore step path
      | none => []

/-- An expression has a type that storage of the expected type does not take. -/
def Misfits (scope : Scope) (expected : ValueType) (expr : Expr) (actual : ValueType) : Prop :=
  scope.typeOf? expr = some actual ∧ expected.accepts actual = false

/-- How nodes break their own rules. -/
inductive Violates (scope : Scope) : Visit → Diagnostic → Prop
  | unresolved {name : String} (hnone : scope.find? name = none) :
      Violates scope (.exprRule (.scalar name)) (.unresolvedIdentifier name)
  | nonScalar {name : String} (hfind : scope.find? name ≠ none)
      (hscalar : scope.scalarType? name = none) :
      Violates scope (.exprRule (.scalar name)) (.nonScalarInExpression name)
  | index {array : String} {index : Expr} {actual : ValueType}
      (hindex : scope.Misfits .int index actual) :
      Violates scope (.exprRule (.element array index)) (.nonIntegerIndex array actual)
  | unresolvedElement {array : String} {index : Expr} (hnone : scope.find? array = none) :
      Violates scope (.exprRule (.element array index)) (.unresolvedIdentifier array)
  | nonArray {array : String} {index : Expr} (hfind : scope.find? array ≠ none)
      (harray : scope.elementType? array = none) :
      Violates scope (.exprRule (.element array index)) (.nonArrayIndexed array)
  | undeclared {function : String} {args : List Expr} (hnone : scope.find? function = none) :
      Violates scope (.exprRule (.call function args)) (.undeclaredFunction function)
  | nonCallable {function : String} {args : List Expr} (hfind : scope.find? function ≠ none)
      (hfunction : scope.function? function = none) :
      Violates scope (.exprRule (.call function args)) (.nonCallableCalled function)
  | argument {function : String} {args : List Expr} {signature : Signature} {number : Nat}
      {arg : Expr} {param : Param} {actual : ValueType}
      (hfunction : scope.function? function = some signature) (harg : args[number]? = some arg)
      (hparam : signature.params[number]? = some param)
      (htype : scope.Misfits param.type.value arg actual) :
      Violates scope (.exprRule (.call function args))
        (.argumentTypeMismatch function param.name param.type.value actual)
  | argumentCount {function : String} {args : List Expr} {signature : Signature}
      (hfunction : scope.function? function = some signature)
      (hlength : args.length ≠ signature.params.length) :
      Violates scope (.exprRule (.call function args))
        (.argumentCountMismatch function signature.params.length args.length)
  | operands {op : BinaryOp} {lhs rhs : Expr} {left right : ValueType}
      (hleft : scope.typeOf? lhs = some left) (hright : scope.typeOf? rhs = some right)
      (hresult : op.resultType? left right = none) :
      Violates scope (.exprRule (.binary op lhs rhs)) (.incompatibleOperands op left right)
  | unresolvedTarget {target : String} {value : Expr} (hnone : scope.find? target = none) :
      Violates scope (.stmtRule (.assign target value)) (.unresolvedIdentifier target)
  | nonVariable {target : String} {value : Expr} (hfind : scope.find? target ≠ none)
      (hscalar : scope.scalarType? target = none) :
      Violates scope (.stmtRule (.assign target value)) (.assignmentToNonVariable target)
  | value {target : String} {value : Expr} {expected actual : ValueType}
      (hscalar : scope.scalarType? target = some expected)
      (htype : scope.Misfits expected value actual) :
      Violates scope (.stmtRule (.assign target value))
        (.assignmentTypeMismatch target expected actual)
  | targetIndex {array : String} {index value : Expr} {actual : ValueType}
      (hindex : scope.Misfits .int index actual) :
      Violates scope (.stmtRule (.assignElement array index value)) (.nonIntegerIndex array actual)
  | unresolvedArray {array : String} {index value : Expr} (hnone : scope.find? array = none) :
      Violates scope (.stmtRule (.assignElement array index value)) (.unresolvedIdentifier array)
  | nonArrayTarget {array : String} {index value : Expr} (hfind : scope.find? array ≠ none)
      (harray : scope.elementType? array = none) :
      Violates scope (.stmtRule (.assignElement array index value))
        (.indexedAssignmentToNonArray array)
  | elementValue {array : String} {index value : Expr} {expected actual : ValueType}
      (harray : scope.elementType? array = some expected)
      (htype : scope.Misfits expected value actual) :
      Violates scope (.stmtRule (.assignElement array index value))
        (.arrayElementTypeMismatch array expected actual)
  | ifThen {condition : Expr} {positive : Stmt} {actual : ValueType}
      (htype : scope.typeOf? condition = some actual) (hbool : actual ≠ .bool) :
      Violates scope (.stmtRule (.ifThen condition positive))
        (.nonBooleanCondition .if condition.text actual)
  | ifElse {condition : Expr} {positive negative : Stmt} {actual : ValueType}
      (htype : scope.typeOf? condition = some actual) (hbool : actual ≠ .bool) :
      Violates scope (.stmtRule (.ifElse condition positive negative))
        (.nonBooleanCondition .if condition.text actual)
  | loop {condition : Expr} {body : Stmt} {actual : ValueType}
      (htype : scope.typeOf? condition = some actual) (hbool : actual ≠ .bool) :
      Violates scope (.stmtRule (.loop condition body))
        (.nonBooleanCondition .while condition.text actual)

section Rules

variable {scope : Scope} {diagnostic : Diagnostic}

/-- A type is refused if it does not fit. -/
theorem refusedType?_eq_some_iff {expected actual : ValueType} {expr : Expr} :
    scope.refusedType? expected expr = some actual ↔ scope.Misfits expected expr actual := by
  simp [refusedType?, Misfits, Option.filter_eq_some_iff]

/-- What is reported of an expression that does not fit. -/
theorem mem_toList_refusedType?_iff {expected : ValueType} {expr : Expr}
    {blame : ValueType → Diagnostic} :
    diagnostic ∈ ((scope.refusedType? expected expr).map blame).toList ↔
      ∃ actual, scope.Misfits expected expr actual ∧ diagnostic = blame actual := by
  rw [Option.mem_toList, Option.map_eq_some_iff]
  simp only [refusedType?_eq_some_iff, eq_comm (a := diagnostic)]

/-- What the rule on conditions reports. -/
theorem mem_conditionRule_iff {construct : Conditional} {condition : Expr} :
    diagnostic ∈ scope.conditionRule construct condition ↔
      ∃ actual, scope.typeOf? condition = some actual ∧ actual ≠ .bool ∧
        diagnostic = .nonBooleanCondition construct condition.text actual := by
  rw [conditionRule]
  cases htype : scope.typeOf? condition with
  | none => simp
  | some type => cases type <;> simp

/-- What the rule on arguments reports. -/
theorem mem_argumentRule_iff {function : String} {args : List Expr} {params : List Param} :
    diagnostic ∈ scope.argumentRule function args params ↔
      ∃ (number : Nat) (arg : Expr) (param : Param) (actual : ValueType),
        args[number]? = some arg ∧ params[number]? = some param ∧
        scope.Misfits param.type.value arg actual ∧
        diagnostic = .argumentTypeMismatch function param.name param.type.value actual := by
  induction args generalizing params with
  | nil => simp [argumentRule]
  | cons arg args ih =>
    cases params with
    | nil => simp [argumentRule]
    | cons param params =>
      rw [argumentRule, List.mem_append, mem_toList_refusedType?_iff, ih]
      constructor
      · rintro (⟨actual, htype, rfl⟩ | ⟨number, arg', param', actual, harg, hparam, htype, rfl⟩)
        · exact ⟨0, arg, param, actual, rfl, rfl, htype, rfl⟩
        · exact ⟨number + 1, arg', param', actual, harg, hparam, htype, rfl⟩
      · rintro ⟨number, arg', param', actual, harg, hparam, htype, rfl⟩
        cases number with
        | zero =>
          obtain rfl := Option.some.inj harg
          obtain rfl := Option.some.inj hparam
          exact .inl ⟨actual, htype, rfl⟩
        | succ number => exact .inr ⟨number, arg', param', actual, harg, hparam, htype, rfl⟩

/-- What the rule on names reports. -/
theorem mem_scalarRule_iff {name : String} :
    diagnostic ∈ scope.scalarRule name ↔
      scope.find? name = none ∧ diagnostic = .unresolvedIdentifier name ∨
      scope.find? name ≠ none ∧ scope.scalarType? name = none ∧
        diagnostic = .nonScalarInExpression name := by
  rw [scalarRule, scalarType?]
  cases scope.find? name with
  | none => simp
  | some decl => cases decl <;> simp

/-- What the rule on indexed names reports. -/
theorem mem_elementRule_iff {array : String} :
    diagnostic ∈ scope.elementRule array ↔
      scope.find? array = none ∧ diagnostic = .unresolvedIdentifier array ∨
      scope.find? array ≠ none ∧ scope.elementType? array = none ∧
        diagnostic = .nonArrayIndexed array := by
  rw [elementRule, elementType?]
  cases scope.find? array with
  | none => simp
  | some decl => cases decl <;> simp

/-- What the rule on the number of arguments reports. -/
theorem mem_argumentCountRule_iff {function : String} {expected actual : Nat} :
    diagnostic ∈ argumentCountRule function expected actual ↔
      actual ≠ expected ∧ diagnostic = .argumentCountMismatch function expected actual := by
  rw [argumentCountRule]
  split <;> simp_all

/-- What the rule on calls reports. -/
theorem mem_callRule_iff {function : String} {args : List Expr} :
    diagnostic ∈ scope.callRule function args ↔
      scope.find? function = none ∧ diagnostic = .undeclaredFunction function ∨
      scope.find? function ≠ none ∧ scope.function? function = none ∧
        diagnostic = .nonCallableCalled function ∨
      ∃ signature, scope.function? function = some signature ∧
        (diagnostic ∈ scope.argumentRule function args signature.params ∨
          diagnostic ∈ argumentCountRule function signature.params.length args.length) := by
  rw [callRule, function?]
  cases scope.find? function with
  | none => simp
  | some decl => cases decl <;> simp [Decl.signature?]

/-- What the rule on operators reports. -/
theorem mem_binaryRule_iff {op : BinaryOp} {lhs rhs : Expr} :
    diagnostic ∈ scope.binaryRule op lhs rhs ↔
      ∃ left right, scope.typeOf? lhs = some left ∧ scope.typeOf? rhs = some right ∧
        op.resultType? left right = none ∧ diagnostic = .incompatibleOperands op left right := by
  rw [binaryRule]
  cases scope.typeOf? lhs with
  | none => simp
  | some left =>
    cases scope.typeOf? rhs with
    | none => simp
    | some right => cases op.resultType? left right <;> simp

/-- What the rule on assignments reports. -/
theorem mem_assignRule_iff {target : String} {value : Expr} :
    diagnostic ∈ scope.assignRule target value ↔
      scope.find? target = none ∧ diagnostic = .unresolvedIdentifier target ∨
      scope.find? target ≠ none ∧ scope.scalarType? target = none ∧
        diagnostic = .assignmentToNonVariable target ∨
      ∃ expected actual, scope.scalarType? target = some expected ∧
        scope.Misfits expected value actual ∧
        diagnostic = .assignmentTypeMismatch target expected actual := by
  rw [assignRule, scalarType?]
  cases scope.find? target with
  | none => simp
  | some decl => cases decl <;> simp only [mem_toList_refusedType?_iff] <;> simp

/-- What the rule on assignments to elements reports. -/
theorem mem_assignElementRule_iff {array : String} {value : Expr} :
    diagnostic ∈ scope.assignElementRule array value ↔
      scope.find? array = none ∧ diagnostic = .unresolvedIdentifier array ∨
      scope.find? array ≠ none ∧ scope.elementType? array = none ∧
        diagnostic = .indexedAssignmentToNonArray array ∨
      ∃ expected actual, scope.elementType? array = some expected ∧
        scope.Misfits expected value actual ∧
        diagnostic = .arrayElementTypeMismatch array expected actual := by
  rw [assignElementRule, elementType?]
  cases scope.find? array with
  | none => simp
  | some decl => cases decl <;> simp only [mem_toList_refusedType?_iff] <;> simp

/-- The rule of an expression reports what breaks it. -/
theorem mem_exprRule_iff {expr : Expr} :
    diagnostic ∈ scope.exprRule expr ↔ scope.Violates (.exprRule expr) diagnostic := by
  constructor
  · intro h
    cases expr with
    | literal | input => exact absurd h List.not_mem_nil
    | scalar name =>
      rcases mem_scalarRule_iff.mp h with ⟨hnone, rfl⟩ | ⟨hfind, hscalar, rfl⟩
      · exact .unresolved hnone
      · exact .nonScalar hfind hscalar
    | element array index =>
      rcases List.mem_append.mp h with h | h
      · obtain ⟨actual, hindex, rfl⟩ := mem_toList_refusedType?_iff.mp h
        exact .index hindex
      · rcases mem_elementRule_iff.mp h with ⟨hnone, rfl⟩ | ⟨hfind, harray, rfl⟩
        · exact .unresolvedElement hnone
        · exact .nonArray hfind harray
    | call function args =>
      rcases mem_callRule_iff.mp h with
        ⟨hnone, rfl⟩ | ⟨hfind, hfunction, rfl⟩ | ⟨signature, hfunction, h | h⟩
      · exact .undeclared hnone
      · exact .nonCallable hfind hfunction
      · obtain ⟨number, arg, param, actual, harg, hparam, htype, rfl⟩ := mem_argumentRule_iff.mp h
        exact .argument hfunction harg hparam htype
      · obtain ⟨hlength, rfl⟩ := mem_argumentCountRule_iff.mp h
        exact .argumentCount hfunction hlength
    | binary op lhs rhs =>
      obtain ⟨left, right, hleft, hright, hresult, rfl⟩ := mem_binaryRule_iff.mp h
      exact .operands hleft hright hresult
  · intro h
    cases h with
    | unresolved hnone => exact mem_scalarRule_iff.mpr (.inl ⟨hnone, rfl⟩)
    | nonScalar hfind hscalar => exact mem_scalarRule_iff.mpr (.inr ⟨hfind, hscalar, rfl⟩)
    | index hindex =>
      exact List.mem_append_left _ (mem_toList_refusedType?_iff.mpr ⟨_, hindex, rfl⟩)
    | unresolvedElement hnone =>
      exact List.mem_append_right _ (mem_elementRule_iff.mpr (.inl ⟨hnone, rfl⟩))
    | nonArray hfind harray =>
      exact List.mem_append_right _ (mem_elementRule_iff.mpr (.inr ⟨hfind, harray, rfl⟩))
    | undeclared hnone => exact mem_callRule_iff.mpr (.inl ⟨hnone, rfl⟩)
    | nonCallable hfind hfunction =>
      exact mem_callRule_iff.mpr (.inr (.inl ⟨hfind, hfunction, rfl⟩))
    | argument hfunction harg hparam htype =>
      refine mem_callRule_iff.mpr (.inr (.inr ⟨_, hfunction, .inl ?_⟩))
      exact mem_argumentRule_iff.mpr ⟨_, _, _, _, harg, hparam, htype, rfl⟩
    | argumentCount hfunction hlength =>
      refine mem_callRule_iff.mpr (.inr (.inr ⟨_, hfunction, .inr ?_⟩))
      exact mem_argumentCountRule_iff.mpr ⟨hlength, rfl⟩
    | operands hleft hright hresult =>
      exact mem_binaryRule_iff.mpr ⟨_, _, hleft, hright, hresult, rfl⟩

/-- The rule of a statement reports what breaks it. -/
theorem mem_stmtRule_iff {stmt : Stmt} :
    diagnostic ∈ scope.stmtRule stmt ↔ scope.Violates (.stmtRule stmt) diagnostic := by
  constructor
  · intro h
    cases stmt with
    | print | ret | block | empty => exact absurd h List.not_mem_nil
    | assign target value =>
      rcases mem_assignRule_iff.mp h with
        ⟨hnone, rfl⟩ | ⟨hfind, hscalar, rfl⟩ | ⟨expected, actual, hscalar, htype, rfl⟩
      · exact .unresolvedTarget hnone
      · exact .nonVariable hfind hscalar
      · exact .value hscalar htype
    | assignElement array index value =>
      rcases List.mem_append.mp h with h | h
      · obtain ⟨actual, hindex, rfl⟩ := mem_toList_refusedType?_iff.mp h
        exact .targetIndex hindex
      · rcases mem_assignElementRule_iff.mp h with
          ⟨hnone, rfl⟩ | ⟨hfind, harray, rfl⟩ | ⟨expected, actual, harray, htype, rfl⟩
        · exact .unresolvedArray hnone
        · exact .nonArrayTarget hfind harray
        · exact .elementValue harray htype
    | ifThen condition positive =>
      obtain ⟨actual, htype, hbool, rfl⟩ := mem_conditionRule_iff.mp h
      exact .ifThen htype hbool
    | ifElse condition positive negative =>
      obtain ⟨actual, htype, hbool, rfl⟩ := mem_conditionRule_iff.mp h
      exact .ifElse htype hbool
    | loop condition body =>
      obtain ⟨actual, htype, hbool, rfl⟩ := mem_conditionRule_iff.mp h
      exact .loop htype hbool
  · intro h
    cases h with
    | unresolvedTarget hnone => exact mem_assignRule_iff.mpr (.inl ⟨hnone, rfl⟩)
    | nonVariable hfind hscalar =>
      exact mem_assignRule_iff.mpr (.inr (.inl ⟨hfind, hscalar, rfl⟩))
    | value hscalar htype =>
      exact mem_assignRule_iff.mpr (.inr (.inr ⟨_, _, hscalar, htype, rfl⟩))
    | targetIndex hindex =>
      exact List.mem_append_left _ (mem_toList_refusedType?_iff.mpr ⟨_, hindex, rfl⟩)
    | unresolvedArray hnone =>
      exact List.mem_append_right _ (mem_assignElementRule_iff.mpr (.inl ⟨hnone, rfl⟩))
    | nonArrayTarget hfind harray =>
      exact List.mem_append_right _
        (mem_assignElementRule_iff.mpr (.inr (.inl ⟨hfind, harray, rfl⟩)))
    | elementValue harray htype =>
      exact List.mem_append_right _
        (mem_assignElementRule_iff.mpr (.inr (.inr ⟨_, _, harray, htype, rfl⟩)))
    | ifThen htype hbool | ifElse htype hbool | loop htype hbool =>
      exact mem_conditionRule_iff.mpr ⟨_, htype, hbool, rfl⟩

end Rules

section Places

variable {scope : Scope} {visit inner : Visit} {path first second : List Nat}

/-- A node is visited in steps: what is reported of it is what they report, one after the other. -/
theorem report_eq_flatMap (hnode : visit.steps ≠ []) :
    scope.report visit = visit.steps.flatMap scope.report := by
  cases visit with
  | exprRule | stmtRule => contradiction
  | expr node =>
    cases node with
    | call function args =>
      simp [Visit.steps, report, checkExpr, checkArgs_eq_flatMap, Expr.children, List.flatMap_map]
    | _ => simp [Visit.steps, report, checkExpr, Expr.children]
  | stmt node =>
    cases node with
    | block body =>
      simp [Visit.steps, report, checkStmt, checkStmts_eq_flatMap, Stmt.children, Stmt.ownExprs,
        stmtRule, List.flatMap_map]
    | _ => simp [Visit.steps, report, checkStmt, Stmt.children, Stmt.ownExprs, Stmt.exprs, stmtRule]

/-- Rules are not visited in steps: what they report is what breaks them. -/
theorem mem_report_iff (hrule : visit.steps = []) {diagnostic : Diagnostic} :
    diagnostic ∈ scope.report visit ↔ scope.Violates visit diagnostic := by
  cases visit with
  | expr | stmt => simp [Visit.steps] at hrule
  | exprRule => exact mem_exprRule_iff
  | stmtRule => exact mem_stmtRule_iff

/-- What is done at a place inside a step of a visit. -/
theorem exists_step_of_at? {index : Nat} (h : visit.at? (index :: path) = some inner) :
    ∃ step, visit.steps[index]? = some step ∧ step.at? path = some inner :=
  Option.bind_eq_some_iff.mp h

/-- What is reported before a place inside a step of a visit. -/
theorem reportedBefore_cons {index : Nat} {step : Visit} (h : visit.steps[index]? = some step) :
    scope.reportedBefore visit (index :: path) =
      (visit.steps.take index).flatMap scope.report ++ scope.reportedBefore step path := by
  rw [reportedBefore, h]

/-- What is reported at a place stands in one piece in what the whole visit reports. -/
theorem prefix_report_of_at? (h : visit.at? path = some inner) :
    scope.reportedBefore visit path ++ scope.report inner <+: scope.report visit := by
  induction path generalizing visit with
  | nil =>
    obtain rfl := Option.some.inj h
    exact List.prefix_rfl
  | cons index path ih =>
    obtain ⟨step, hstep, hinner⟩ := exists_step_of_at? h
    have hnode : visit.steps ≠ [] := List.ne_nil_of_mem (List.mem_of_getElem? hstep)
    rw [reportedBefore_cons hstep, List.append_assoc, report_eq_flatMap hnode]
    exact ((List.prefix_append_right_inj _).mpr (ih hinner)).trans
      (prefix_flatMap_of_getElem? hstep scope.report)

/-- What is reported at a place stands before all that is reported at later places outside. -/
theorem prefix_reportedBefore_of_lt (h : visit.at? first = some inner)
    (hlt : first < second) (houtside : ¬ first <+: second) :
    scope.reportedBefore visit first ++ scope.report inner <+:
      scope.reportedBefore visit second := by
  induction first generalizing visit second with
  | nil => exact absurd List.nil_prefix houtside
  | cons index path ih =>
    cases second with
    | nil => exact absurd hlt (List.not_lt_nil _)
    | cons other rest =>
      obtain ⟨step, hstep, hinner⟩ := exists_step_of_at? h
      rw [reportedBefore_cons hstep, List.append_assoc]
      rcases List.cons_lt_cons_iff.mp hlt with hindex | ⟨rfl, hrest⟩
      · -- the paths part here: the whole step is reported before the other one begins
        have htaken : (visit.steps.take other)[index]? = some step := by
          rw [List.getElem?_take_of_lt hindex, hstep]
        have hsteps := prefix_flatMap_of_getElem? htaken scope.report
        rw [List.take_take, Nat.min_eq_left hindex.le] at hsteps
        exact ((List.prefix_append_right_inj _).mpr (prefix_report_of_at? hinner)).trans
          (hsteps.trans (List.prefix_append _ _))
      · rw [reportedBefore_cons hstep]
        refine (List.prefix_append_right_inj _).mpr (ih hinner hrest fun hinside => ?_)
        exact houtside (List.cons_prefix_cons.mpr ⟨rfl, hinside⟩)

end Places

end Scope

/-- No diagnostic hides another. What a visit reports stands in one piece in what every visit around
it reports, and before all that is reported at later places outside of it. A node reports what its
steps report, one after the other and nothing else, and its rule what breaks it. -/
theorem diagnostics_apart (scope : Scope) (root : Visit) :
    (∀ path inner, root.at? path = some inner →
      scope.reportedBefore root path ++ scope.report inner <+: scope.report root) ∧
    (∀ first second inner, root.at? first = some inner → first < second → ¬ first <+: second →
      scope.reportedBefore root first ++ scope.report inner <+:
        scope.reportedBefore root second) ∧
    ∀ path inner, root.at? path = some inner →
      (inner.steps ≠ [] → scope.report inner = inner.steps.flatMap scope.report) ∧
      (inner.steps = [] → ∀ diagnostic,
        diagnostic ∈ scope.report inner ↔ scope.Violates inner diagnostic) :=
  ⟨fun _ _ => Scope.prefix_report_of_at?,
    fun _ _ _ => Scope.prefix_reportedBefore_of_lt,
    fun _ _ _ => ⟨Scope.report_eq_flatMap, fun hrule _ => Scope.mem_report_iff hrule⟩⟩

/-- A statement with nothing but names that mean nothing. -/
def stumbling : Stmt :=
  .ifElse (.scalar "a") (.assignElement "v" (.scalar "i") (.scalar "x")) (.print (.scalar "b"))

/-- Of the assignment, the value is reported first, then the index, and then the array; the
condition is reported before, and the other branch behind. -/
theorem stumbling_apart :
    (Scope.mk []).reportedBefore (.stmt stumbling) [2] = [.unresolvedIdentifier "a"] ∧
      (Scope.mk []).reportedBefore (.stmt stumbling) [2] ++
          (Scope.mk []).checkStmt (.assignElement "v" (.scalar "i") (.scalar "x")) <+:
        (Scope.mk []).checkStmt stumbling ∧
      (Scope.mk []).reportedBefore (.stmt stumbling) [2, 0] ++
          (Scope.mk []).checkExpr (.scalar "x") <+:
        (Scope.mk []).reportedBefore (.stmt stumbling) [2, 1] ∧
      (Scope.mk []).Violates (.stmtRule (.assignElement "v" (.scalar "i") (.scalar "x")))
        (.unresolvedIdentifier "v") := by
  obtain ⟨hinside, hbefore, hown⟩ := diagnostics_apart ⟨[]⟩ (.stmt stumbling)
  refine ⟨rfl, hinside [2] _ rfl, hbefore [2, 0] [2, 1] _ rfl (by decide) (by decide), ?_⟩
  exact ((hown [2, 2] _ rfl).2 rfl _).mp List.mem_cons_self

end ThreeAddress
