import ThreeAddress.Proofs.Typing.Rules
import Mathlib.Tactic.ByContra

/-!
# The checker accepts exactly the well-formed programs

The rules of single nodes keep silent about parts without a type, and the type of an expression
says nothing about its indices and arguments. So that nothing slips through has to be shown for
whole trees: an expression is free of diagnostics exactly if the rules give it a type, and then
it is the type that the checker computes.
-/

namespace ThreeAddress

/-- The checker's test of assignability is the rule. -/
theorem ValueType.accepts_iff {target source : ValueType} :
    target.accepts source = true ↔ target.Takes source := by
  constructor
  · intro h
    unfold accepts at h
    split at h
    · exact .character
    · exact .integer
    · obtain rfl := of_decide_eq_true h
      exact .same target
  · intro h
    cases h with
    | same => exact ValueType.accepts_self target
    | character | integer => rfl

namespace Scope

variable {scope : Scope}

/-- Looking a name up finds what it means. -/
theorem find?_eq_some_iff {name : String} {decl : Decl} :
    scope.find? name = some decl ↔ scope.Means name decl := by
  simp only [find?, Means, List.find?_eq_some_iff_append, decide_eq_true_eq, Bool.not_eq_true',
    decide_eq_false_iff_not]
  grind

/-- What a name means is unique. -/
theorem Means.unique {name : String} {decl decl' : Decl} (h : scope.Means name decl)
    (h' : scope.Means name decl') : decl = decl' :=
  Option.some.inj ((find?_eq_some_iff.mpr h).symm.trans (find?_eq_some_iff.mpr h'))

/-- What a name means is declared. -/
theorem Means.mem {name : String} {decl : Decl} (h : scope.Means name decl) :
    decl ∈ scope.decls :=
  List.mem_of_find?_eq_some (find?_eq_some_iff.mpr h)

/-- Inside a function a name means a parameter or, if none has the name, what it means outside. -/
theorem means_withParams_cases {params : List Param} {name : String} {decl : Decl}
    (h : (scope.withParams params).Means name decl) :
    (∃ param ∈ params, param.name = name ∧ decl = param.decl) ∨
      (name ∉ params.map Param.name ∧ scope.Means name decl) := by
  have hfind := find?_eq_some_iff.mpr h
  rw [find?_withParams] at hfind
  cases hparam : params.find? fun param => param.name = name with
  | some param =>
    rw [hparam, Option.map_some, Option.some_or, Option.some.injEq] at hfind
    exact .inl ⟨param, List.mem_of_find?_eq_some hparam, by simpa using List.find?_some hparam,
      hfind.symm⟩
  | none =>
    rw [hparam, Option.map_none, Option.none_or] at hfind
    refine .inr ⟨fun hmem => ?_, find?_eq_some_iff.mp hfind⟩
    obtain ⟨param, hmem, hname⟩ := List.mem_map.mp hmem
    simpa [hname] using List.find?_eq_none.mp hparam param hmem

/-- The checker computes the type that the rules give. -/
theorem HasType.typeOf?_eq {expr : Expr} {type : ValueType} (h : scope.HasType expr type) :
    scope.typeOf? expr = some type := by
  induction expr generalizing type with
  | literal value =>
    cases h
    rfl
  | scalar name =>
    cases h with
    | scalar hmeans => rw [typeOf?, scalarType?, find?_eq_some_iff.mpr hmeans]
  | element array index _ =>
    cases h with
    | element hmeans => rw [typeOf?, elementType?, find?_eq_some_iff.mpr hmeans]
  | call function args _ =>
    cases h with
    | call hmeans =>
      rw [typeOf?, resultType?, function?, find?_eq_some_iff.mpr hmeans]
      rfl
  | input type =>
    cases h
    rfl
  | binary op lhs rhs ihl ihr =>
    cases h with
    | binary hleft hright hresult => simp [typeOf?, ihl hleft, ihr hright, hresult]

/-- A typed value is refused exactly if the storage does not take its type. -/
theorem refusedType?_eq_none_iff {expected type : ValueType} {expr : Expr}
    (h : scope.HasType expr type) :
    scope.refusedType? expected expr = none ↔ expected.Takes type := by
  rw [refusedType?, h.typeOf?_eq, ← ValueType.accepts_iff]
  simp [Option.filter_eq_none_iff]

/-- The rule of indices. -/
theorem indexRule_eq_nil_iff {array : String} {index : Expr} {type : ValueType}
    (h : scope.HasType index type) :
    scope.indexRule array index = [] ↔ ValueType.Takes .int type := by
  simp [indexRule, refusedType?_eq_none_iff h]

/-- The rule of conditions. -/
theorem conditionRule_eq_nil_iff {construct : Conditional} {condition : Expr} {type : ValueType}
    (h : scope.HasType condition type) :
    scope.conditionRule construct condition = [] ↔ type = .bool := by
  rw [conditionRule, h.typeOf?_eq]
  cases type <;> simp

/-- The rule of names. -/
theorem scalarRule_eq_nil_iff {name : String} :
    scope.scalarRule name = [] ↔
      ∃ type initial, scope.Means name (.scalar type name initial) := by
  simp only [scalarRule, ← find?_eq_some_iff]
  constructor
  · intro h
    split at h
    · next type found initial hfind =>
      obtain rfl : found = name := name_of_find? hfind
      exact ⟨type, initial, hfind⟩
    · contradiction
    · contradiction
  · rintro ⟨type, initial, hfind⟩
    rw [hfind]

/-- The rule of indexed names. -/
theorem elementRule_eq_nil_iff {array : String} :
    scope.elementRule array = [] ↔
      ∃ type size initials, scope.Means array (.array type array size initials) := by
  simp only [elementRule, ← find?_eq_some_iff]
  constructor
  · intro h
    split at h
    · next type found size initials hfind =>
      obtain rfl : found = array := name_of_find? hfind
      exact ⟨type, size, initials, hfind⟩
    · contradiction
    · contradiction
  · rintro ⟨type, size, initials, hfind⟩
    rw [hfind]

/-- The rule of called names. -/
theorem callRule_eq_nil_iff {function : String} {args : List Expr} :
    scope.callRule function args = [] ↔
      ∃ type params, scope.Means function (.function type function params) ∧
        scope.argumentRule function args params = [] ∧ args.length = params.length := by
  simp only [callRule, ← find?_eq_some_iff]
  constructor
  · intro h
    split at h
    · next type found params hfind =>
      obtain rfl : found = function := name_of_find? hfind
      obtain ⟨hargs, hcount⟩ := List.append_eq_nil_iff.mp h
      exact ⟨type, params, hfind, hargs, by simpa [argumentCountRule] using hcount⟩
    · contradiction
    · contradiction
  · rintro ⟨type, params, hfind, hargs, hcount⟩
    rw [hfind]
    simp [hargs, argumentCountRule, hcount]

/-- The rule of operators. -/
theorem binaryRule_eq_nil_iff {op : BinaryOp} {lhs rhs : Expr} {left right : ValueType}
    (hleft : scope.HasType lhs left) (hright : scope.HasType rhs right) :
    scope.binaryRule op lhs rhs = [] ↔ ∃ type, op.resultType? left right = some type := by
  simp only [binaryRule, hleft.typeOf?_eq, hright.typeOf?_eq, ← Option.isSome_iff_exists]
  split
  · next h => exact iff_of_true rfl h
  · next h => exact iff_of_false (List.cons_ne_nil _ _) h

/-- Arguments are free of diagnostics, and their rule is kept, exactly if they match. -/
theorem argsMatch_iff {function : String} {args : List Expr} {params : List Param}
    (hargs : ∀ arg ∈ args, scope.checkExpr arg = [] ↔ ∃ type, scope.HasType arg type) :
    scope.checkArgs args = [] ∧ scope.argumentRule function args params = [] ∧
      args.length = params.length ↔ scope.ArgsMatch args params := by
  induction args generalizing params with
  | nil =>
    cases params with
    | nil => simp [checkArgs, argumentRule, ArgsMatch.nil]
    | cons param params =>
      constructor
      · simp
      · intro h
        cases h
  | cons arg args ih =>
    cases params with
    | nil =>
      constructor
      · simp
      · intro h
        cases h
    | cons param params =>
      have harg := hargs arg List.mem_cons_self
      replace ih := @ih params fun other hother => hargs other (List.mem_cons_of_mem arg hother)
      simp only [checkArgs, argumentRule, List.append_eq_nil_iff, List.length_cons,
        Nat.add_right_cancel_iff, Option.toList_eq_nil_iff, Option.map_eq_none_iff]
      constructor
      · rintro ⟨⟨hfirst, hrest⟩, ⟨hrefused, hrule⟩, hlength⟩
        obtain ⟨type, htype⟩ := harg.mp hfirst
        exact .cons htype ((refusedType?_eq_none_iff htype).mp hrefused)
          (ih.mp ⟨hrest, hrule, hlength⟩)
      · intro h
        cases h with
        | cons htype htakes hmatch =>
          obtain ⟨hrest, hrule, hlength⟩ := ih.mpr hmatch
          exact ⟨⟨harg.mpr ⟨_, htype⟩, hrest⟩,
            ⟨(refusedType?_eq_none_iff htype).mpr htakes, hrule⟩, hlength⟩

/-- An expression is free of diagnostics exactly if it has a type. -/
theorem checkExpr_eq_nil_iff {expr : Expr} :
    scope.checkExpr expr = [] ↔ ∃ type, scope.HasType expr type := by
  induction expr with
  | literal value => exact iff_of_true rfl ⟨_, .literal value⟩
  | scalar name =>
    rw [checkExpr, exprRule, scalarRule_eq_nil_iff]
    constructor
    · rintro ⟨type, initial, hmeans⟩
      exact ⟨type.value, .scalar hmeans⟩
    · rintro ⟨type, htype⟩
      cases htype with
      | scalar hmeans => exact ⟨_, _, hmeans⟩
  | element array index ih =>
    rw [checkExpr, exprRule, List.append_eq_nil_iff, List.append_eq_nil_iff, ih,
      elementRule_eq_nil_iff]
    constructor
    · rintro ⟨⟨indexType, hindex⟩, hrule, type, size, initials, hmeans⟩
      exact ⟨type.value, .element hmeans hindex ((indexRule_eq_nil_iff hindex).mp hrule)⟩
    · rintro ⟨type, htype⟩
      cases htype with
      | element hmeans hindex htakes =>
        exact ⟨⟨_, hindex⟩, (indexRule_eq_nil_iff hindex).mpr htakes, _, _, _, hmeans⟩
  | call function args ih =>
    rw [checkExpr, exprRule, List.append_eq_nil_iff, callRule_eq_nil_iff]
    constructor
    · rintro ⟨hargs, type, params, hmeans, hrule, hlength⟩
      exact ⟨type.value, .call hmeans ((argsMatch_iff ih).mp ⟨hargs, hrule, hlength⟩)⟩
    · rintro ⟨type, htype⟩
      cases htype with
      | call hmeans hmatch =>
        obtain ⟨hargs, hrule, hlength⟩ := (argsMatch_iff ih).mpr hmatch
        exact ⟨hargs, _, _, hmeans, hrule, hlength⟩
  | input type => exact iff_of_true rfl ⟨_, .input type⟩
  | binary op lhs rhs ihl ihr =>
    rw [checkExpr, exprRule, List.append_eq_nil_iff, List.append_eq_nil_iff, ihl, ihr]
    constructor
    · rintro ⟨⟨⟨left, hleft⟩, right, hright⟩, hrule⟩
      obtain ⟨type, htype⟩ := (binaryRule_eq_nil_iff hleft hright).mp hrule
      exact ⟨type, .binary hleft hright htype⟩
    · rintro ⟨type, htype⟩
      cases htype with
      | binary hleft hright hresult =>
        exact ⟨⟨⟨_, hleft⟩, _, hright⟩, (binaryRule_eq_nil_iff hleft hright).mpr ⟨type, hresult⟩⟩

/-- The rule of assignments. -/
theorem assignRule_eq_nil_iff {target : String} {value : Expr} {valueType : ValueType}
    (h : scope.HasType value valueType) :
    scope.assignRule target value = [] ↔
      ∃ type initial, scope.Means target (.scalar type target initial) ∧
        type.value.Takes valueType := by
  simp only [assignRule, ← find?_eq_some_iff]
  constructor
  · intro hrule
    split at hrule
    · next type found initial hfind =>
      obtain rfl : found = target := name_of_find? hfind
      have hrefused : scope.refusedType? type.value value = none := by simpa using hrule
      exact ⟨type, initial, hfind, (refusedType?_eq_none_iff h).mp hrefused⟩
    · contradiction
    · contradiction
  · rintro ⟨type, initial, hfind, htakes⟩
    simp [hfind, (refusedType?_eq_none_iff h).mpr htakes]

/-- The rule of assignments to elements. -/
theorem assignElementRule_eq_nil_iff {array : String} {value : Expr} {valueType : ValueType}
    (h : scope.HasType value valueType) :
    scope.assignElementRule array value = [] ↔
      ∃ type size initials, scope.Means array (.array type array size initials) ∧
        type.value.Takes valueType := by
  simp only [assignElementRule, ← find?_eq_some_iff]
  constructor
  · intro hrule
    split at hrule
    · next type found size initials hfind =>
      obtain rfl : found = array := name_of_find? hfind
      have hrefused : scope.refusedType? type.value value = none := by simpa using hrule
      exact ⟨type, size, initials, hfind, (refusedType?_eq_none_iff h).mp hrefused⟩
    · contradiction
    · contradiction
  · rintro ⟨type, size, initials, hfind, htakes⟩
    simp [hfind, (refusedType?_eq_none_iff h).mpr htakes]

/-- The rule of returned values. -/
theorem returnRule_eq_nil_iff {function : String} {result : ScalarType} {value : Expr}
    {type : ValueType} (h : scope.HasType value type) :
    scope.returnRule function result value = [] ↔ result.value.Takes type := by
  simp [returnRule, refusedType?_eq_none_iff h]

/-- A condition is free of diagnostics, and its rule is kept, exactly if it is a truth value. -/
theorem checkCondition_eq_nil_iff {construct : Conditional} {condition : Expr} :
    scope.checkExpr condition = [] ∧ scope.conditionRule construct condition = [] ↔
      scope.HasType condition .bool := by
  rw [checkExpr_eq_nil_iff]
  constructor
  · rintro ⟨⟨type, htype⟩, hrule⟩
    obtain rfl := (conditionRule_eq_nil_iff htype).mp hrule
    exact htype
  · intro htype
    exact ⟨⟨.bool, htype⟩, (conditionRule_eq_nil_iff htype).mpr rfl⟩

/-- A statement and the values it returns are free of diagnostics exactly if it is well typed. -/
theorem checkStmt_eq_nil_iff (function : String) {result : ScalarType} {stmt : Stmt} :
    scope.checkStmt stmt = [] ∧ scope.checkReturned function result stmt = [] ↔
      scope.WellTyped result stmt := by
  simp only [checkReturned, List.flatMap_eq_nil_iff]
  induction stmt with
  | assign target value =>
    simp only [checkStmt, List.append_eq_nil_iff, checkExpr_eq_nil_iff, Stmt.returned]
    constructor
    · rintro ⟨⟨⟨valueType, hvalue⟩, hrule⟩, -⟩
      obtain ⟨type, initial, hmeans, htakes⟩ := (assignRule_eq_nil_iff hvalue).mp hrule
      exact .assign hmeans hvalue htakes
    · intro h
      cases h with
      | assign hmeans hvalue htakes =>
        have hrule := (assignRule_eq_nil_iff hvalue).mpr ⟨_, _, hmeans, htakes⟩
        exact ⟨⟨⟨_, hvalue⟩, hrule⟩, by simp⟩
  | assignElement array index value =>
    simp only [checkStmt, List.append_eq_nil_iff, checkExpr_eq_nil_iff, Stmt.returned]
    constructor
    · rintro ⟨⟨⟨⟨⟨valueType, hvalue⟩, indexType, hindex⟩, hindexRule⟩, hrule⟩, -⟩
      obtain ⟨type, size, initials, hmeans, htakes⟩ :=
        (assignElementRule_eq_nil_iff hvalue).mp hrule
      exact .assignElement hmeans hindex ((indexRule_eq_nil_iff hindex).mp hindexRule) hvalue htakes
    · intro h
      cases h with
      | assignElement hmeans hindex hindexTakes hvalue htakes =>
        have hrule := (assignElementRule_eq_nil_iff hvalue).mpr ⟨_, _, _, hmeans, htakes⟩
        exact ⟨⟨⟨⟨⟨_, hvalue⟩, _, hindex⟩, (indexRule_eq_nil_iff hindex).mpr hindexTakes⟩, hrule⟩,
          by simp⟩
  | print value =>
    simp only [checkStmt, checkExpr_eq_nil_iff, Stmt.returned]
    constructor
    · rintro ⟨⟨type, hvalue⟩, -⟩
      exact .print hvalue
    · intro h
      cases h with
      | print hvalue => exact ⟨⟨_, hvalue⟩, by simp⟩
  | ret value =>
    simp only [checkStmt, checkExpr_eq_nil_iff, Stmt.returned, List.mem_singleton, forall_eq]
    constructor
    · rintro ⟨⟨type, hvalue⟩, hrule⟩
      exact .ret hvalue ((returnRule_eq_nil_iff hvalue).mp hrule)
    · intro h
      cases h with
      | ret hvalue htakes => exact ⟨⟨_, hvalue⟩, (returnRule_eq_nil_iff hvalue).mpr htakes⟩
  | ifThen condition positive ih =>
    simp only [checkStmt, List.append_eq_nil_iff, checkCondition_eq_nil_iff, Stmt.returned,
      and_assoc, ih]
    constructor
    · rintro ⟨hcondition, hpositive⟩
      exact .ifThen hcondition hpositive
    · intro h
      cases h with
      | ifThen hcondition hpositive => exact ⟨hcondition, hpositive⟩
  | ifElse condition positive negative ihp ihn =>
    simp only [checkStmt, List.append_eq_nil_iff, checkCondition_eq_nil_iff, Stmt.returned,
      List.forall_mem_append]
    constructor
    · rintro ⟨⟨⟨hcondition, hpositive⟩, hnegative⟩, hreturned, hreturned'⟩
      exact .ifElse hcondition (ihp.mp ⟨hpositive, hreturned⟩) (ihn.mp ⟨hnegative, hreturned'⟩)
    · intro h
      cases h with
      | ifElse hcondition hpositive hnegative =>
        obtain ⟨hchecked, hreturned⟩ := ihp.mpr hpositive
        obtain ⟨hchecked', hreturned'⟩ := ihn.mpr hnegative
        exact ⟨⟨⟨hcondition, hchecked⟩, hchecked'⟩, hreturned, hreturned'⟩
  | loop condition body ih =>
    simp only [checkStmt, List.append_eq_nil_iff, checkCondition_eq_nil_iff, Stmt.returned,
      and_assoc, ih]
    constructor
    · rintro ⟨hcondition, hbody⟩
      exact .loop hcondition hbody
    · intro h
      cases h with
      | loop hcondition hbody => exact ⟨hcondition, hbody⟩
  | block body ih =>
    simp only [checkStmt, checkStmts_eq_flatMap, List.flatMap_eq_nil_iff, Stmt.returned,
      Stmt.returnedAll_eq_flatMap, List.forall_mem_flatMap]
    constructor
    · rintro ⟨hchecked, hreturned⟩
      exact .block fun stmt hmem => (ih stmt hmem).mp ⟨hchecked stmt hmem, hreturned stmt hmem⟩
    · intro h
      cases h with
      | block hbody =>
        exact ⟨fun stmt hmem => ((ih stmt hmem).mpr (hbody stmt hmem)).1,
          fun stmt hmem => ((ih stmt hmem).mpr (hbody stmt hmem)).2⟩
  | empty => exact iff_of_true ⟨rfl, by simp [Stmt.returned]⟩ .empty

end Scope

/-- The checker's test for returns is that no path falls through. -/
theorem Stmt.endsInReturn_iff {stmt : Stmt} :
    stmt.endsInReturn = true ↔ ¬ stmt.FallsThrough := by
  induction stmt with
  | assign target value => simp [endsInReturn, FallsThrough.assign]
  | assignElement array index value => simp [endsInReturn, FallsThrough.assignElement]
  | print value => simp [endsInReturn, FallsThrough.print]
  | ret value =>
    refine iff_of_true rfl fun h => ?_
    cases h
  | ifThen condition positive _ => simp [endsInReturn, FallsThrough.untaken]
  | ifElse condition positive negative ihp ihn =>
    rw [endsInReturn, Bool.and_eq_true, ihp, ihn]
    constructor
    · rintro ⟨hpositive, hnegative⟩ h
      cases h with
      | positive _ _ hfalls => exact hpositive hfalls
      | negative _ _ hfalls => exact hnegative hfalls
    · intro h
      exact ⟨fun hfalls => h (.positive condition negative hfalls),
        fun hfalls => h (.negative condition positive hfalls)⟩
  | loop condition body _ => simp [endsInReturn, FallsThrough.finished]
  | block body ih =>
    rw [endsInReturn, Stmt.anyEndsInReturn_eq_any, List.any_eq_true]
    constructor
    · rintro ⟨stmt, hmem, hreturn⟩ h
      cases h with
      | block hbody => exact (ih stmt hmem).mp hreturn (hbody stmt hmem)
    · intro h
      by_contra hnone
      refine h (.block fun stmt hmem => ?_)
      by_contra hfalls
      exact hnone ⟨stmt, hmem, (ih stmt hmem).mpr hfalls⟩
  | empty => simp [endsInReturn, FallsThrough.empty]

namespace Program

variable {program : Program}

/-- No function lacks a body exactly if every declared function has one. -/
theorem checkMissing_eq_nil_iff :
    program.checkMissing = [] ↔ ∀ type name params, .function type name params ∈ program.decls →
      ∃ implementation ∈ program.implementations, implementation.name = name := by
  simp only [checkMissing, List.map_eq_nil_iff, List.filter_eq_nil_iff, List.mem_filterMap,
    decide_eq_true_eq, Classical.not_not, List.mem_map]
  constructor
  · intro h type name params hmem
    exact h name ⟨_, hmem, rfl⟩
  · rintro h name ⟨decl, hmem, hname⟩
    cases decl with
    | scalar | array => simp [Decl.functionName?, Decl.signature?] at hname
    | function type declared params =>
      obtain rfl : declared = name := by
        simpa [Decl.functionName?, Decl.signature?, Decl.name] using hname
      exact h type declared params hmem

/-- With distinct names, a declaration is what its name means. -/
theorem means_iff_mem (h : (program.decls.map Decl.name).Nodup) {decl : Decl} :
    program.scope.Means decl.name decl ↔ decl ∈ program.decls := by
  constructor
  · rintro ⟨before, after, heq, -, -⟩
    have hdecls : program.decls = before ++ decl :: after := heq
    rw [hdecls]
    exact List.mem_append_right _ List.mem_cons_self
  · intro hmem
    obtain ⟨before, after, heq⟩ := List.append_of_mem hmem
    refine ⟨before, after, heq, rfl, fun earlier hearlier hname => ?_⟩
    rw [heq, List.map_append, List.map_cons, List.nodup_append] at h
    exact h.2.2 _ (List.mem_map_of_mem hearlier) _ List.mem_cons_self hname

/-- The declarations are free of diagnostics exactly if their names are distinct. -/
theorem checkDeclarations_eq_nil_iff {decls : List Decl} :
    checkDeclarations decls = [] ↔ (decls.map Decl.name).Nodup := by
  rw [checkDeclarations, List.map_eq_nil_iff, repeatedNames_eq_nil_iff]

/-- The list of bodies is free of diagnostics exactly if their names are distinct. -/
theorem checkImplementations_eq_nil_iff {implementations : List Implementation} :
    checkImplementations implementations = [] ↔
      (implementations.map Implementation.name).Nodup := by
  rw [checkImplementations, List.map_eq_nil_iff, repeatedNames_eq_nil_iff]

end Program

/-- A body is free of diagnostics exactly if its name means a function, it is well typed there
and every path through it returns. -/
theorem Scope.checkImplementation_eq_nil_iff {scope : Scope} {implementation : Implementation} :
    scope.checkImplementation implementation = [] ↔
      ∃ type params, scope.Means implementation.name (.function type implementation.name params) ∧
        (scope.withParams params).WellTyped type implementation.body ∧
        ¬ implementation.body.FallsThrough := by
  simp only [checkImplementation, ← find?_eq_some_iff]
  constructor
  · intro h
    split at h
    · next type name params hfind =>
      obtain rfl : name = implementation.name := name_of_find? hfind
      obtain ⟨hbody, hreturn⟩ := List.append_eq_nil_iff.mp h
      have htyped := (checkStmt_eq_nil_iff implementation.name).mp (List.append_eq_nil_iff.mp hbody)
      refine ⟨type, params, hfind, htyped, ?_⟩
      rw [← Stmt.endsInReturn_iff]
      by_contra hfalls
      simp [hfalls] at hreturn
    · contradiction
    · contradiction
  · rintro ⟨type, params, hfind, htyped, hreturns⟩
    obtain ⟨hchecked, hreturned⟩ := (checkStmt_eq_nil_iff implementation.name).mpr htyped
    simp [hfind, hchecked, hreturned, Stmt.endsInReturn_iff.mpr hreturns]

/-- The checker has nothing to report exactly if each of its four parts has nothing to report. -/
theorem Program.check_eq_nil_iff {program : Program} :
    program.check = [] ↔ (program.decls.map Decl.name).Nodup ∧
      (program.implementations.map Implementation.name).Nodup ∧
      (∀ type name params, .function type name params ∈ program.decls →
        ∃ implementation ∈ program.implementations, implementation.name = name) ∧
      ∀ implementation ∈ program.implementations,
        ∃ type params,
          program.scope.Means implementation.name (.function type implementation.name params) ∧
          (program.scope.withParams params).WellTyped type implementation.body ∧
          ¬ implementation.body.FallsThrough := by
  simp only [check, List.append_eq_nil_iff, checkDeclarations_eq_nil_iff,
    checkImplementations_eq_nil_iff, checkMissing_eq_nil_iff, List.flatMap_eq_nil_iff,
    Scope.checkImplementation_eq_nil_iff, and_assoc]

/-- A program without diagnostics obeys all rules. -/
theorem Program.WellFormed.of_check {program : Program} (h : program.check = []) :
    program.WellFormed := by
  obtain ⟨hdecls, himplementations, himplemented, hbodies⟩ := Program.check_eq_nil_iff.mp h
  have hmem : ∀ {name type params}, program.scope.Means name (.function type name params) ↔
      .function type name params ∈ program.decls :=
    Program.means_iff_mem hdecls
  refine ⟨hdecls, himplementations, himplemented, ?declared, ?typed, ?returns⟩
  case declared =>
    intro implementation himplementation
    obtain ⟨type, params, hmeans, -, -⟩ := hbodies implementation himplementation
    exact ⟨type, params, hmem.mp hmeans⟩
  case typed =>
    intro implementation himplementation type params hdecl
    obtain ⟨type', params', hmeans, htyped, -⟩ := hbodies implementation himplementation
    have hsame := (Scope.find?_eq_some_iff.mpr hmeans).symm.trans
      (Scope.find?_eq_some_iff.mpr (hmem.mpr hdecl))
    simp only [Option.some.injEq, Decl.function.injEq] at hsame
    obtain ⟨rfl, -, rfl⟩ := hsame
    exact htyped
  case returns =>
    intro implementation himplementation
    obtain ⟨type, params, -, -, hreturns⟩ := hbodies implementation himplementation
    exact hreturns

/-- The checker has nothing to report exactly if the program obeys all rules. -/
theorem check_eq_nil_iff_wellFormed (program : Program) :
    program.check = [] ↔ program.WellFormed := by
  constructor
  · exact Program.WellFormed.of_check
  · intro h
    refine Program.check_eq_nil_iff.mpr
      ⟨h.decls_distinct, h.implementations_distinct, h.implemented, ?_⟩
    intro implementation himplementation
    obtain ⟨type, params, hdecl⟩ := h.declared implementation himplementation
    exact ⟨type, params, (Program.means_iff_mem h.decls_distinct).mpr hdecl,
      h.typed implementation himplementation type params hdecl,
      h.returns implementation himplementation⟩

end ThreeAddress
