import ThreeAddress.Check.Program
import ThreeAddress.Proofs.Lowering.Steps
import Mathlib.Data.List.Find
import Mathlib.Data.List.Nodup
import Mathlib.Data.List.Perm.Basic

/-!
# The order of declarations

A scope is only ever asked what a name means. What is reported about a body, and the code that it
becomes, is decided by the answers alone. As long as no name is declared twice, these are the same
for every order of the declarations, inside a function as well, where the parameters come first.
-/

namespace ThreeAddress

namespace Scope

/-- Every name means the same in two scopes. -/
def Agrees (scope other : Scope) : Prop := ∀ name, scope.find? name = other.find? name

/-- With distinct names, the order of the declarations does not matter for what names mean. -/
theorem agrees_of_perm {decls decls' : List Decl} (h : decls.Perm decls')
    (hnames : (decls.map Decl.name).Nodup) : Agrees ⟨decls⟩ ⟨decls'⟩ := by
  intro name
  refine List.find?_eq_find?_of_perm h ?_
  rintro first ⟨hfirst, hname⟩ second ⟨hsecond, hname'⟩
  have hsame : first.name = second.name :=
    (of_decide_eq_true hname).trans (of_decide_eq_true hname').symm
  exact List.inj_on_of_nodup_map hnames hfirst hsecond hsame

namespace Agrees

variable {scope other : Scope}

/-- The same parameters in front, and names still mean the same. -/
theorem withParams (h : Agrees scope other) (params : List Param) :
    Agrees (scope.withParams params) (other.withParams params) := by
  intro name
  rw [find?_withParams, find?_withParams, h name]

/-- The same names are functions, with the same signatures. -/
theorem function?_eq (h : Agrees scope other) (name : String) :
    scope.function? name = other.function? name := by
  rw [function?, function?, h name]

/-- Expressions have the same types. -/
theorem typeOf?_eq (h : Agrees scope other) : scope.typeOf? = other.typeOf? := by
  funext expr
  induction expr with
  | literal | input => rfl
  | scalar name => rw [typeOf?, typeOf?, scalarType?, scalarType?, h name]
  | element array index _ => rw [typeOf?, typeOf?, elementType?, elementType?, h array]
  | call function args _ =>
    rw [typeOf?, typeOf?, resultType?, resultType?, h.function?_eq function]
  | binary op lhs rhs ihl ihr => rw [typeOf?, typeOf?, ihl, ihr]

/-- The same values are refused. -/
theorem refusedType?_eq (h : Agrees scope other) : scope.refusedType? = other.refusedType? := by
  funext expected expr
  rw [refusedType?, refusedType?, h.typeOf?_eq]

/-- The same arguments are reported. -/
theorem argumentRule_eq (h : Agrees scope other) (function : String) (args : List Expr)
    (params : List Param) :
    scope.argumentRule function args params = other.argumentRule function args params := by
  induction args generalizing params with
  | nil => rfl
  | cons arg args ih =>
    cases params with
    | nil => rfl
    | cons param params => rw [argumentRule, argumentRule, h.refusedType?_eq, ih params]

/-- The rule of an expression reports the same. -/
theorem exprRule_eq (h : Agrees scope other) (expr : Expr) :
    scope.exprRule expr = other.exprRule expr := by
  cases expr with
  | literal | input => rfl
  | scalar name => rw [exprRule, exprRule, scalarRule, scalarRule, h name]
  | element array index =>
    rw [exprRule, exprRule, indexRule, indexRule, elementRule, elementRule, h.refusedType?_eq,
      h array]
  | call function args =>
    rw [exprRule, exprRule, callRule, callRule, h function]
    simp only [h.argumentRule_eq]
  | binary op lhs rhs => rw [exprRule, exprRule, binaryRule, binaryRule, h.typeOf?_eq]

/-- The same is reported about an expression. -/
theorem checkExpr_eq (h : Agrees scope other) : scope.checkExpr = other.checkExpr := by
  funext expr
  induction expr with
  | literal | scalar | input => rw [checkExpr, checkExpr, h.exprRule_eq]
  | element array index ih => rw [checkExpr, checkExpr, h.exprRule_eq, ih]
  | call function args ih =>
    rw [checkExpr, checkExpr, h.exprRule_eq, checkArgs_eq_flatMap, checkArgs_eq_flatMap,
      List.flatMap_congr ih]
  | binary op lhs rhs ihl ihr => rw [checkExpr, checkExpr, h.exprRule_eq, ihl, ihr]

/-- The rule of conditions reports the same. -/
theorem conditionRule_eq (h : Agrees scope other) : scope.conditionRule = other.conditionRule := by
  funext construct condition
  rw [conditionRule, conditionRule, h.typeOf?_eq]

/-- The same is reported about a statement. -/
theorem checkStmt_eq (h : Agrees scope other) : scope.checkStmt = other.checkStmt := by
  funext stmt
  induction stmt with
  | assign target value =>
    rw [checkStmt, checkStmt, assignRule, assignRule, h.checkExpr_eq, h.refusedType?_eq, h target]
  | assignElement array index value =>
    rw [checkStmt, checkStmt, indexRule, indexRule, assignElementRule, assignElementRule,
      h.checkExpr_eq, h.refusedType?_eq, h array]
  | print | ret => rw [checkStmt, checkStmt, h.checkExpr_eq]
  | ifThen condition positive ih =>
    rw [checkStmt, checkStmt, h.checkExpr_eq, h.conditionRule_eq, ih]
  | ifElse condition positive negative ihp ihn =>
    rw [checkStmt, checkStmt, h.checkExpr_eq, h.conditionRule_eq, ihp, ihn]
  | loop condition body ih => rw [checkStmt, checkStmt, h.checkExpr_eq, h.conditionRule_eq, ih]
  | block body ih =>
    rw [checkStmt, checkStmt, checkStmts_eq_flatMap, checkStmts_eq_flatMap, List.flatMap_congr ih]
  | empty => rfl

/-- The same is reported about what a function returns. -/
theorem checkReturned_eq (h : Agrees scope other) (function : String) (type : ScalarType)
    (body : Stmt) :
    scope.checkReturned function type body = other.checkReturned function type body := by
  have hrule : scope.returnRule function type = other.returnRule function type := by
    funext value
    rw [returnRule, returnRule, h.refusedType?_eq]
  rw [checkReturned, checkReturned, hrule]

/-- The same is reported about a body. -/
theorem checkImplementation_eq (h : Agrees scope other) :
    scope.checkImplementation = other.checkImplementation := by
  funext implementation
  rw [checkImplementation, checkImplementation, h implementation.name]
  split
  · next type name params _ =>
    have hinner := h.withParams params
    simp only [hinner.checkStmt_eq, hinner.checkReturned_eq]
  · rw [h.checkStmt_eq]
  · rw [h.checkStmt_eq]

end Agrees

end Scope

namespace Environment

/-- Names are called and stored alike in two environments. -/
structure Agrees (env other : Environment) : Prop where
  callee_eq : env.callee = other.callee
  placeOf_eq : env.placeOf = other.placeOf

/-- The insides of a function agree if the scopes around do. -/
theorem agrees_inside {scope other : Scope} (h : scope.Agrees other) (name : String) :
    (inside scope name).Agrees (inside other name) := by
  have henclosing : (inside scope name).enclosing? = (inside other name).enclosing? := by
    rw [inside, inside, h.function?_eq name]
  constructor
  · funext function
    rw [callee, callee, hides, hides, henclosing, inside, inside, h.function?_eq function,
      h function]
  · funext target
    rw [placeOf, placeOf, henclosing]

variable {env other : Environment}

/-- Arguments are lowered alike if each of them is. -/
theorem Agrees.lowerArgs_eq {args : List Expr}
    (hargs : ∀ arg ∈ args, lowerExpr env arg = lowerExpr other arg) (function : String)
    (params : List Param) :
    lowerArgs env function args params = lowerArgs other function args params := by
  induction args generalizing params with
  | nil => rfl
  | cons arg args ih =>
    cases params with
    | nil => rfl
    | cons param params =>
      obtain ⟨harg, hrest⟩ := List.forall_mem_cons.mp hargs
      rw [lowerArgs, lowerArgs, harg, ih hrest params]

/-- Expressions are lowered alike. -/
theorem Agrees.lowerExpr_eq (h : Agrees env other) : lowerExpr env = lowerExpr other := by
  funext expr
  induction expr with
  | literal | input => rw [lowerExpr, lowerExpr]
  | scalar name => rw [lowerExpr, lowerExpr, h.placeOf_eq]
  | element array index ih => rw [lowerExpr, lowerExpr, ih]
  | call function args ih =>
    rw [lowerExpr, lowerExpr, h.callee_eq]
    simp only [Agrees.lowerArgs_eq ih]
  | binary op lhs rhs ihl ihr => rw [lowerExpr, lowerExpr, ihl, ihr]

/-- Statements are lowered alike. -/
theorem Agrees.lowerStmt_eq (h : Agrees env other) : lowerStmt env = lowerStmt other := by
  funext stmt
  induction stmt with
  | assign target value => rw [lowerStmt, lowerStmt, h.lowerExpr_eq, h.placeOf_eq]
  | assignElement | print | ret => rw [lowerStmt, lowerStmt, h.lowerExpr_eq]
  | ifThen condition positive ih => rw [lowerStmt, lowerStmt, h.lowerExpr_eq, ih]
  | ifElse condition positive negative ihp ihn =>
    rw [lowerStmt, lowerStmt, h.lowerExpr_eq, ihp, ihn]
  | loop condition body ih => rw [lowerStmt, lowerStmt, h.lowerExpr_eq, ih]
  | block body ih =>
    rw [lowerStmt, lowerStmt]
    induction body with
    | nil => rfl
    | cons stmt rest ihrest =>
      obtain ⟨hstmt, hrest⟩ := List.forall_mem_cons.mp ih
      rw [lowerStmts, lowerStmts, hstmt, ihrest hrest]
  | empty => rfl

end Environment

/-- Bodies are lowered alike in scopes that agree. -/
theorem Scope.Agrees.lowerImplementations_eq {scope other : Scope} (h : scope.Agrees other)
    (implementations : List Implementation) :
    lowerImplementations scope implementations = lowerImplementations other implementations := by
  induction implementations with
  | nil => rfl
  | cons implementation rest ih =>
    have henv := Environment.agrees_inside h implementation.name
    rw [lowerImplementations, lowerImplementations, lowerImplementation, lowerImplementation,
      henv.lowerStmt_eq, ih]

/-- What is reported about a declaration for want of a body. -/
def Decl.missing (implementations : List Implementation) (decl : Decl) : List Diagnostic :=
  ((decl.functionName?.filter fun name => name ∉ implementations.map Implementation.name).map
    .missingImplementation).toList

/-- Missing bodies are reported in the order of the declarations. -/
theorem Program.checkMissing_eq_flatMap (program : Program) :
    program.checkMissing = program.decls.flatMap (Decl.missing program.implementations) := by
  rw [checkMissing, List.filter_filterMap, List.map_filterMap, List.filterMap_eq_flatMap_toList]
  rfl

/-- If no name is declared twice, the declarations can be put into any order: the program is lowered
to the same code and string constants, or fails to be for the same cause, the same is reported about
every body, missing bodies are reported in the new order, and the checker accepts the program in one
order exactly if it does in the other. -/
theorem decls_order_irrelevant (program : Program) (decls : List Decl)
    (h : program.decls.Perm decls) (hnames : (program.decls.map Decl.name).Nodup) :
    let reordered : Program := ⟨decls, program.implementations⟩
    reordered.lower = program.lower.map (fun unit => { unit with decls := decls }) ∧
      (∀ implementation, reordered.scope.checkImplementation implementation =
        program.scope.checkImplementation implementation) ∧
      program.checkMissing = program.decls.flatMap (Decl.missing program.implementations) ∧
      reordered.checkMissing = decls.flatMap (Decl.missing program.implementations) ∧
      reordered.checkMissing.Perm program.checkMissing ∧
      (reordered.check = [] ↔ program.check = []) := by
  intro reordered
  have hagrees : program.scope.Agrees reordered.scope := Scope.agrees_of_perm h hnames
  have hmissing : reordered.checkMissing.Perm program.checkMissing := by
    rw [Program.checkMissing_eq_flatMap, Program.checkMissing_eq_flatMap]
    exact h.symm.flatMap_right _
  refine ⟨?lower, ?bodies, program.checkMissing_eq_flatMap, reordered.checkMissing_eq_flatMap,
    hmissing, ?check⟩
  case lower =>
    have hsame : lowerImplementations ⟨decls⟩ program.implementations =
        lowerImplementations ⟨program.decls⟩ program.implementations :=
      (hagrees.lowerImplementations_eq program.implementations).symm
    rw [Program.lower, Program.lower, hsame]
    split <;> rfl
  case bodies =>
    intro implementation
    rw [hagrees.checkImplementation_eq]
  case check =>
    have hdecls : checkDeclarations decls = [] := by
      rw [checkDeclarations, List.map_eq_nil_iff, repeatedNames_eq_nil_iff]
      exact (h.map Decl.name).nodup_iff.mp hnames
    have hdecls' : checkDeclarations program.decls = [] := by
      rw [checkDeclarations, List.map_eq_nil_iff, repeatedNames_eq_nil_iff]
      exact hnames
    have hnil : reordered.checkMissing = [] ↔ program.checkMissing = [] := by
      rw [← List.length_eq_zero_iff, ← List.length_eq_zero_iff, hmissing.length_eq]
    simp only [Program.check, List.append_eq_nil_iff, hdecls, hdecls', hnil,
      hagrees.checkImplementation_eq, reordered]

/-- A program whose parameter hides a variable, with two functions that lack a body. -/
def shuffling : Program where
  decls :=
    [.function .int "f" [⟨.int, "n"⟩], .function .int "g" [], .scalar .char "n" (.char 'n'),
     .array .char "v" 2 [], .function .int "h" []]
  implementations :=
    [⟨"f", .block
      [.assign "n" (.call "f" [.element "v" (.scalar "n")]), .print (.literal (.string "f")),
       .ret (.scalar "n")]⟩]

/-- The code of the program, with its declarations in any order. -/
def shufflingUnit (decls : List Decl) : CodeUnit where
  decls := decls
  strings := StringPool.empty.insert (.numbered 2) "f"
  code :=
    [⟨none, .enter "f"⟩,
     ⟨none, .copyFromArray (.temporary (.numbered 0)) "v" (.parameter "f" "n")⟩,
     ⟨none, .copy (.parameter "f" "n") (.temporary (.numbered 0))⟩,
     ⟨none, .call "f" (.temporary (.numbered 1))⟩,
     ⟨none, .copy (.parameter "f" "n") (.temporary (.numbered 1))⟩,
     ⟨none, .print (.string (.numbered 2))⟩,
     ⟨none, .ret (.parameter "f" "n")⟩,
     ⟨none, .leave⟩]

/-- With its declarations in the opposite order, the program has the same code, nothing is reported
about its body either, and the missing bodies are reported the other way round. -/
theorem shuffling_reversed :
    let reversed : Program := ⟨shuffling.decls.reverse, shuffling.implementations⟩
    shuffling.decls.Perm reversed.decls ∧ (shuffling.decls.map Decl.name).Nodup ∧
      reversed.lower = .ok (shufflingUnit reversed.decls) ∧
      reversed.implementations.flatMap reversed.scope.checkImplementation = [] ∧
      shuffling.checkMissing = [.missingImplementation "g", .missingImplementation "h"] ∧
      reversed.checkMissing = [.missingImplementation "h", .missingImplementation "g"] ∧
      reversed.check ≠ [] := by
  intro reversed
  have hperm : shuffling.decls.Perm reversed.decls := (List.reverse_perm _).symm
  have hnames : (shuffling.decls.map Decl.name).Nodup := by decide
  obtain ⟨hlower, hbodies, hmissing, hmissing', -, hcheck⟩ :=
    decls_order_irrelevant shuffling reversed.decls hperm hnames
  refine ⟨hperm, hnames, hlower, ?_, hmissing.trans (by decide), hmissing'.trans (by decide), ?_⟩
  · rw [List.flatMap_congr fun implementation _ => hbodies implementation]
    decide
  · intro h
    exact absurd (hcheck.mp h) (by decide)

end ThreeAddress
