import ThreeAddress.Proofs.Calls.Sites
import Mathlib.Data.List.Forall2
import Mathlib.Order.Nat

/-!
# What the operands of lowered code stand for

An expression is evaluated together with its sub-expressions, except for surplus arguments. Each
value that comes about in this way is an operand of one instruction: a literal as a constant or as
the address of its text, a name as its own place, and everything else as a temporary. Which value is
the operand of which instruction can be read off the tree. So the operands of the code of a statement
stand, one for one and in order, for the expressions whose values its instructions take.
-/

namespace ThreeAddress

open LowerM

/-- The places that an operation reads. -/
def Operation.operands : Operation → List Storage
  | .jumpIfFalse condition _ => [condition]
  | .copy _ source => [source]
  | .copyIntoArray _ index source => [source, index]
  | .copyFromArray _ _ index => [index]
  | .print source => [source]
  | .ret source => [source]
  | .binary _ _ lhs rhs => [lhs, rhs]
  | .nop | .enter _ | .leave | .jump _ | .call .. | .input .. => []

namespace Code

/-- The operands of the instructions of some code, in order. -/
def operands (code : Code) : List Storage :=
  code.flatMap fun instruction => instruction.operation.operands

/-- The operands of a sequence are those of its parts. -/
@[simp] theorem operands_append (first second : Code) :
    operands (first ++ second) = operands first ++ operands second :=
  List.flatMap_append

/-- A single operation has its own operands. -/
@[simp] theorem operands_ofOperation (operation : Operation) :
    (ofOperation operation).operands = operation.operands :=
  List.append_nil _

/-- An operation at the end adds its operands. -/
@[simp] theorem operands_push (code : Code) (operation : Operation) :
    (code.push operation).operands = code.operands ++ operation.operands := by
  simp [push]

/-- Labelling adds no operands. -/
@[simp] theorem operands_marked (label : Label) (code : Code) :
    (code.marked label).operands = code.operands :=
  flatMap_marked Operation.operands rfl label code

/-- The place behind a construct has no operands. -/
@[simp] theorem operands_landing (label : Label) : (landing label).operands = [] := rfl

end Code

/-- The place of a name is no temporary. -/
theorem Environment.placeOf_ne_temporary (env : Environment) (name : String) (id : Temporary) :
    env.placeOf name ≠ .temporary id := by
  cases h : env.hides name with
  | true =>
    obtain ⟨function, -, hplace⟩ := placeOf_of_hides h
    simp [hplace]
  | false => simp [placeOf_of_not_hides h]

/-- The place of a name is no string constant. -/
theorem Environment.placeOf_ne_string (env : Environment) (name : String) (id : Temporary) :
    env.placeOf name ≠ .string id := by
  cases h : env.hides name with
  | true =>
    obtain ⟨function, -, hplace⟩ := placeOf_of_hides h
    simp [hplace]
  | false => simp [placeOf_of_not_hides h]

/-- How many arguments of a call are evaluated at most. -/
def Environment.arity (env : Environment) (function : String) : Nat :=
  match env.callee function with
  | .ok params => params.length
  | .error _ => 0

mutual

/-- The expressions that are evaluated with an expression, itself the last. -/
def Expr.evaluated (env : Environment) : Expr → List Expr
  | .literal value => [.literal value]
  | .scalar name => [.scalar name]
  | .element array index => index.evaluated env ++ [.element array index]
  | .call function args =>
    Expr.evaluatedArgs env args (env.arity function) ++ [.call function args]
  | .input type => [.input type]
  | .binary op lhs rhs => lhs.evaluated env ++ rhs.evaluated env ++ [.binary op lhs rhs]

/-- The expressions that are evaluated with a number of arguments. -/
def Expr.evaluatedArgs (env : Environment) : List Expr → Nat → List Expr
  | arg :: args, count + 1 => arg.evaluated env ++ Expr.evaluatedArgs env args count
  | _, _ => []

end

/-- Whether the value of an expression has to be computed. -/
def Expr.isComputed : Expr → Bool
  | .literal _ | .scalar _ => false
  | _ => true

/-- A place stands for an expression, where string constants have the texts in a pool. -/
inductive Storage.StandsFor (env : Environment) (pool : StringPool) : Storage → Expr → Prop
  | constant (value : Immediate) : StandsFor env pool (.constant value) (.literal value.literal)
  | string {id : Temporary} {text : String} : pool.find? id = some text →
      StandsFor env pool (.string id) (.literal (.string text))
  | scalar (name : String) : StandsFor env pool (env.placeOf name) (.scalar name)
  | computed (id : Temporary) (expr : Expr) : expr.isComputed = true →
      StandsFor env pool (.temporary id) expr

mutual

/-- The expressions whose values are taken as operands in the code of an expression, in the order of
the operands. -/
def Expr.consumed (env : Environment) : Expr → List Expr
  | .literal _ | .scalar _ | .input _ => []
  | .element _ index => index.consumed env ++ [index]
  | .call function args => Expr.consumedArgs env args (env.arity function)
  | .binary _ lhs rhs => lhs.consumed env ++ rhs.consumed env ++ [lhs, rhs]

/-- The expressions whose values are taken as operands while a number of arguments are passed. -/
def Expr.consumedArgs (env : Environment) : List Expr → Nat → List Expr
  | arg :: args, count + 1 => arg.consumed env ++ arg :: Expr.consumedArgs env args count
  | _, _ => []

end

mutual

/-- The expressions whose values are taken as operands in the code of a statement, in the order of
the operands. -/
def Stmt.consumed (env : Environment) : Stmt → List Expr
  | .assign _ value | .print value | .ret value => value.consumed env ++ [value]
  | .assignElement _ index value =>
    value.consumed env ++ index.consumed env ++ [value, index]
  | .ifThen condition positive => condition.consumed env ++ condition :: positive.consumed env
  | .ifElse condition positive negative =>
    condition.consumed env ++ condition :: (positive.consumed env ++ negative.consumed env)
  | .loop condition body => condition.consumed env ++ condition :: body.consumed env
  | .block body => Stmt.consumedAll env body
  | .empty => []

/-- The expressions whose values are taken as operands in the code of the members of a block. -/
def Stmt.consumedAll (env : Environment) : List Stmt → List Expr
  | [] => []
  | stmt :: rest => stmt.consumed env ++ Stmt.consumedAll env rest

end

/-- Places stand, one for one and in order, for expressions. -/
def StandFor (env : Environment) (pool : StringPool) : List Storage → List Expr → Prop :=
  List.Forall₂ (Storage.StandsFor env pool)

section Lowering

variable {env : Environment} {pool : StringPool} {before after : Supply} {code : Code}

/-- The operands in the code of an expression stand for what its instructions take, and its place
stands for the expression itself. -/
theorem standFor_of_lowerExpr {expr : Expr} {place : Storage}
    (h : (lowerExpr env expr).Yields before (code, place) after)
    (hfit : after.temporaries ≤ 2 ^ 32) (hpool : Supply.Registered pool before after) :
    StandFor env pool code.operands (expr.consumed env) ∧ place.StandsFor env pool expr := by
  refine lowerExpr_induction
    (P := fun expr before code place after => after.temporaries ≤ 2 ^ 32 →
      Supply.Registered pool before after →
        StandFor env pool code.operands (expr.consumed env) ∧ place.StandsFor env pool expr)
    (Q := fun _ args params before code after => after.temporaries ≤ 2 ^ 32 →
      Supply.Registered pool before after →
        StandFor env pool code.operands (Expr.consumedArgs env args params.length))
    ?constant ?string ?scalar ?element ?call ?input ?binary ?surplus ?argument h hfit hpool
  case constant =>
    intro value supply _ _
    refine ⟨?_, .constant value⟩
    cases value <;> exact .nil
  case string =>
    intro text supply _ hpool
    refine ⟨.nil, .string ?_⟩
    rw [hpool supply.temporaries (Nat.le_refl _) (Nat.lt_succ_self _)]
    exact StringPool.find?_insert_self supply.strings _ text
  case scalar => exact fun name _ _ _ => ⟨.nil, .scalar name⟩
  case element =>
    intro array index before code place after hyields hindex hfit hpool
    obtain ⟨hcode, hplace⟩ := hindex (Nat.le_of_succ_le hfit)
      (Supply.Drawn.refl.temporary.registered_left hfit hpool)
    rw [Code.operands_push]
    exact ⟨List.rel_append hcode (.cons hplace .nil), .computed _ (.element array index) rfl⟩
  case call =>
    intro function args params before code after hcallee hyields hargs hfit hpool
    have hcode := hargs (Nat.le_of_succ_le hfit)
      (Supply.Drawn.refl.temporary.registered_left hfit hpool)
    have harity : env.arity function = params.length := by rw [Environment.arity, hcallee]
    rw [Code.operands_push, Expr.consumed, harity, Operation.operands, List.append_nil]
    exact ⟨hcode, .computed _ (.call function args) rfl⟩
  case input => exact fun type supply _ _ => ⟨.nil, .computed _ (.input type) rfl⟩
  case binary =>
    intro op lhs rhs before leftCode left middle rightCode right after hyieldsLeft hyieldsRight
      hleft hright hfit hpool
    have hdrawn := (straightLine_of_yields hyieldsRight).drawn
    have hfit' : after.temporaries ≤ 2 ^ 32 := Nat.le_of_succ_le hfit
    have hgrow := hdrawn.temporaries_le
    have hpool' := Supply.Drawn.refl.temporary.registered_left hfit hpool
    obtain ⟨hcode, hplace⟩ := hleft (hgrow.trans hfit') (hdrawn.registered_left hfit' hpool')
    obtain ⟨hcode', hplace'⟩ :=
      hright hfit' ((straightLine_of_yields hyieldsLeft).drawn.registered_right hpool')
    rw [Code.operands_push, Code.operands_append]
    exact ⟨List.rel_append (List.rel_append hcode hcode') (.cons hplace (.cons hplace' .nil)),
      .computed _ (.binary op lhs rhs) rfl⟩
  case surplus =>
    rintro function args params supply (rfl | rfl) _ _
    · exact .nil
    · cases args <;> exact .nil
  case argument =>
    intro function arg args param params before argCode source middle rest after hyieldsArg
      hyieldsRest harg hrest hfit hpool
    have hdrawn := (straightLine_of_args hyieldsRest).drawn
    have hgrow := hdrawn.temporaries_le
    obtain ⟨hcode, hplace⟩ := harg (hgrow.trans hfit) (hdrawn.registered_left hfit hpool)
    have hothers := hrest hfit ((straightLine_of_yields hyieldsArg).drawn.registered_right hpool)
    rw [Code.operands_append, Code.operands_push, List.append_assoc]
    exact List.rel_append hcode (.cons hplace hothers)

/-- An operation that takes the value of an expression stands behind the code of the expression. -/
theorem standFor_push_of_lowerExpr {expr : Expr} {place : Storage}
    (h : (lowerExpr env expr).Yields before (code, place) after)
    (hfit : after.temporaries ≤ 2 ^ 32) (hpool : Supply.Registered pool before after)
    (operation : Operation) (hoperands : operation.operands = [place]) :
    StandFor env pool (code.push operation).operands (expr.consumed env ++ [expr]) := by
  obtain ⟨hcode, hplace⟩ := standFor_of_lowerExpr h hfit hpool
  rw [Code.operands_push, hoperands]
  exact List.rel_append hcode (.cons hplace .nil)

/-- The operands in the code of a statement stand for what its instructions take. -/
theorem standFor_of_lowerStmt {stmt : Stmt} (h : (lowerStmt env stmt).Yields before code after)
    (hfit : after.temporaries ≤ 2 ^ 32) (hpool : Supply.Registered pool before after) :
    StandFor env pool code.operands (stmt.consumed env) := by
  -- that numbers only grow is carried along, so that a part has the texts registered for it
  suffices h : before.Drawn after ∧ (after.temporaries ≤ 2 ^ 32 →
      Supply.Registered pool before after →
        StandFor env pool code.operands (stmt.consumed env)) from
    h.2 hfit hpool
  refine lowerStmt_induction
    (P := fun stmt before code after => before.Drawn after ∧ (after.temporaries ≤ 2 ^ 32 →
      Supply.Registered pool before after →
        StandFor env pool code.operands (stmt.consumed env)))
    (Q := fun body before code after => before.Drawn after ∧ (after.temporaries ≤ 2 ^ 32 →
      Supply.Registered pool before after →
        StandFor env pool code.operands (Stmt.consumedAll env body)))
    ?assign ?assignElement ?print ?ret ?ifThen ?ifElse ?loop ?block ?empty ?nil ?cons h
  case assign =>
    intro target value before code source after hvalue
    refine ⟨(straightLine_of_yields hvalue).drawn, fun hfit hpool => ?_⟩
    exact standFor_push_of_lowerExpr hvalue hfit hpool _ rfl
  case assignElement =>
    intro array index value before valueCode source middle indexCode place after hvalue hindex
    have hfirst := (straightLine_of_yields hvalue).drawn
    have hsecond := (straightLine_of_yields hindex).drawn
    refine ⟨hfirst.trans hsecond, fun hfit hpool => ?_⟩
    have hgrow := hsecond.temporaries_le
    obtain ⟨hcode, hsource⟩ := standFor_of_lowerExpr hvalue (hgrow.trans hfit)
      (hsecond.registered_left hfit hpool)
    obtain ⟨hcode', hplace⟩ := standFor_of_lowerExpr hindex hfit (hfirst.registered_right hpool)
    rw [Code.operands_push, Code.operands_append]
    exact List.rel_append (List.rel_append hcode hcode') (.cons hsource (.cons hplace .nil))
  case print | ret =>
    intro value before code source after hvalue
    refine ⟨(straightLine_of_yields hvalue).drawn, fun hfit hpool => ?_⟩
    exact standFor_push_of_lowerExpr hvalue hfit hpool _ rfl
  case ifThen =>
    rintro condition positive before test place middle branch after htest ⟨hdrawn, hbranch⟩
    have hfirst := (straightLine_of_yields htest).drawn
    refine ⟨hfirst.label.trans hdrawn, fun hfit hpool => ?_⟩
    have hgrow := hdrawn.temporaries_le
    have hpool' := (Supply.Drawn.refl.label.trans hdrawn).registered_left hfit hpool
    have hcode := standFor_push_of_lowerExpr htest (hgrow.trans hfit) hpool'
      (.jumpIfFalse place (.numbered middle.labels)) rfl
    simpa [StandFor, Stmt.consumed] using
      List.rel_append hcode (hbranch hfit (hfirst.label.registered_right hpool))
  case ifElse =>
    rintro condition positive negative before test place middle branch last alternative after htest
      ⟨hdrawn, hbranch⟩ ⟨hdrawn', halternative⟩
    have hfirst := (straightLine_of_yields htest).drawn
    refine ⟨(hfirst.label.label.trans hdrawn).trans hdrawn', fun hfit hpool => ?_⟩
    have hgrow' := hdrawn'.temporaries_le
    have hgrow := hdrawn.temporaries_le.trans hgrow'
    have hpool' := hdrawn'.registered_left hfit hpool
    have hrest := (Supply.Drawn.refl.label.label.trans hdrawn).trans hdrawn'
    have hcode := standFor_push_of_lowerExpr htest (hgrow.trans hfit)
      (hrest.registered_left hfit hpool)
      (.jumpIfFalse place (.numbered middle.labels)) rfl
    have hboth := List.rel_append hcode (List.rel_append
      (hbranch (hgrow'.trans hfit) (hfirst.label.label.registered_right hpool'))
      (halternative hfit ((hfirst.label.label.trans hdrawn).registered_right hpool)))
    simpa [StandFor, Stmt.consumed, Operation.operands] using hboth
  case loop =>
    rintro condition body before test place middle round after htest ⟨hdrawn, hround⟩
    have hfirst := Supply.Drawn.refl.label.label.trans (straightLine_of_yields htest).drawn
    refine ⟨hfirst.trans hdrawn, fun hfit hpool => ?_⟩
    have hgrow := hdrawn.temporaries_le
    have hpool' := Supply.Drawn.registered_right (.label (.label .refl))
      (hdrawn.registered_left hfit hpool)
    have hcode := standFor_push_of_lowerExpr htest (hgrow.trans hfit) hpool'
      (.jumpIfFalse place (.numbered (before.labels + 1))) rfl
    simpa [StandFor, Stmt.consumed, Operation.operands] using
      List.rel_append hcode (hround hfit (hfirst.registered_right hpool))
  case block => exact fun _ _ _ _ h => h
  case empty => exact fun _ => ⟨.refl, fun _ _ => .nil⟩
  case nil => exact fun _ => ⟨.refl, fun _ _ => .nil⟩
  case cons =>
    rintro stmt rest before first middle others after ⟨hdrawn, hfirst⟩ ⟨hdrawn', hothers⟩
    refine ⟨hdrawn.trans hdrawn', fun hfit hpool => ?_⟩
    rw [Code.operands_append]
    exact List.rel_append
      (hfirst (hdrawn'.temporaries_le.trans hfit) (hdrawn'.registered_left hfit hpool))
      (hothers hfit (hdrawn.registered_right hpool))

end Lowering

end ThreeAddress
