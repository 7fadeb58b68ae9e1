import ThreeAddress.Lowering.Program

/-!
# What a successful step of lowering did

Lowering is a sequence of steps that may fail. This module says, construct by construct, what
must have happened when lowering one succeeds: which parts were lowered from which supply, and
how the code is put together. Two induction principles follow the same cases, so that a fact
about all lowered code is proved by giving one argument for each construct.
-/

namespace ThreeAddress

/-- The temporary with a number; numbers repeat only after thirty-two bits. -/
def Temporary.numbered (number : Nat) : Temporary := ⟨UInt32.ofNat number⟩

/-- The label with a number; numbers repeat only after thirty-two bits. -/
def Label.numbered (number : Nat) : Label := ⟨UInt32.ofNat number⟩

namespace Supply

/-- The supply after one temporary has been taken. -/
def afterTemporary (supply : Supply) : Supply :=
  { supply with temporaries := supply.temporaries + 1 }

/-- The supply after one label has been taken. -/
def afterLabel (supply : Supply) : Supply :=
  { supply with labels := supply.labels + 1 }

/-- The supply after a temporary has been taken to name a string constant. -/
def afterString (supply : Supply) (text : String) : Supply :=
  { supply with
    temporaries := supply.temporaries + 1
    strings := supply.strings.insert (.numbered supply.temporaries) text }

end Supply

/-- The literal that a constant was written as. -/
def Immediate.literal : Immediate → Literal
  | .int value => .int value
  | .float value => .float value
  | .char value => .char value

namespace LowerM

/-- A step of lowering succeeds: from one supply it yields a result and leaves another. -/
def Yields (step : LowerM α) (before : Supply) (result : α) (after : Supply) : Prop :=
  step.runOn before = (.ok result, after)

/-- A step succeeds in one way only. -/
theorem Yields.unique {step : LowerM α} {before after after' : Supply} {result result' : α}
    (h : step.Yields before result after) (h' : step.Yields before result' after') :
    result = result' ∧ after = after' := by
  have heq := h.symm.trans h'
  simpa using heq

/-- A sequence succeeds exactly if both steps do, the second on what the first left. -/
theorem yields_bind_iff {first : LowerM α} {second : α → LowerM β} {before after : Supply}
    {result : β} :
    (first >>= second).Yields before result after ↔
      ∃ value middle, first.Yields before value middle ∧
        (second value).Yields middle result after := by
  unfold Yields
  rw [runOn_bind]
  constructor
  · intro h
    split at h
    · next value middle hfirst => exact ⟨value, middle, hfirst, h⟩
    · simp at h
  · rintro ⟨value, middle, hfirst, hsecond⟩
    rw [hfirst]
    exact hsecond

/-- A step that only yields a value takes nothing. -/
theorem yields_pure_iff {value result : α} {before after : Supply} :
    (pure value : LowerM α).Yields before result after ↔ result = value ∧ after = before := by
  simp [Yields, eq_comm]

/-- Looking a called name up takes nothing. -/
theorem yields_lift_iff {value : Except LoweringError α} {result : α} {before after : Supply} :
    LowerM.Yields (ExceptT.mk (pure value)) before result after ↔
      value = .ok result ∧ after = before := by
  change (value, before) = (.ok result, after) ↔ _
  simp [eq_comm]

/-- A temporary is numbered by those taken before it. -/
theorem yields_takeTemporary_iff {before after : Supply} {result : Temporary} :
    takeTemporary.Yields before result after ↔
      result = .numbered before.temporaries ∧ after = before.afterTemporary := by
  simp [Yields, Temporary.numbered, Supply.afterTemporary, eq_comm]

/-- A label is numbered by those taken before it. -/
theorem yields_takeLabel_iff {before after : Supply} {result : Label} :
    takeLabel.Yields before result after ↔
      result = .numbered before.labels ∧ after = before.afterLabel := by
  simp [Yields, Label.numbered, Supply.afterLabel, eq_comm]

/-- A place is a fresh temporary. -/
theorem yields_takePlace_iff {before after : Supply} {result : Storage} :
    takePlace.Yields before result after ↔
      result = .temporary (.numbered before.temporaries) ∧ after = before.afterTemporary := by
  simp only [takePlace, yields_bind_iff, yields_takeTemporary_iff, yields_pure_iff]
  grind

end LowerM

open LowerM

-- every inversion below opens one equation of these
attribute [local simp] lowerExpr lowerArgs lowerStmt lowerStmts

section Expressions

variable {env : Environment} {before after : Supply} {code : Code} {place : Storage}

/-- A number or a character is its own operand. -/
theorem yields_constant_iff (value : Immediate) :
    (lowerExpr env (.literal value.literal)).Yields before (code, place) after ↔
      code = [] ∧ place = .constant value ∧ after = before := by
  cases value <;>
    simp only [Immediate.literal, lowerExpr, lowerLiteral, yields_bind_iff, yields_pure_iff] <;>
    grind

/-- A string literal takes a number, registers its text and is used by its address. -/
theorem yields_string_iff {text : String} :
    (lowerExpr env (.literal (.string text))).Yields before (code, place) after ↔
      code = [] ∧ place = .string (.numbered before.temporaries) ∧
        after = before.afterString text := by
  have hregister : ∀ (id : Temporary) (supply left : Supply) (result : Unit),
      (registerString id text).Yields supply result left ↔
        left = { supply with strings := supply.strings.insert id text } := by
    intro id supply left result
    change (Except.ok (), _) = ((Except.ok result : Except LoweringError Unit), left) ↔ _
    simp [eq_comm]
  simp only [lowerExpr, lowerLiteral, yields_bind_iff, yields_pure_iff,
    yields_takeTemporary_iff, hregister, Supply.afterString, Supply.afterTemporary]
  grind

/-- A name is its own place. -/
theorem yields_scalar_iff {name : String} :
    (lowerExpr env (.scalar name)).Yields before (code, place) after ↔
      code = [] ∧ place = env.placeOf name ∧ after = before := by
  simp only [lowerExpr, yields_pure_iff]
  grind

/-- An element is copied into a fresh temporary once its index is computed. -/
theorem yields_element_iff {array : String} {index : Expr} :
    (lowerExpr env (.element array index)).Yields before (code, place) after ↔
      ∃ indexCode indexPlace middle,
        (lowerExpr env index).Yields before (indexCode, indexPlace) middle ∧
        place = .temporary (.numbered middle.temporaries) ∧
        code = indexCode.push (.copyFromArray place array indexPlace) ∧
        after = middle.afterTemporary := by
  simp only [lowerExpr, yields_bind_iff, yields_pure_iff, yields_takePlace_iff]
  grind

/-- A call evaluates its arguments into the parameters of what the name means. -/
theorem yields_call_iff {function : String} {args : List Expr} :
    (lowerExpr env (.call function args)).Yields before (code, place) after ↔
      ∃ params argsCode middle,
        env.callee function = .ok params ∧
        (lowerArgs env function args params).Yields before argsCode middle ∧
        place = .temporary (.numbered middle.temporaries) ∧
        code = argsCode.push (.call function place) ∧
        after = middle.afterTemporary := by
  simp only [lowerExpr, yields_bind_iff, yields_pure_iff, yields_takePlace_iff, yields_lift_iff]
  grind

/-- Input is read into a fresh temporary. -/
theorem yields_input_iff {type : ScalarType} :
    (lowerExpr env (.input type)).Yields before (code, place) after ↔
      place = .temporary (.numbered before.temporaries) ∧
        code = Code.ofOperation (.input type place) ∧ after = before.afterTemporary := by
  simp only [lowerExpr, yields_bind_iff, yields_pure_iff, yields_takePlace_iff]
  grind

/-- The operands are computed from left to right and combined into a fresh temporary. -/
theorem yields_binary_iff {op : BinaryOp} {lhs rhs : Expr} :
    (lowerExpr env (.binary op lhs rhs)).Yields before (code, place) after ↔
      ∃ leftCode left middle rightCode right last,
        (lowerExpr env lhs).Yields before (leftCode, left) middle ∧
        (lowerExpr env rhs).Yields middle (rightCode, right) last ∧
        place = .temporary (.numbered last.temporaries) ∧
        code = (leftCode ++ rightCode).push (.binary op place left right) ∧
        after = last.afterTemporary := by
  simp only [lowerExpr, yields_bind_iff, yields_pure_iff, yields_takePlace_iff]
  grind

/-- An argument is computed and copied into its parameter before the next one is looked at. -/
theorem yields_args_cons_iff {function : String} {arg : Expr} {args : List Expr} {param : Param}
    {params : List Param} :
    (lowerArgs env function (arg :: args) (param :: params)).Yields before code after ↔
      ∃ argCode source middle restCode,
        (lowerExpr env arg).Yields before (argCode, source) middle ∧
        (lowerArgs env function args params).Yields middle restCode after ∧
        code = argCode.push (.copy (.parameter function param.name) source) ++ restCode := by
  simp only [lowerArgs, yields_bind_iff, yields_pure_iff]
  grind

/-- Without an argument or without a parameter there is nothing to do. -/
theorem yields_args_nil_iff {function : String} {args : List Expr} {params : List Param}
    (h : args = [] ∨ params = []) :
    (lowerArgs env function args params).Yields before code after ↔
      code = [] ∧ after = before := by
  rcases h with rfl | rfl
  · simp only [lowerArgs, yields_pure_iff]
  · cases args <;> simp only [lowerArgs, yields_pure_iff]

end Expressions

section Statements

variable {env : Environment} {before after : Supply} {code : Code}

/-- An assignment copies the value into the place of its target. -/
theorem yields_assign_iff {target : String} {value : Expr} :
    (lowerStmt env (.assign target value)).Yields before code after ↔
      ∃ valueCode source, (lowerExpr env value).Yields before (valueCode, source) after ∧
        code = valueCode.push (.copy (env.placeOf target) source) := by
  simp only [lowerStmt, yields_bind_iff, yields_pure_iff]
  grind

/-- An assignment to an element computes the value before the index. -/
theorem yields_assignElement_iff {array : String} {index value : Expr} :
    (lowerStmt env (.assignElement array index value)).Yields before code after ↔
      ∃ valueCode source middle indexCode place,
        (lowerExpr env value).Yields before (valueCode, source) middle ∧
        (lowerExpr env index).Yields middle (indexCode, place) after ∧
        code = (valueCode ++ indexCode).push (.copyIntoArray array place source) := by
  simp only [lowerStmt, yields_bind_iff, yields_pure_iff]
  grind

/-- A value is computed and printed. -/
theorem yields_print_iff {value : Expr} :
    (lowerStmt env (.print value)).Yields before code after ↔
      ∃ valueCode source, (lowerExpr env value).Yields before (valueCode, source) after ∧
        code = valueCode.push (.print source) := by
  simp only [lowerStmt, yields_bind_iff, yields_pure_iff]
  grind

/-- A value is computed and returned. -/
theorem yields_ret_iff {value : Expr} :
    (lowerStmt env (.ret value)).Yields before code after ↔
      ∃ valueCode source, (lowerExpr env value).Yields before (valueCode, source) after ∧
        code = valueCode.push (.ret source) := by
  simp only [lowerStmt, yields_bind_iff, yields_pure_iff]
  grind

/-- A conditional without an alternative jumps behind its branch. -/
theorem yields_ifThen_iff {condition : Expr} {positive : Stmt} :
    (lowerStmt env (.ifThen condition positive)).Yields before code after ↔
      ∃ test place middle branch,
        (lowerExpr env condition).Yields before (test, place) middle ∧
        (lowerStmt env positive).Yields middle.afterLabel branch after ∧
        code = test.push (.jumpIfFalse place (.numbered middle.labels)) ++ branch
          ++ Code.landing (.numbered middle.labels) := by
  simp only [lowerStmt, yields_bind_iff, yields_pure_iff, yields_takeLabel_iff]
  grind

/-- A conditional with an alternative jumps to it, and from its first branch behind both. -/
theorem yields_ifElse_iff {condition : Expr} {positive negative : Stmt} :
    (lowerStmt env (.ifElse condition positive negative)).Yields before code after ↔
      ∃ test place middle branch last alternative,
        (lowerExpr env condition).Yields before (test, place) middle ∧
        (lowerStmt env positive).Yields middle.afterLabel.afterLabel branch last ∧
        (lowerStmt env negative).Yields last alternative after ∧
        code = test.push (.jumpIfFalse place (.numbered middle.labels))
          ++ branch.push (.jump (.numbered (middle.labels + 1)))
          ++ alternative.marked (.numbered middle.labels)
          ++ Code.landing (.numbered (middle.labels + 1)) := by
  have hlabels : ∀ supply : Supply, supply.afterLabel.labels = supply.labels + 1 := fun _ => rfl
  simp only [lowerStmt, yields_bind_iff, yields_pure_iff, yields_takeLabel_iff]
  grind

/-- A loop is marked at its test, and jumps back to it from the end of its body. -/
theorem yields_loop_iff {condition : Expr} {body : Stmt} :
    (lowerStmt env (.loop condition body)).Yields before code after ↔
      ∃ test place middle round,
        (lowerExpr env condition).Yields before.afterLabel.afterLabel (test, place) middle ∧
        (lowerStmt env body).Yields middle round after ∧
        code = (test.marked (.numbered before.labels)).push
            (.jumpIfFalse place (.numbered (before.labels + 1)))
          ++ round.push (.jump (.numbered before.labels))
          ++ Code.landing (.numbered (before.labels + 1)) := by
  have hlabels : ∀ supply : Supply, supply.afterLabel.labels = supply.labels + 1 := fun _ => rfl
  simp only [lowerStmt, yields_bind_iff, yields_pure_iff, yields_takeLabel_iff]
  grind

/-- A block is its members. -/
theorem yields_block_iff {body : List Stmt} :
    (lowerStmt env (.block body)).Yields before code after ↔
      (lowerStmts env body).Yields before code after := by
  rw [lowerStmt]

/-- A lone semicolon has no code. -/
theorem yields_empty_iff :
    (lowerStmt env .empty).Yields before code after ↔ code = [] ∧ after = before := by
  simp only [lowerStmt, yields_pure_iff]

/-- No members have no code. -/
theorem yields_stmts_nil_iff :
    (lowerStmts env []).Yields before code after ↔ code = [] ∧ after = before := by
  simp only [lowerStmts, yields_pure_iff]

/-- The code of a member is followed by the code of the others. -/
theorem yields_stmts_cons_iff {stmt : Stmt} {rest : List Stmt} :
    (lowerStmts env (stmt :: rest)).Yields before code after ↔
      ∃ first middle others, (lowerStmt env stmt).Yields before first middle ∧
        (lowerStmts env rest).Yields middle others after ∧ code = first ++ others := by
  simp only [lowerStmts, yields_bind_iff, yields_pure_iff]
  grind

end Statements

section Programs

variable {scope : Scope} {before after : Supply} {code : Code}

/-- The code of a body stands between its entry and its end. -/
theorem yields_implementation_iff {implementation : Implementation} :
    (lowerImplementation scope implementation).Yields before code after ↔
      ∃ body, (lowerStmt (.inside scope implementation.name) implementation.body).Yields
          before body after ∧
        code = (Code.ofOperation (.enter implementation.name) ++ body).push .leave := by
  simp only [lowerImplementation, yields_bind_iff, yields_pure_iff]
  grind

/-- No bodies have no code. -/
theorem yields_implementations_nil_iff :
    (lowerImplementations scope []).Yields before code after ↔ code = [] ∧ after = before := by
  simp only [lowerImplementations, yields_pure_iff]

/-- The code of a body is followed by the code of the others. -/
theorem yields_implementations_cons_iff {implementation : Implementation}
    {rest : List Implementation} :
    (lowerImplementations scope (implementation :: rest)).Yields before code after ↔
      ∃ first middle others,
        (lowerImplementation scope implementation).Yields before first middle ∧
        (lowerImplementations scope rest).Yields middle others after ∧
        code = first ++ others := by
  simp only [lowerImplementations, yields_bind_iff, yields_pure_iff]
  grind

/-- A program lowers exactly if its bodies do, from a full supply. -/
theorem Program.lower_eq_ok_iff {program : Program} {unit : CodeUnit} :
    program.lower = .ok unit ↔
      ∃ code after, (lowerImplementations ⟨program.decls⟩ program.implementations).Yields
          .full code after ∧ unit = ⟨program.decls, after.strings, code⟩ := by
  unfold Program.lower LowerM.Yields
  split
  · next code supply h =>
    rw [h]
    constructor
    · intro hunit
      exact ⟨code, supply, rfl, (Except.ok.inj hunit).symm⟩
    · rintro ⟨code', supply', heq, rfl⟩
      simp_all
  · next error supply h => simp [h]

/-- The supply that is left when the bodies of a program have been lowered. -/
def Program.supply (program : Program) : Supply :=
  ((lowerImplementations ⟨program.decls⟩ program.implementations).runOn .full).2

/-- The supply of a program is the one that its bodies leave. -/
theorem Program.supply_eq {program : Program}
    (h : (lowerImplementations ⟨program.decls⟩ program.implementations).Yields .full code after) :
    program.supply = after := by
  rw [Program.supply, h]

end Programs

section Induction

variable {env : Environment}

/-- What holds of every construct once it holds of the parts holds of all lowered expressions.
The second predicate is about the arguments of a call. -/
theorem lowerExpr_induction {P : Expr → Supply → Code → Storage → Supply → Prop}
    {Q : String → List Expr → List Param → Supply → Code → Supply → Prop}
    (constant : ∀ value supply, P (.literal value.literal) supply [] (.constant value) supply)
    (string : ∀ text supply, P (.literal (.string text)) supply []
      (.string (.numbered supply.temporaries)) (supply.afterString text))
    (scalar : ∀ name supply, P (.scalar name) supply [] (env.placeOf name) supply)
    (element : ∀ array index before code place after,
      (lowerExpr env index).Yields before (code, place) after →
      P index before code place after →
      P (.element array index) before
        (code.push (.copyFromArray (.temporary (.numbered after.temporaries)) array place))
        (.temporary (.numbered after.temporaries)) after.afterTemporary)
    (call : ∀ function args params before code after, env.callee function = .ok params →
      (lowerArgs env function args params).Yields before code after →
      Q function args params before code after →
      P (.call function args) before
        (code.push (.call function (.temporary (.numbered after.temporaries))))
        (.temporary (.numbered after.temporaries)) after.afterTemporary)
    (input : ∀ type supply, P (.input type) supply
      (Code.ofOperation (.input type (.temporary (.numbered supply.temporaries))))
      (.temporary (.numbered supply.temporaries)) supply.afterTemporary)
    (binary : ∀ op lhs rhs before leftCode left middle rightCode right after,
      (lowerExpr env lhs).Yields before (leftCode, left) middle →
      (lowerExpr env rhs).Yields middle (rightCode, right) after →
      P lhs before leftCode left middle → P rhs middle rightCode right after →
      P (.binary op lhs rhs) before
        ((leftCode ++ rightCode).push
          (.binary op (.temporary (.numbered after.temporaries)) left right))
        (.temporary (.numbered after.temporaries)) after.afterTemporary)
    (surplus : ∀ function args params supply, args = [] ∨ params = [] →
      Q function args params supply [] supply)
    (argument : ∀ function arg args (param : Param) params before argCode source middle rest
      after,
      (lowerExpr env arg).Yields before (argCode, source) middle →
      (lowerArgs env function args params).Yields middle rest after →
      P arg before argCode source middle → Q function args params middle rest after →
      Q function (arg :: args) (param :: params) before
        (argCode.push (.copy (.parameter function param.name) source) ++ rest) after)
    {expr : Expr} {before after : Supply} {code : Code} {place : Storage}
    (h : (lowerExpr env expr).Yields before (code, place) after) :
    P expr before code place after := by
  induction expr generalizing before code place after with
  | literal value =>
    have himmediate : ∀ value : Immediate,
        (lowerExpr env (.literal value.literal)).Yields before (code, place) after →
          P (.literal value.literal) before code place after := by
      intro value h
      obtain ⟨rfl, rfl, rfl⟩ := (yields_constant_iff value).mp h
      exact constant value after
    cases value with
    | int value => exact himmediate (.int value) h
    | float value => exact himmediate (.float value) h
    | char value => exact himmediate (.char value) h
    | string text =>
      obtain ⟨rfl, rfl, rfl⟩ := yields_string_iff.mp h
      exact string text before
  | scalar name =>
    obtain ⟨rfl, rfl, rfl⟩ := yields_scalar_iff.mp h
    exact scalar name after
  | element array index ih =>
    obtain ⟨indexCode, indexPlace, middle, hindex, rfl, rfl, rfl⟩ := yields_element_iff.mp h
    exact element array index before indexCode indexPlace middle hindex (ih hindex)
  | call function args ih =>
    obtain ⟨params, argsCode, middle, hcallee, hargs, rfl, rfl, rfl⟩ := yields_call_iff.mp h
    refine call function args params before argsCode middle hcallee hargs ?_
    clear h hcallee
    -- the arguments are lowered along both lists, so the induction is on one of them
    induction args generalizing params before argsCode with
    | nil =>
      obtain ⟨rfl, rfl⟩ := (yields_args_nil_iff (.inl rfl)).mp hargs
      exact surplus function [] params middle (.inl rfl)
    | cons arg args ihargs =>
      cases params with
      | nil =>
        obtain ⟨rfl, rfl⟩ := (yields_args_nil_iff (.inr rfl)).mp hargs
        exact surplus function (arg :: args) [] middle (.inr rfl)
      | cons param params =>
        obtain ⟨argCode, source, last, rest, harg, hrest, rfl⟩ := yields_args_cons_iff.mp hargs
        exact argument function arg args param params before argCode source last rest middle harg
          hrest (ih arg List.mem_cons_self harg)
          (ihargs (fun other hother => ih other (List.mem_cons_of_mem arg hother)) params rest
            hrest)
  | input type =>
    obtain ⟨rfl, rfl, rfl⟩ := yields_input_iff.mp h
    exact input type before
  | binary op lhs rhs ihl ihr =>
    obtain ⟨leftCode, left, middle, rightCode, right, last, hl, hr, rfl, rfl, rfl⟩ :=
      yields_binary_iff.mp h
    exact binary op lhs rhs before leftCode left middle rightCode right last hl hr (ihl hl) (ihr hr)

/-- What holds of every construct once it holds of the parts holds of all lowered statements.
The second predicate is about the members of a block. -/
theorem lowerStmt_induction {P : Stmt → Supply → Code → Supply → Prop}
    {Q : List Stmt → Supply → Code → Supply → Prop}
    (assign : ∀ target value before code source after,
      (lowerExpr env value).Yields before (code, source) after →
      P (.assign target value) before (code.push (.copy (env.placeOf target) source)) after)
    (assignElement : ∀ array index value before valueCode source middle indexCode place after,
      (lowerExpr env value).Yields before (valueCode, source) middle →
      (lowerExpr env index).Yields middle (indexCode, place) after →
      P (.assignElement array index value) before
        ((valueCode ++ indexCode).push (.copyIntoArray array place source)) after)
    (print : ∀ value before code source after,
      (lowerExpr env value).Yields before (code, source) after →
      P (.print value) before (code.push (.print source)) after)
    (ret : ∀ value before code source after,
      (lowerExpr env value).Yields before (code, source) after →
      P (.ret value) before (code.push (.ret source)) after)
    (ifThen : ∀ condition positive before test place middle branch after,
      (lowerExpr env condition).Yields before (test, place) middle →
      P positive middle.afterLabel branch after →
      P (.ifThen condition positive) before
        (test.push (.jumpIfFalse place (.numbered middle.labels)) ++ branch
          ++ Code.landing (.numbered middle.labels)) after)
    (ifElse : ∀ condition positive negative before test place middle branch last alternative
      after,
      (lowerExpr env condition).Yields before (test, place) middle →
      P positive middle.afterLabel.afterLabel branch last → P negative last alternative after →
      P (.ifElse condition positive negative) before
        (test.push (.jumpIfFalse place (.numbered middle.labels))
          ++ branch.push (.jump (.numbered (middle.labels + 1)))
          ++ alternative.marked (.numbered middle.labels)
          ++ Code.landing (.numbered (middle.labels + 1))) after)
    (loop : ∀ condition body before test place middle round after,
      (lowerExpr env condition).Yields before.afterLabel.afterLabel (test, place) middle →
      P body middle round after →
      P (.loop condition body) before
        ((test.marked (.numbered before.labels)).push
            (.jumpIfFalse place (.numbered (before.labels + 1)))
          ++ round.push (.jump (.numbered before.labels))
          ++ Code.landing (.numbered (before.labels + 1))) after)
    (block : ∀ body before code after, Q body before code after →
      P (.block body) before code after)
    (empty : ∀ supply, P .empty supply [] supply)
    (nil : ∀ supply, Q [] supply [] supply)
    (cons : ∀ stmt rest before first middle others after,
      P stmt before first middle → Q rest middle others after →
      Q (stmt :: rest) before (first ++ others) after)
    {stmt : Stmt} {before after : Supply} {code : Code}
    (h : (lowerStmt env stmt).Yields before code after) : P stmt before code after := by
  induction stmt generalizing before code after with
  | assign target value =>
    obtain ⟨valueCode, source, hvalue, rfl⟩ := yields_assign_iff.mp h
    exact assign target value before valueCode source after hvalue
  | assignElement array index value =>
    obtain ⟨valueCode, source, middle, indexCode, place, hvalue, hindex, rfl⟩ :=
      yields_assignElement_iff.mp h
    exact assignElement array index value before valueCode source middle indexCode place after
      hvalue hindex
  | print value =>
    obtain ⟨valueCode, source, hvalue, rfl⟩ := yields_print_iff.mp h
    exact print value before valueCode source after hvalue
  | ret value =>
    obtain ⟨valueCode, source, hvalue, rfl⟩ := yields_ret_iff.mp h
    exact ret value before valueCode source after hvalue
  | ifThen condition positive ih =>
    obtain ⟨test, place, middle, branch, htest, hbranch, rfl⟩ := yields_ifThen_iff.mp h
    exact ifThen condition positive before test place middle branch after htest (ih hbranch)
  | ifElse condition positive negative ihp ihn =>
    obtain ⟨test, place, middle, branch, last, alternative, htest, hbranch, halternative,
      rfl⟩ := yields_ifElse_iff.mp h
    exact ifElse condition positive negative before test place middle branch last alternative after
      htest (ihp hbranch) (ihn halternative)
  | loop condition body ih =>
    obtain ⟨test, place, middle, round, htest, hround, rfl⟩ := yields_loop_iff.mp h
    exact loop condition body before test place middle round after htest (ih hround)
  | block body ih =>
    refine block body before code after ?_
    replace h := yields_block_iff.mp h
    induction body generalizing before code with
    | nil =>
      obtain ⟨rfl, rfl⟩ := yields_stmts_nil_iff.mp h
      exact nil after
    | cons stmt rest ihrest =>
      obtain ⟨first, middle, others, hfirst, hothers, rfl⟩ := yields_stmts_cons_iff.mp h
      exact cons stmt rest before first middle others after (ih stmt List.mem_cons_self hfirst)
        (ihrest (fun other hother => ih other (List.mem_cons_of_mem stmt hother)) hothers)
  | empty =>
    obtain ⟨rfl, rfl⟩ := yields_empty_iff.mp h
    exact empty after

end Induction

end ThreeAddress
