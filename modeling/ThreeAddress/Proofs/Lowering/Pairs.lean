import ThreeAddress.Proofs.Lowering.SingleUse

/-!
# Operations on two values

Two operations take two values: a binary operator combines them, and an assignment to an element of
an array stores the first where the second says. The operands of such an operation are computed one
after the other, the second between the first and the operation itself. Nothing but an assignment
writes a global variable, and none is written while an expression is computed, apart from what it
calls.
-/

namespace ThreeAddress

open LowerM

mutual

/-- A statement and all statements inside it. -/
def Stmt.parts : Stmt → List Stmt
  | .ifThen condition positive => .ifThen condition positive :: positive.parts
  | .ifElse condition positive negative =>
    .ifElse condition positive negative :: (positive.parts ++ negative.parts)
  | .loop condition body => .loop condition body :: body.parts
  | .block body => .block body :: Stmt.partsAll body
  | stmt => [stmt]

/-- The members of a block and all statements inside them. -/
def Stmt.partsAll : List Stmt → List Stmt
  | [] => []
  | stmt :: rest => stmt.parts ++ Stmt.partsAll rest

end

/-- The statements inside a block are those inside its members. -/
theorem Stmt.mem_partsAll {body : List Stmt} {part : Stmt} :
    part ∈ Stmt.partsAll body ↔ ∃ stmt ∈ body, part ∈ stmt.parts := by
  induction body with
  | nil => simp [partsAll]
  | cons stmt rest ih => simp [partsAll, ih]

/-- The expressions of a block are those of its members. -/
theorem Stmt.mem_exprsAll {body : List Stmt} {expr : Expr} :
    expr ∈ Stmt.exprsAll body ↔ ∃ stmt ∈ body, expr ∈ stmt.exprs := by
  induction body with
  | nil => simp [exprsAll]
  | cons stmt rest ih => simp [exprsAll, ih]

/-- What is evaluated with arguments is evaluated with one of them. -/
theorem Expr.exists_of_mem_evaluatedArgs {env : Environment} {args : List Expr} {count : Nat}
    {inner : Expr} (h : inner ∈ Expr.evaluatedArgs env args count) :
    ∃ arg ∈ args, inner ∈ arg.evaluated env := by
  induction args generalizing count with
  | nil => simp [evaluatedArgs] at h
  | cons arg args ih =>
    cases count with
    | zero => simp [evaluatedArgs] at h
    | succ count =>
      rcases List.mem_append.mp h with h | h
      · exact ⟨arg, List.mem_cons_self, h⟩
      · obtain ⟨other, hother, hinner⟩ := ih h
        exact ⟨other, List.mem_cons_of_mem arg hother, hinner⟩

/-- The expressions of a statement inside another are expressions of that other. -/
theorem Stmt.exprs_subset_of_mem_parts {stmt part : Stmt} (h : part ∈ stmt.parts) :
    part.exprs ⊆ stmt.exprs := by
  induction stmt with
  | assign | assignElement | print | ret | empty =>
    rw [List.mem_singleton.mp h]
    exact List.Subset.refl _
  | ifThen condition positive ih | loop condition positive ih =>
    rcases List.mem_cons.mp h with rfl | h
    · exact List.Subset.refl _
    · exact List.Subset.trans (ih h) (List.subset_cons_self _ _)
  | ifElse condition positive negative ihp ihn =>
    rcases List.mem_cons.mp h with rfl | h
    · exact List.Subset.refl _
    rcases List.mem_append.mp h with h | h
    · exact List.Subset.trans (List.Subset.trans (ihp h) (List.subset_cons_self _ _))
        (List.subset_append_left _ _)
    · exact List.Subset.trans (ihn h) (List.subset_append_right _ _)
  | block body ih =>
    rcases List.mem_cons.mp h with rfl | h
    · exact List.Subset.refl _
    obtain ⟨stmt, hstmt, hpart⟩ := Stmt.mem_partsAll.mp h
    intro expr hexpr
    exact Stmt.mem_exprsAll.mpr ⟨stmt, hstmt, ih stmt hstmt hpart hexpr⟩

/-- An expression that is evaluated with another has its calls. -/
theorem Expr.calls_subset_of_mem_evaluated {env : Environment} {expr inner : Expr}
    (h : inner ∈ expr.evaluated env) : inner.calls ⊆ expr.calls := by
  induction expr with
  | literal | scalar | input =>
    rw [List.mem_singleton.mp h]
    exact List.Subset.refl _
  | element array index ih =>
    rcases List.mem_append.mp h with h | h
    · exact ih h
    · rw [List.mem_singleton.mp h]
      exact List.Subset.refl _
  | call function args ih =>
    rcases List.mem_append.mp h with h | h
    · obtain ⟨arg, harg, hinner⟩ := Expr.exists_of_mem_evaluatedArgs h
      intro call hcall
      exact List.mem_append_left _
        (Expr.mem_callsAll.mpr ⟨arg, harg, ih arg harg hinner hcall⟩)
    · rw [List.mem_singleton.mp h]
      exact List.Subset.refl _
  | binary op lhs rhs ihl ihr =>
    rcases List.mem_append.mp h with h | h
    · rcases List.mem_append.mp h with h | h
      · exact List.Subset.trans (ihl h) (List.subset_append_left _ _)
      · exact List.Subset.trans (ihr h) (List.subset_append_right _ _)
    · rw [List.mem_singleton.mp h]
      exact List.Subset.refl _

/-- An operation takes its two values from expressions of the source: the operands of a binary
operator, or the value and the index of an assignment to an element. -/
inductive Operation.TakesFrom (exprs : List Expr) (parts : List Stmt) :
    Operation → Expr → Expr → Prop
  | combine {op : BinaryOp} {first second : Expr} {destination left right : Storage}
      (hmem : .binary op first second ∈ exprs) :
      TakesFrom exprs parts (.binary op destination left right) first second
  | store {array : String} {first second : Expr} {place source : Storage}
      (hmem : .assignElement array second first ∈ parts) :
      TakesFrom exprs parts (.copyIntoArray array place source) first second

/-- With more expressions and statements, there is more to take values from. -/
theorem Operation.TakesFrom.mono {exprs exprs' : List Expr} {parts parts' : List Stmt}
    {operation : Operation} {first second : Expr}
    (h : operation.TakesFrom exprs parts first second) (hexprs : exprs ⊆ exprs')
    (hparts : parts ⊆ parts') : operation.TakesFrom exprs' parts' first second := by
  cases h with
  | combine hmem => exact .combine (hexprs hmem)
  | store hmem => exact .store (hparts hmem)

/-- What an operation takes its values from makes no other calls than the source. -/
theorem Operation.TakesFrom.calls_subset {env : Environment} {stmt : Stmt} {operation : Operation}
    {first second : Expr}
    (h : operation.TakesFrom (stmt.exprs.flatMap (Expr.evaluated env)) stmt.parts first second) :
    first.calls ⊆ stmt.calls ∧ second.calls ⊆ stmt.calls := by
  have hexpr : ∀ expr ∈ stmt.exprs, expr.calls ⊆ stmt.calls := fun expr hexpr call hcall =>
    Expr.mem_callsAll.mpr ⟨expr, hexpr, hcall⟩
  cases h with
  | combine hmem =>
    obtain ⟨expr, hmem, hevaluated⟩ := List.mem_flatMap.mp hmem
    have hsub := List.Subset.trans (Expr.calls_subset_of_mem_evaluated hevaluated) (hexpr expr hmem)
    exact ⟨List.Subset.trans (List.subset_append_left _ _) hsub,
      List.Subset.trans (List.subset_append_right _ _) hsub⟩
  | store hmem =>
    have hsub := Stmt.exprs_subset_of_mem_parts hmem
    exact ⟨hexpr first (hsub (by simp [Stmt.exprs])), hexpr second (hsub (by simp [Stmt.exprs]))⟩

/-- The operands of an operation are computed one after the other: up to a position the first, and
then the second, right before the operation. -/
structure OperandsComputed (env : Environment) (code : Code) (operation : Operation)
    (firstExpr secondExpr : Expr) (split : Nat) (rest : Code) (position : Nat) : Prop where
  computed : ∃ base before firstCode first middle second after,
    (lowerExpr env firstExpr).Yields before (firstCode, first) middle ∧
    (lowerExpr env secondExpr).Yields middle (rest, second) after ∧
    operation.operands = [first, second] ∧
    code.Located base ((firstCode ++ rest).push operation) ∧ split = base + firstCode.length
  position_eq : position = split + rest.length

/-- If an operation has two operands, they are computed one after the other from expressions that it
takes its values from. -/
def Code.PairComputed (env : Environment) (exprs : List Expr) (parts : List Stmt) (code : Code)
    (position : Nat) (operation : Operation) : Prop :=
  ∀ first second, operation.operands = [first, second] → ∃ firstExpr secondExpr split rest,
    operation.TakesFrom exprs parts firstExpr secondExpr ∧
      OperandsComputed env code operation firstExpr secondExpr split rest position

namespace Code.PairComputed

variable {env : Environment} {exprs : List Expr} {parts : List Stmt} {code : Code}

/-- Where the operands of an operation come from does not depend on the code around. -/
theorem isLocal (env : Environment) (exprs : List Expr) (parts : List Stmt) :
    IsLocal (PairComputed env exprs parts) := by
  intro code base part index operation hlocated h first second hoperands
  obtain ⟨firstExpr, secondExpr, split, rest, htakes, hcomputed⟩ := h first second hoperands
  obtain ⟨offset, before, firstCode, first', middle, second', after, hfirst, hsecond, hsame, hpart,
    rfl⟩ := hcomputed.computed
  refine ⟨firstExpr, secondExpr, base + (offset + firstCode.length), rest, htakes,
    ⟨base + offset, before, firstCode, first', middle, second', after, hfirst, hsecond, hsame,
      hlocated.trans hpart, (Nat.add_assoc _ _ _).symm⟩, ?_⟩
  rw [hcomputed.position_eq, Nat.add_assoc, Nat.add_assoc, Nat.add_assoc]

/-- An operation that has not two operands takes no pair of values. -/
theorem of_operands {position : Nat} {operation : Operation}
    (h : ∀ first second, operation.operands ≠ [first, second]) :
    code.PairComputed env exprs parts position operation :=
  fun first second hoperands => absurd hoperands (h first second)

/-- Behind the code of two expressions, an operation takes their values. -/
theorem of_yields {before middle after : Supply} {firstExpr secondExpr : Expr}
    {firstCode rest : Code} {first second : Storage} {operation : Operation}
    (hfirst : (lowerExpr env firstExpr).Yields before (firstCode, first) middle)
    (hsecond : (lowerExpr env secondExpr).Yields middle (rest, second) after)
    (hoperands : operation.operands = [first, second])
    (htakes : operation.TakesFrom exprs parts firstExpr secondExpr) :
    Code.PairComputed env exprs parts ((firstCode ++ rest).push operation)
      (firstCode ++ rest).length operation := by
  intro _ _ _
  exact ⟨firstExpr, secondExpr, firstCode.length, rest, htakes,
    ⟨0, before, firstCode, first, middle, second, after, hfirst, hsecond, hoperands, .self _,
      (Nat.zero_add _).symm⟩, List.length_append⟩

end Code.PairComputed

section Lowering

variable {env : Environment} {before after : Supply} {code : Code} {exprs : List Expr}
  {parts : List Stmt}

/-- Every pair of operands in the code of an expression is computed from what is evaluated. -/
theorem pairComputed_of_lowerExpr {expr : Expr} {place : Storage}
    (h : (lowerExpr env expr).Yields before (code, place) after)
    (hsub : expr.evaluated env ⊆ exprs) : code.Each (Code.PairComputed env exprs parts) := by
  have hlocal := Code.PairComputed.isLocal env exprs parts
  refine lowerExpr_induction
    (P := fun expr _ code _ _ => expr.evaluated env ⊆ exprs →
      code.Each (Code.PairComputed env exprs parts))
    (Q := fun _ args params _ code _ => Expr.evaluatedArgs env args params.length ⊆ exprs →
      code.Each (Code.PairComputed env exprs parts))
    ?constant ?string ?scalar ?element ?call ?input ?binary ?surplus ?argument h hsub
  case constant => exact fun _ _ _ => .nil
  case string => exact fun _ _ _ => .nil
  case scalar => exact fun _ _ _ => .nil
  case element =>
    intro array index before code place after _ hindex hsub
    exact (hindex (List.append_subset.mp hsub).1).push hlocal
      (.of_operands (by simp [Operation.operands]))
  case call =>
    intro function args params before code after hcallee _ hargs hsub
    rw [Expr.evaluated, Environment.arity, hcallee] at hsub
    exact (hargs (List.append_subset.mp hsub).1).push hlocal
      (.of_operands (by simp [Operation.operands]))
  case input =>
    intro type supply _
    exact Code.Each.nil.push hlocal (.of_operands (by simp [Operation.operands]))
  case binary =>
    intro op lhs rhs before leftCode left middle rightCode right after hyields hyields' hleft hright
      hsub
    obtain ⟨hsub, hself⟩ := List.append_subset.mp hsub
    obtain ⟨hsubLeft, hsubRight⟩ := List.append_subset.mp hsub
    exact ((hleft hsubLeft).append hlocal (hright hsubRight)).push hlocal
      (.of_yields hyields hyields' rfl (.combine (hself (List.mem_singleton_self _))))
  case surplus => exact fun _ _ _ _ _ _ => .nil
  case argument =>
    intro function arg args param params before argCode source middle rest after _ _ harg hrest hsub
    obtain ⟨hsubArg, hsubRest⟩ := List.append_subset.mp hsub
    exact ((harg hsubArg).push hlocal (.of_operands (by simp [Operation.operands]))).append hlocal
      (hrest hsubRest)

/-- Every pair of operands in the code of a statement is computed from what is evaluated, or from
what an assignment to an element stores. -/
theorem pairComputed_of_lowerStmt {stmt : Stmt}
    (h : (lowerStmt env stmt).Yields before code after)
    (hexprs : stmt.exprs.flatMap (Expr.evaluated env) ⊆ exprs) (hparts : stmt.parts ⊆ parts) :
    code.Each (Code.PairComputed env exprs parts) := by
  have hlocal := Code.PairComputed.isLocal env exprs parts
  -- an operation behind the value that a statement begins with
  have hlast : ∀ {expr : Expr} {before after : Supply} {code : Code} {place : Storage}
      {operation : Operation}, (lowerExpr env expr).Yields before (code, place) after →
        expr.evaluated env ⊆ exprs →
        (∀ first second, operation.operands ≠ [first, second]) →
          (code.push operation).Each (Code.PairComputed env exprs parts) :=
    fun hexpr hsub hne => (pairComputed_of_lowerExpr hexpr hsub).push hlocal (.of_operands hne)
  have hjump : ∀ {code : Code} (target : Label), code.Each (Code.PairComputed env exprs parts) →
      (code.push (.jump target)).Each (Code.PairComputed env exprs parts) :=
    fun _ hcode => hcode.push hlocal (.of_operands (by simp [Operation.operands]))
  have hmarked : ∀ {code : Code} (label : Label),
      code.Each (Code.PairComputed env exprs parts) →
        (code.marked label).Each (Code.PairComputed env exprs parts) :=
    fun label hcode =>
      hcode.marked hlocal (fun _ _ => .of_operands (by simp [Operation.operands])) label
  refine lowerStmt_induction
    (P := fun stmt _ code _ => stmt.exprs.flatMap (Expr.evaluated env) ⊆ exprs →
      stmt.parts ⊆ parts → code.Each (Code.PairComputed env exprs parts))
    (Q := fun body _ code _ => (Stmt.exprsAll body).flatMap (Expr.evaluated env) ⊆ exprs →
      Stmt.partsAll body ⊆ parts → code.Each (Code.PairComputed env exprs parts))
    ?assign ?assignElement ?print ?ret ?ifThen ?ifElse ?loop ?block ?empty ?nil ?cons h hexprs
    hparts
  case assign =>
    intro target value before code source after hvalue hsub _
    exact hlast hvalue (List.append_subset.mp hsub).1 (by simp [Operation.operands])
  case assignElement =>
    intro array index value before valueCode source middle indexCode place after hvalue hindex hsub
      hparts
    obtain ⟨hsubValue, hsub⟩ := List.append_subset.mp hsub
    obtain ⟨hsubIndex, -⟩ := List.append_subset.mp hsub
    exact ((pairComputed_of_lowerExpr hvalue hsubValue).append hlocal
      (pairComputed_of_lowerExpr hindex hsubIndex)).push hlocal
      (.of_yields hvalue hindex rfl (.store (hparts (List.mem_singleton_self _))))
  case print =>
    intro value before code source after hvalue hsub _
    exact hlast hvalue (List.append_subset.mp hsub).1 (by simp [Operation.operands])
  case ret =>
    intro value before code source after hvalue hsub _
    exact hlast hvalue (List.append_subset.mp hsub).1 (by simp [Operation.operands])
  case ifThen =>
    intro condition positive before test place middle branch after htest hbranch hsub hparts
    obtain ⟨hsubTest, hsubBranch⟩ := List.append_subset.mp hsub
    have hcode := hbranch hsubBranch (List.cons_subset.mp hparts).2
    exact ((hlast htest hsubTest (by simp [Operation.operands])).append hlocal hcode).append hlocal
      (hmarked _ .nil)
  case ifElse =>
    intro condition positive negative before test place middle branch last alternative after htest
      hbranch halternative hsub hparts
    simp only [Stmt.exprs, List.flatMap_append, List.flatMap_cons, List.append_subset] at hsub
    obtain ⟨⟨hsubTest, hsubBranch⟩, hsubAlternative⟩ := hsub
    obtain ⟨hpartsBranch, hpartsAlternative⟩ :=
      List.append_subset.mp (List.cons_subset.mp hparts).2
    have hcode := hbranch hsubBranch hpartsBranch
    have hcode' := halternative hsubAlternative hpartsAlternative
    exact (((hlast htest hsubTest (by simp [Operation.operands])).append hlocal
      (hjump _ hcode)).append hlocal (hmarked _ hcode')).append hlocal (hmarked _ .nil)
  case loop =>
    intro condition body before test place middle round after htest hround hsub hparts
    obtain ⟨hsubTest, hsubRound⟩ := List.append_subset.mp hsub
    have hcode := hround hsubRound (List.cons_subset.mp hparts).2
    exact (((hmarked _ (pairComputed_of_lowerExpr htest hsubTest)).push hlocal
      (.of_operands (by simp [Operation.operands]))).append hlocal (hjump _ hcode)).append hlocal
      (hmarked _ .nil)
  case block =>
    intro body before code after hbody hsub hparts
    exact hbody hsub (List.cons_subset.mp hparts).2
  case empty => exact fun _ _ _ => .nil
  case nil => exact fun _ _ _ => .nil
  case cons =>
    intro stmt rest before first middle others after hfirst hothers hsub hparts
    rw [Stmt.exprsAll, List.flatMap_append, List.append_subset] at hsub
    obtain ⟨hpartsFirst, hpartsOthers⟩ := List.append_subset.mp hparts
    exact (hfirst hsub.1 hpartsFirst).append hlocal (hothers hsub.2 hpartsOthers)

/-- The place of an expression is a constant, the address of a text, the place of the name that it
is, or a temporary. -/
theorem place_cases_of_lowerExpr {expr : Expr} {place : Storage}
    (h : (lowerExpr env expr).Yields before (code, place) after) :
    (∃ value, place = .constant value) ∨ (∃ id, place = .string id) ∨
      (∃ name, expr = .scalar name ∧ place = env.placeOf name) ∨ ∃ id, place = .temporary id := by
  refine lowerExpr_induction
    (P := fun expr _ _ place _ => (∃ value, place = .constant value) ∨ (∃ id, place = .string id) ∨
      (∃ name, expr = .scalar name ∧ place = env.placeOf name) ∨ ∃ id, place = .temporary id)
    (Q := fun _ _ _ _ _ _ => True)
    ?constant ?string ?scalar ?element ?call ?input ?binary ?surplus ?argument h
  case constant => exact fun value _ => .inl ⟨value, rfl⟩
  case string => exact fun _ _ => .inr (.inl ⟨_, rfl⟩)
  case scalar => exact fun name _ => .inr (.inr (.inl ⟨name, rfl, rfl⟩))
  case element => exact fun _ _ _ _ _ _ _ _ => .inr (.inr (.inr ⟨_, rfl⟩))
  case call => exact fun _ _ _ _ _ _ _ _ _ => .inr (.inr (.inr ⟨_, rfl⟩))
  case input => exact fun _ _ => .inr (.inr (.inr ⟨_, rfl⟩))
  case binary => exact fun _ _ _ _ _ _ _ _ _ _ _ _ _ _ => .inr (.inr (.inr ⟨_, rfl⟩))
  case surplus => exact fun _ _ _ _ _ => trivial
  case argument => exact fun _ _ _ _ _ _ _ _ _ _ _ _ _ _ _ => trivial

/-- The code of an expression writes no global variable. -/
theorem variable_not_mem_destinations {expr : Expr} {place : Storage}
    (h : (lowerExpr env expr).Yields before (code, place) after) (name : String) :
    .variable name ∉ code.destinations := by
  intro hmem
  obtain ⟨instruction, hinstruction, hwrites⟩ := List.mem_flatMap.mp hmem
  obtain ⟨index, hindex⟩ := List.getElem?_of_mem hinstruction
  have hemits := emits_of_lowerExpr h index instruction hindex
  generalize instruction.operation = operation at hwrites hemits
  cases hemits with
  | value hdestination _ => simp [hdestination] at hwrites
  | pass | call => simp [Operation.destination?] at hwrites

/-- The code of a statement writes a global variable exactly if the statement contains an assignment
to its name, and no parameter hides it. -/
theorem variable_mem_destinations_iff {stmt : Stmt}
    (h : (lowerStmt env stmt).Yields before code after) (name : String) :
    .variable name ∈ code.destinations ↔
      env.hides name = false ∧ ∃ value, .assign name value ∈ stmt.parts := by
  have hplace : ∀ target, .variable name = env.placeOf target ↔
      env.hides name = false ∧ target = name := by
    intro target
    cases hhides : env.hides target with
    | true =>
      obtain ⟨function, -, hplace⟩ := Environment.placeOf_of_hides hhides
      rw [hplace]
      grind
    | false =>
      rw [Environment.placeOf_of_not_hides hhides]
      grind
  have hexpr : ∀ {expr : Expr} {before after : Supply} {code : Code} {place : Storage},
      (lowerExpr env expr).Yields before (code, place) after →
        .variable name ∉ code.destinations := fun hexpr => variable_not_mem_destinations hexpr name
  refine lowerStmt_induction
    (P := fun stmt _ code _ => .variable name ∈ code.destinations ↔
      env.hides name = false ∧ ∃ value, .assign name value ∈ stmt.parts)
    (Q := fun body _ code _ => .variable name ∈ code.destinations ↔
      env.hides name = false ∧ ∃ value, .assign name value ∈ Stmt.partsAll body)
    ?assign ?assignElement ?print ?ret ?ifThen ?ifElse ?loop ?block ?empty ?nil ?cons h
  case assign =>
    intro target value before code source after hvalue
    simp [hexpr hvalue, Operation.destination?, Stmt.parts, hplace]
    grind
  case assignElement =>
    intro array index value before valueCode source middle indexCode place after hvalue hindex
    simp [hexpr hvalue, hexpr hindex, Operation.destination?, Stmt.parts]
  case print =>
    intro value before code source after hvalue
    simp [hexpr hvalue, Operation.destination?, Stmt.parts]
  case ret =>
    intro value before code source after hvalue
    simp [hexpr hvalue, Operation.destination?, Stmt.parts]
  case ifThen =>
    intro condition positive before test place middle branch after htest hbranch
    simp [hexpr htest, hbranch, Operation.destination?, Stmt.parts]
  case ifElse =>
    intro condition positive negative before test place middle branch last alternative after htest
      hbranch halternative
    simp [hexpr htest, hbranch, halternative, Operation.destination?, Stmt.parts, exists_or,
      and_or_left]
  case loop =>
    intro condition body before test place middle round after htest hround
    simp [hexpr htest, hround, Operation.destination?, Stmt.parts]
  case block => exact fun body _ _ _ hbody => by simp [hbody, Stmt.parts]
  case empty => exact fun _ => by simp [Code.destinations, Stmt.parts]
  case nil => exact fun _ => by simp [Code.destinations, Stmt.partsAll]
  case cons =>
    intro stmt rest before first middle others after hfirst hothers
    simp [hfirst, hothers, Stmt.partsAll, exists_or, and_or_left]

end Lowering

end ThreeAddress
