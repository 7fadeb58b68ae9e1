import ThreeAddress.Proofs.Calls.Reach

/-!
# Where arguments are passed

Every call inside a body has an instruction of its own kind in the code of the body, and in front of
it stands the code that evaluates the arguments one after another and copies each of them into a
place, that of the parameter at its position.
-/

namespace ThreeAddress

open LowerM

/-- Code that evaluates arguments one after another and copies each of them into a place. -/
inductive PassesInto (env : Environment) :
    List Expr → List Storage → Supply → Code → Supply → Prop
  | nil {supply : Supply} : PassesInto env [] [] supply [] supply
  | cons {arg : Expr} {args : List Expr} {place source : Storage} {places : List Storage}
      {before middle after : Supply} {argCode rest : Code}
      (harg : (lowerExpr env arg).Yields before (argCode, source) middle)
      (hrest : PassesInto env args places middle rest after) :
      PassesInto env (arg :: args) (place :: places) before
        (argCode.push (.copy place source) ++ rest) after

/-- The instruction at an index calls a function, and the code in front of it copies the arguments
into places. -/
def CallPasses (env : Environment) (code : Code) (index : Nat) (function : String)
    (args : List Expr) (places : List Storage) : Prop :=
  (∃ whole destination, code[index]? = some whole ∧
    whole.operation = .call function destination) ∧
  ∃ base before argsCode after, PassesInto env args places before argsCode after ∧
    code.Located base argsCode ∧ index = base + argsCode.length

/-- The places of a function's parameters, in order. -/
def Param.places (function : String) (params : List Param) : List Storage :=
  params.map fun param => .parameter function param.name

/-- The places of parameters differ exactly if their names do. -/
theorem Param.nodup_places_iff {function : String} {params : List Param} :
    (Param.places function params).Nodup ↔ (params.map Param.name).Nodup := by
  have hinj : Function.Injective (Storage.parameter function) :=
    fun _ _ heq => (Storage.parameter.inj heq).2
  have hplaces : Param.places function params =
      (params.map Param.name).map (Storage.parameter function) := by
    rw [Param.places, List.map_map]
    rfl
  rw [hplaces, List.nodup_map_iff hinj]

section Sites

variable {env : Environment} {before after : Supply} {code part : Code} {place : Storage}
  {function : String} {args : List Expr} {params : List Param} {index : Nat} {expr : Expr}

/-- Every argument is copied into the place of the parameter at its position. -/
theorem passesInto_of_lowerArgs (h : (lowerArgs env function args params).Yields before code after)
    (hlength : args.length = params.length) :
    PassesInto env args (Param.places function params) before code after := by
  induction args generalizing params before code with
  | nil =>
    obtain rfl := List.length_eq_zero_iff.mp hlength.symm
    obtain ⟨rfl, rfl⟩ := (yields_args_nil_iff (.inl rfl)).mp h
    exact .nil
  | cons arg args ih =>
    cases params with
    | nil => contradiction
    | cons param params =>
      obtain ⟨argCode, source, middle, rest, harg, hrest, rfl⟩ := yields_args_cons_iff.mp h
      exact .cons harg (ih hrest (Nat.succ.inj hlength))

/-- A call passes its arguments to the parameters of the called function. -/
theorem CallSite.passes (h : CallSite env code index function args params)
    (hlength : args.length = params.length) :
    CallPasses env code index function args (Param.places function params) := by
  obtain ⟨base, before, argsCode, after, destination, -, hargs, hlocated, rfl⟩ := h
  obtain ⟨whole, hwhole, hoperation⟩ := hlocated.last
  exact ⟨⟨whole, destination, hwhole, hoperation⟩, base, before, argsCode, after,
    passesInto_of_lowerArgs hargs hlength, hlocated.left, rfl⟩

/-- Every call inside an expression is made by an instruction of its code. -/
theorem exists_site_of_lowerExpr (h : (lowerExpr env expr).Yields before (code, place) after)
    (hsaturated : Saturated env expr.calls) (hmem : (function, args) ∈ expr.calls) :
    ∃ index params, CallSite env code index function args params := by
  have hmove : ∀ {whole part : Code} {base : Nat} {function : String} {args : List Expr},
      (∃ index params, CallSite env part index function args params) → whole.Located base part →
        ∃ index params, CallSite env whole index function args params := by
    rintro whole part base function args ⟨index, params, hsite⟩ hlocated
    exact ⟨base + index, params, hsite.located hlocated⟩
  refine lowerExpr_induction
    (P := fun expr _ code _ _ => Saturated env expr.calls →
      ∀ function args, (function, args) ∈ expr.calls →
        ∃ index params, CallSite env code index function args params)
    (Q := fun _ args params _ code _ => Saturated env (Expr.callsAll args) →
      args.length = params.length → ∀ function inner, (function, inner) ∈ Expr.callsAll args →
        ∃ index params, CallSite env code index function inner params)
    ?constant ?string ?scalar ?element ?call ?input ?binary ?surplus ?argument h hsaturated
      function args hmem
  case constant =>
    intro value _ _ function args hmem
    cases value <;> simp [Expr.calls] at hmem
  case string | scalar | input => exact fun _ _ _ _ _ hmem => absurd hmem List.not_mem_nil
  case element =>
    intro array index before code place after _ hindex hsaturated function args hmem
    exact hmove (hindex hsaturated function args hmem) (Code.Located.self _).left
  case call =>
    intro callee args params before code after hcallee hlowered hargs hsaturated function inner hmem
    have hlength := hsaturated callee args params (by simp [Expr.calls]) hcallee
    rcases List.mem_append.mp hmem with hmem | hmem
    · have hinner := hargs (hsaturated.subset (List.subset_append_left _ _)) hlength
      exact hmove (hinner function inner hmem) (Code.Located.self _).left
    · obtain ⟨rfl, rfl⟩ : function = callee ∧ inner = args := by simpa using hmem
      exact ⟨_, params, 0, before, code, after, _, hcallee, hlowered, Code.Located.self _, rfl⟩
  case binary =>
    intro op lhs rhs before leftCode left middle rightCode right after _ _ hleft hright hsaturated
      function args hmem
    have hboth := (Code.Located.self (leftCode ++ rightCode ++
      Code.ofOperation (.binary op (.temporary (.numbered after.temporaries)) left right))).left
    rcases List.mem_append.mp hmem with hmem | hmem
    · have hsub := hsaturated.subset (List.subset_append_left _ _)
      exact hmove (hleft hsub function args hmem) hboth.left
    · have hsub := hsaturated.subset (List.subset_append_right _ _)
      exact hmove (hright hsub function args hmem) hboth.right
  case surplus =>
    rintro callee args params supply (rfl | rfl) _ hlength function inner hmem
    · exact absurd hmem List.not_mem_nil
    · obtain rfl := List.length_eq_zero_iff.mp hlength
      exact absurd hmem List.not_mem_nil
  case argument =>
    intro callee arg args param params before argCode source middle rest after _ _ harg hrest
      hsaturated hlength function inner hmem
    have hself := Code.Located.self (argCode.push (.copy (.parameter callee param.name) source)
      ++ rest)
    rcases List.mem_append.mp hmem with hmem | hmem
    · have hsub := hsaturated.subset (List.subset_append_left _ _)
      exact hmove (harg hsub function inner hmem) hself.left.left
    · have hsub := hsaturated.subset (List.subset_append_right _ _)
      exact hmove (hrest hsub (Nat.succ.inj hlength) function inner hmem) hself.right

/-- Some code has that of an expression inside. -/
def Code.Computes (code : Code) (env : Environment) (expr : Expr) : Prop :=
  ∃ base before exprCode place after,
    (lowerExpr env expr).Yields before (exprCode, place) after ∧ code.Located base exprCode

/-- The code of an expression stays inside if its surroundings are put into other code. -/
theorem Code.Computes.located {base : Nat} (h : part.Computes env expr)
    (hlocated : code.Located base part) : code.Computes env expr := by
  obtain ⟨offset, before, exprCode, place, after, hyields, hpart⟩ := h
  exact ⟨base + offset, before, exprCode, place, after, hyields, hlocated.trans hpart⟩

/-- The code of a statement has that of each of its expressions inside. -/
theorem computes_of_lowerStmt {stmt : Stmt} (h : (lowerStmt env stmt).Yields before code after)
    (hmem : expr ∈ stmt.exprs) : code.Computes env expr := by
  have hown : ∀ {expr before code place after},
      (lowerExpr env expr).Yields before (code, place) after → code.Computes env expr :=
    fun hyields => ⟨0, _, _, _, _, hyields, .self _⟩
  refine lowerStmt_induction
    (P := fun stmt _ code _ => ∀ expr ∈ stmt.exprs, code.Computes env expr)
    (Q := fun body _ code _ => ∀ expr ∈ Stmt.exprsAll body, code.Computes env expr)
    ?assign ?assignElement ?print ?ret ?ifThen ?ifElse ?loop ?block ?empty ?nil ?cons h expr hmem
  case assign =>
    intro target value before code source after hvalue expr hmem
    obtain rfl := List.mem_singleton.mp hmem
    exact (hown hvalue).located (Code.Located.self _).left
  case assignElement =>
    intro array index value before valueCode source middle indexCode place after hvalue hindex expr
      hmem
    have hboth := (Code.Located.self (valueCode ++ indexCode ++
      Code.ofOperation (.copyIntoArray array place source))).left
    rcases List.mem_pair.mp hmem with rfl | rfl
    · exact (hown hvalue).located hboth.left
    · exact (hown hindex).located hboth.right
  case print | ret =>
    intro value before code source after hvalue expr hmem
    obtain rfl := List.mem_singleton.mp hmem
    exact (hown hvalue).located (Code.Located.self _).left
  case ifThen =>
    intro condition positive before test place middle branch after htest hbranch expr hmem
    have hboth := (Code.Located.self (test.push (.jumpIfFalse place (.numbered middle.labels)) ++
      branch ++ Code.landing (.numbered middle.labels))).left
    rcases List.mem_cons.mp hmem with rfl | hmem
    · exact (hown htest).located hboth.left.left
    · exact (hbranch expr hmem).located hboth.right
  case ifElse =>
    intro condition positive negative before test place middle branch last alternative after htest
      hbranch halternative expr hmem
    have hall := (Code.Located.self (test.push (.jumpIfFalse place (.numbered middle.labels)) ++
      branch.push (.jump (.numbered (middle.labels + 1))) ++
      alternative.marked (.numbered middle.labels) ++
      Code.landing (.numbered (middle.labels + 1)))).left
    obtain ⟨base, hmarked⟩ := Code.Located.exists_marked (.numbered middle.labels) alternative
    rcases List.mem_append.mp hmem with hmem | hmem
    · rcases List.mem_cons.mp hmem with rfl | hmem
      · exact (hown htest).located hall.left.left.left
      · exact (hbranch expr hmem).located hall.left.right.left
    · exact (halternative expr hmem).located (hall.right.trans hmarked)
  case loop =>
    intro condition body before test place middle round after htest hround expr hmem
    have hboth := (Code.Located.self ((test.marked (.numbered before.labels)).push
      (.jumpIfFalse place (.numbered (before.labels + 1))) ++
      round.push (.jump (.numbered before.labels)) ++
      Code.landing (.numbered (before.labels + 1)))).left
    obtain ⟨base, hmarked⟩ := Code.Located.exists_marked (.numbered before.labels) test
    rcases List.mem_cons.mp hmem with rfl | hmem
    · exact (hown htest).located (hboth.left.left.trans hmarked)
    · exact (hround expr hmem).located hboth.right.left
  case block => exact fun _ _ _ _ h => h
  case empty | nil => exact fun _ _ hmem => absurd hmem List.not_mem_nil
  case cons =>
    intro stmt rest before first middle others after hfirst hothers expr hmem
    have hself := Code.Located.self (first ++ others)
    rcases List.mem_append.mp hmem with hmem | hmem
    · exact (hfirst expr hmem).located hself.left
    · exact (hothers expr hmem).located hself.right

/-- Every call inside a statement is made by an instruction of its code. -/
theorem exists_site_of_lowerStmt {stmt : Stmt} (h : (lowerStmt env stmt).Yields before code after)
    (hsaturated : Saturated env stmt.calls) (hmem : (function, args) ∈ stmt.calls) :
    ∃ index params, CallSite env code index function args params := by
  obtain ⟨expr, hexpr, hcall⟩ := Expr.mem_callsAll.mp hmem
  have hsub : expr.calls ⊆ stmt.calls :=
    fun call hmem => Expr.mem_callsAll.mpr ⟨expr, hexpr, hmem⟩
  obtain ⟨base, before, exprCode, place, after, hyields, hlocated⟩ := computes_of_lowerStmt h hexpr
  obtain ⟨index, params, hsite⟩ := exists_site_of_lowerExpr hyields (hsaturated.subset hsub) hcall
  exact ⟨base + index, params, hsite.located hlocated⟩

end Sites

end ThreeAddress
