import ThreeAddress.Proofs.Calls.Bodies
import ThreeAddress.Proofs.Typing.Exactness

/-!
# What the arguments of a call can write

While the arguments of a call are evaluated, the instructions that can be executed are those of
their code and those of the bodies that can be called from there. Some of them writes a parameter
of the called function exactly if some argument can call that same function again, directly or
through others. So whether parameters that have been filled already stay as they are can be read
off the program, without running it.
-/

namespace ThreeAddress

open LowerM Relation

/-- Evaluating an expression can call a function, directly or through others. -/
def Program.Reaches (program : Program) (expr : Expr) (function : String) : Prop :=
  ∃ callee args, (callee, args) ∈ expr.calls ∧ ReflTransGen program.Calls callee function

/-- The operations that can be executed while some part of the code is: its own and those of the
bodies that are called. -/
inductive Code.Executes (code part : Code) : Operation → Prop
  | here {instruction : Instruction} (hmem : instruction ∈ part) :
      Executes code part instruction.operation
  | inside {callee : String} {destination : Storage} {position : Nat} {whole : Instruction}
      (hcall : Executes code part (.call callee destination)) (hbody : code.InBody callee position)
      (hwhole : code[position]? = some whole) : Executes code part whole.operation

section Callees

variable {env env' : Environment} {function : String} {params params' : List Param}

/-- A function that can be called is what its name means outside. -/
theorem function?_of_callee (h : env.callee function = .ok params) :
    ∃ signature, env.scope.function? function = some signature ∧ signature.params = params := by
  unfold Environment.callee at h
  split at h
  · next signature hsignature =>
    split at h
    · contradiction
    · exact ⟨signature, hsignature, Except.ok.inj h⟩
  · split at h <;> contradiction

/-- A called function has the same parameters wherever it is called from. -/
theorem callee_unique (hscope : env.scope = env'.scope) (h : env.callee function = .ok params)
    (h' : env'.callee function = .ok params') : params = params' := by
  obtain ⟨signature, hsignature, rfl⟩ := function?_of_callee h
  obtain ⟨signature', hsignature', rfl⟩ := function?_of_callee h'
  rw [hscope, hsignature', Option.some.injEq] at hsignature
  rw [hsignature]

/-- A function that can be called is declared. -/
theorem mem_decls_of_callee (h : env.callee function = .ok params) :
    ∃ type, .function type function params ∈ env.scope.decls := by
  obtain ⟨signature, hsignature, rfl⟩ := function?_of_callee h
  obtain ⟨decl, hfind, hdecl⟩ := Option.bind_eq_some_iff.mp hsignature
  have hname := Scope.name_of_find? hfind
  cases decl with
  | scalar | array => simp [Decl.signature?] at hdecl
  | function type name declared =>
    obtain rfl : name = function := hname
    obtain rfl : (⟨type, declared⟩ : Signature) = signature := Option.some.inj hdecl
    exact ⟨type, List.mem_of_find?_eq_some hfind⟩

/-- A call that is typed inside a function has the parameters that lowering finds. -/
theorem callee_eq_of_means {scope : Scope} {bound : List Param} {type : ScalarType}
    (hscope : env.scope = scope)
    (hmeans : (scope.withParams bound).Means function (.function type function params))
    (h : env.callee function = .ok params') : params' = params := by
  obtain ⟨signature, hsignature, rfl⟩ := function?_of_callee h
  rcases Scope.means_withParams_cases hmeans with ⟨param, -, -, hparam⟩ | ⟨-, houtside⟩
  · contradiction
  · rw [hscope, Scope.function?, Scope.find?_eq_some_iff.mpr houtside] at hsignature
    exact congrArg Signature.params (Option.some.inj hsignature).symm

end Callees

section Saturation

variable {scope : Scope} {bound : List Param} {env : Environment}

/-- Matching arguments are as many as the parameters, and all have types. -/
theorem Scope.ArgsMatch.length_eq {args : List Expr} {params : List Param}
    (h : scope.ArgsMatch args params) :
    args.length = params.length ∧ ∀ arg ∈ args, ∃ type, scope.HasType arg type := by
  induction args generalizing params with
  | nil =>
    cases h
    simp
  | cons arg args ih =>
    cases h with
    | cons htype _ hrest =>
      obtain ⟨hlength, htypes⟩ := ih hrest
      refine ⟨congrArg Nat.succ hlength, fun other hother => ?_⟩
      rcases List.mem_cons.mp hother with rfl | hother
      · exact ⟨_, htype⟩
      · exact htypes other hother

/-- The calls of a typed expression have as many arguments as parameters. -/
theorem saturated_of_hasType (hscope : env.scope = scope) {expr : Expr} {type : ValueType}
    (h : (scope.withParams bound).HasType expr type) : Saturated env expr.calls := by
  induction expr generalizing type with
  | literal | scalar | input => exact fun _ _ _ hmem => absurd hmem List.not_mem_nil
  | element array index ih =>
    cases h with
    | element _ hindex _ => exact ih hindex
  | call function args ih =>
    cases h with
    | call hmeans hmatch =>
      obtain ⟨hlength, htypes⟩ := hmatch.length_eq
      intro callee args' params hmem hcallee
      rcases List.mem_append.mp hmem with hmem | hmem
      · obtain ⟨arg, harg, hmem⟩ := Expr.mem_callsAll.mp hmem
        obtain ⟨argType, hargType⟩ := htypes arg harg
        exact ih arg harg hargType callee args' params hmem hcallee
      · obtain ⟨rfl, rfl⟩ : callee = function ∧ args' = args := by simpa using hmem
        rw [hlength, callee_eq_of_means hscope hmeans hcallee]
  | binary op lhs rhs ihl ihr =>
    cases h with
    | binary hleft hright _ =>
      intro callee args params hmem hcallee
      rcases List.mem_append.mp hmem with hmem | hmem
      · exact ihl hleft callee args params hmem hcallee
      · exact ihr hright callee args params hmem hcallee

/-- All expressions of a well-typed statement have types. -/
theorem Scope.WellTyped.hasType {result : ScalarType} {stmt : Stmt}
    (h : scope.WellTyped result stmt) : ∀ expr ∈ stmt.exprs, ∃ type, scope.HasType expr type := by
  induction stmt with
  | assign target value =>
    cases h with
    | assign _ hvalue _ => simpa [Stmt.exprs] using ⟨_, hvalue⟩
  | assignElement array index value =>
    cases h with
    | assignElement _ hindex _ hvalue _ => simpa [Stmt.exprs] using ⟨⟨_, hvalue⟩, _, hindex⟩
  | print value =>
    cases h with
    | print hvalue => simpa [Stmt.exprs] using ⟨_, hvalue⟩
  | ret value =>
    cases h with
    | ret hvalue _ => simpa [Stmt.exprs] using ⟨_, hvalue⟩
  | ifThen condition positive ih =>
    cases h with
    | ifThen hcondition hpositive =>
      exact List.forall_mem_cons.mpr ⟨⟨_, hcondition⟩, ih hpositive⟩
  | ifElse condition positive negative ihp ihn =>
    cases h with
    | ifElse hcondition hpositive hnegative =>
      exact List.forall_mem_append.mpr
        ⟨List.forall_mem_cons.mpr ⟨⟨_, hcondition⟩, ihp hpositive⟩, ihn hnegative⟩
  | loop condition body ih =>
    cases h with
    | loop hcondition hbody => exact List.forall_mem_cons.mpr ⟨⟨_, hcondition⟩, ih hbody⟩
  | block body ih =>
    cases h with
    | block hbody =>
      rw [Stmt.exprs]
      induction body with
      | nil => exact fun _ hmem => absurd hmem List.not_mem_nil
      | cons stmt rest ihrest =>
        obtain ⟨hstmt, hrest⟩ := List.forall_mem_cons.mp hbody
        exact List.forall_mem_append.mpr ⟨ih stmt List.mem_cons_self hstmt,
          ihrest (fun other hother => ih other (List.mem_cons_of_mem stmt hother)) hrest⟩
  | empty => exact fun _ hmem => absurd hmem List.not_mem_nil

/-- The calls of an accepted program have as many arguments as parameters. -/
theorem Program.saturated_of_check {program : Program} (h : program.check = [])
    {implementation : Implementation} (hmem : implementation ∈ program.implementations) :
    Saturated (.inside program.scope implementation.name) implementation.body.calls := by
  have hformed := Program.WellFormed.of_check h
  obtain ⟨type, params, hdecl⟩ := hformed.declared implementation hmem
  have htyped := hformed.typed implementation hmem type params hdecl
  intro callee args calleeParams hcall hcallee
  obtain ⟨expr, hexpr, hcall⟩ := Expr.mem_callsAll.mp hcall
  obtain ⟨exprType, hexprType⟩ := htyped.hasType expr hexpr
  exact saturated_of_hasType rfl hexprType callee args calleeParams hcall hcallee

end Saturation

/-- Inside a function, no name is a parameter of another. -/
theorem placeOf_inside {scope : Scope} {caller function target name : String}
    (h : (Environment.inside scope caller).placeOf target = .parameter function name) :
    function = caller := by
  unfold Environment.placeOf Environment.inside at h
  cases hfunction : scope.function? caller with
  | none => simp [hfunction] at h
  | some signature =>
    simp only [hfunction, Option.map_some] at h
    split at h
    · exact (Storage.parameter.inj h).1.symm
    · contradiction

section Writes

variable {program : Program} {unit : CodeUnit} {env : Environment} {function : String}
  {later : List Expr} {laterParams : List Param} {before after : Supply} {rest : Code}

/-- A call in the code of arguments is a call inside one of them. -/
theorem exists_arg_of_call
    (hrest : (lowerArgs env function later laterParams).Yields before rest after)
    {instruction : Instruction} (hmem : instruction ∈ rest) {callee : String}
    {destination : Storage} (hcall : instruction.operation = .call callee destination) :
    ∃ arg ∈ later, ∃ args, (callee, args) ∈ arg.calls := by
  obtain ⟨index, hindex⟩ := List.getElem?_of_mem hmem
  have hemits := emits_of_lowerArgs hrest index instruction hindex
  rw [hcall] at hemits
  rcases hemits with hemits | ⟨_, _, _, hcopy⟩
  · obtain ⟨-, args, -, hcalls, -⟩ := Joins.exists_site (.inr hemits)
    obtain ⟨arg, harg, hcalls⟩ := Expr.mem_callsAll.mp hcalls
    exact ⟨arg, harg, args, hcalls⟩
  · contradiction

/-- A parameter is written only in the body of its own function and where that is called. -/
theorem eq_or_calls_of_writes (hlaid : program.Laid unit) {caller name : String} {position : Nat}
    {whole : Instruction} (hbody : unit.code.InBody caller position)
    (hwhole : unit.code[position]? = some whole)
    (hwrites : whole.operation.destination? = some (.parameter function name)) :
    function = caller ∨ program.Calls caller function := by
  have hborder : whole.operation.isBorder = false := by
    cases hoperation : whole.operation <;> simp_all [Operation.destination?, Operation.isBorder]
  obtain ⟨implementation, hmem, hname, hjoins⟩ := hlaid.joins_of_inBody hbody hwhole hborder
  generalize whole.operation = operation at hwrites hjoins
  rcases hjoins with hglue | hemits
  · cases hglue with
    | assign target source => exact .inl (placeOf_inside (Option.some.inj hwrites))
    | nop | jump | jumpIfFalse | copyIntoArray | print | ret =>
      simp [Operation.destination?] at hwrites
  · cases hemits with
    | value hdestination _ => simp [hdestination] at hwrites
    | pass hcalls _ _ =>
      obtain ⟨rfl, -⟩ := Storage.parameter.inj (Option.some.inj hwrites)
      exact .inr ⟨implementation, hmem, hname, _, hcalls⟩
    | call _ _ => simp [Operation.destination?] at hwrites

/-- If a body that an argument reaches writes a parameter, the argument reaches its function. -/
theorem Program.Reaches.of_writes (hlaid : program.Laid unit) {arg : Expr} {caller name : String}
    (h : program.Reaches arg caller) {position : Nat} {whole : Instruction}
    (hbody : unit.code.InBody caller position) (hwhole : unit.code[position]? = some whole)
    (hwrites : whole.operation.destination? = some (.parameter function name)) :
    program.Reaches arg function := by
  obtain ⟨first, args, hcalls, hreach⟩ := h
  rcases eq_or_calls_of_writes hlaid hbody hwhole hwrites with rfl | hcaller
  · exact ⟨first, args, hcalls, hreach⟩
  · exact ⟨first, args, hcalls, hreach.tail hcaller⟩

/-- What can be executed while some code is, is in that code or in the body of a function that is
called from there, directly or through others. -/
theorem has_or_inBody_of_executes (hlaid : program.Laid unit) {part : Code} {called : String → Prop}
    (hcalled : ∀ callee destination, part.Has (.call callee destination) → called callee)
    {operation : Operation} (h : unit.code.Executes part operation) :
    part.Has operation ∨ ∃ first caller position whole, called first ∧
      ReflTransGen program.Calls first caller ∧ unit.code.InBody caller position ∧
        unit.code[position]? = some whole ∧ whole.operation = operation := by
  induction h with
  | @here instruction hmem => exact .inl ⟨instruction, hmem, rfl⟩
  | @inside callee destination position whole _ hbody hwhole ih =>
    right
    rcases ih with hhas | ⟨first, caller, position', whole', hfirst, hreach, hbody', hwhole', hcall⟩
    · exact ⟨callee, callee, position, whole, hcalled callee destination hhas, .refl, hbody, hwhole,
        rfl⟩
    · have hnext := hlaid.calls_of_inBody hbody' hwhole' hcall
      exact ⟨first, callee, position, whole, hfirst, hreach.tail hnext, hbody, hwhole, rfl⟩

/-- What can be executed during the arguments of a call is in their code or in a body that they
reach. -/
theorem executes_cases (hlaid : program.Laid unit)
    (hrest : (lowerArgs env function later laterParams).Yields before rest after)
    {operation : Operation} (h : unit.code.Executes rest operation) :
    rest.Has operation ∨ ∃ callee position whole,
      (∃ arg ∈ later, program.Reaches arg callee) ∧ unit.code.InBody callee position ∧
        unit.code[position]? = some whole ∧ whole.operation = operation := by
  have hcalled : ∀ callee destination, rest.Has (.call callee destination) →
      ∃ arg ∈ later, ∃ args, (callee, args) ∈ arg.calls := by
    rintro callee destination ⟨instruction, hmem, hcall⟩
    exact exists_arg_of_call hrest hmem hcall
  rcases has_or_inBody_of_executes hlaid hcalled h with hhas |
    ⟨first, caller, position, whole, ⟨arg, harg, args, hcalls⟩, hreach, hbody⟩
  · exact .inl hhas
  · exact .inr ⟨caller, position, whole, ⟨arg, harg, first, args, hcalls, hreach⟩, hbody⟩

/-- What writes a parameter of the called function belongs to a call of it. -/
theorem reaches_of_executes (hlaid : program.Laid unit)
    (hrest : (lowerArgs env function later laterParams).Yields before rest after)
    {name : String} (hfresh : ∀ other ∈ laterParams, other.name ≠ name) {operation : Operation}
    (h : unit.code.Executes rest operation)
    (hwrites : operation.destination? = some (.parameter function name)) :
    ∃ arg ∈ later, program.Reaches arg function := by
  rcases executes_cases hlaid hrest h with ⟨instruction, hmem, rfl⟩ |
    ⟨callee, position, whole, ⟨arg, harg, hreaches⟩, hbody, hwhole, rfl⟩
  · obtain ⟨index, hindex⟩ := List.getElem?_of_mem hmem
    have hemits := emits_of_lowerArgs hrest index instruction hindex
    generalize instruction.operation = operation at hwrites hemits
    rcases hemits with hemits | ⟨other, hother, source, rfl⟩
    · cases hemits with
      | value hdestination _ => simp [hdestination] at hwrites
      | pass hcalls _ _ =>
        obtain ⟨rfl, -⟩ := Storage.parameter.inj (Option.some.inj hwrites)
        obtain ⟨arg, harg, hcalls⟩ := Expr.mem_callsAll.mp hcalls
        exact ⟨arg, harg, _, _, hcalls, .refl⟩
      | call _ _ => simp [Operation.destination?] at hwrites
    · exact absurd (Storage.parameter.inj (Option.some.inj hwrites)).2 (hfresh other hother)
  · exact ⟨arg, harg, hreaches.of_writes hlaid hbody hwhole hwrites⟩

/-- The bodies that can be called from an expression are left only by going back, and leave a place
alone that none of them writes. -/
theorem Program.Laid.exists_region (hlaid : program.Laid unit)
    (hlabels : unit.code.labels.length ≤ 2 ^ 32) {expr : Expr} {callee : String} {args : List Expr}
    (hcalls : (callee, args) ∈ expr.calls) {place : Storage}
    (hspared : ∀ caller, program.Reaches expr caller → ∀ position whole,
      unit.code.InBody caller position → unit.code[position]? = some whole →
        whole.operation.destination? ≠ some place)
    {entry : Nat} (hentry : unit.code.entry? callee = some entry) :
    ∃ region, Machine.Closed unit region ∧ region entry ∧ Machine.Spares unit region place := by
  refine ⟨_, hlaid.closed hlabels (fun caller => ReflTransGen program.Calls callee caller)
    fun caller next hcaller hnext => hcaller.tail hnext, ⟨callee, .refl, entry, hentry,
      Nat.le_refl _, fun index _ hle hlt => absurd hlt (Nat.not_lt.mpr hle)⟩, ?_⟩
  rintro position whole ⟨caller, hcaller, hbody⟩ hwhole
  exact hspared caller ⟨callee, args, hcalls, hcaller⟩ position whole hbody hwhole

/-- A call of a function can be executed, and so can a copy into each of its parameters. -/
def Code.ExecutesCall (code part : Code) (scope : Scope) (function : String) : Prop :=
  (∃ destination, code.Executes part (.call function destination)) ∧
    ∃ env : Environment, env.scope = scope ∧ ∃ params, env.callee function = .ok params ∧
      ∀ param ∈ params, ∃ source,
        code.Executes part (.copy (.parameter function param.name) source)

/-- Code that makes a call can execute it, if its operations can be executed. -/
theorem Code.Performs.executesCall {code part inner : Code} {env : Environment} {function : String}
    (h : inner.Performs env function)
    (hhas : ∀ operation, inner.Has operation → code.Executes part operation) :
    code.ExecutesCall part env.scope function := by
  obtain ⟨params, hcallee, ⟨destination, hcall⟩, hpasses⟩ := h
  refine ⟨⟨destination, hhas _ hcall⟩, env, rfl, params, hcallee, fun param hparam => ?_⟩
  obtain ⟨source, hpass⟩ := hpasses param hparam
  exact ⟨source, hhas _ hpass⟩

/-- A call of a function makes the calls in its body possible. -/
theorem executesCall_of_calls (hlaid : program.Laid unit)
    (hsaturated : ∀ implementation ∈ program.implementations,
      Saturated (.inside program.scope implementation.name) implementation.body.calls)
    {caller callee : String} (h : unit.code.ExecutesCall rest program.scope caller)
    (hcalls : program.Calls caller callee) :
    unit.code.ExecutesCall rest program.scope callee := by
  obtain ⟨⟨destination, hcall⟩, -⟩ := h
  obtain ⟨implementation, hmem, rfl, args, hargs⟩ := hcalls
  obtain ⟨entry, inner, hat⟩ := hlaid.bodies implementation hmem
  obtain ⟨before, after, hlowered⟩ := hat.lowered
  refine (performs_of_lowerStmt hlowered (hsaturated implementation hmem) hargs).executesCall ?_
  rintro operation ⟨instruction, hinstruction, rfl⟩
  obtain ⟨index, hindex⟩ := List.getElem?_of_mem hinstruction
  have hlt := (List.getElem?_eq_some_iff.mp hindex).1
  have hinner : unit.code.Located (entry + 1) inner := hat.located.left.right
  obtain ⟨whole, hwhole, hoperation, -⟩ := hinner index instruction hindex
  rw [← hoperation]
  exact .inside hcall (hat.inBody_iff.mpr ⟨by omega, by omega⟩) hwhole

/-- Where an expression can call a function, that call can be executed. -/
theorem executesCall_of_reaches (hlaid : program.Laid unit)
    (hsaturated : ∀ implementation ∈ program.implementations,
      Saturated (.inside program.scope implementation.name) implementation.body.calls)
    (hscope : env.scope = program.scope) {expr : Expr}
    (hperforms : ∀ callee args, (callee, args) ∈ expr.calls → rest.Performs env callee)
    (hreaches : program.Reaches expr function) :
    unit.code.ExecutesCall rest program.scope function := by
  obtain ⟨first, args, hcalls, hreach⟩ := hreaches
  induction hreach with
  | refl =>
    rw [← hscope]
    refine (hperforms first args hcalls).executesCall ?_
    rintro operation ⟨instruction, hmem, rfl⟩
    exact .here hmem
  | tail _ hcaller ih => exact executesCall_of_calls hlaid hsaturated ih hcaller

/-- Where an argument can call a function, all parameters of that function can be written. -/
theorem executes_of_reaches (hlaid : program.Laid unit)
    (hsaturated : ∀ implementation ∈ program.implementations,
      Saturated (.inside program.scope implementation.name) implementation.body.calls)
    (hscope : env.scope = program.scope)
    (hrest : (lowerArgs env function later laterParams).Yields before rest after)
    (hlater : Saturated env (Expr.callsAll later)) (hlength : later.length = laterParams.length)
    {params : List Param} {param : Param} (hcallee : env.callee function = .ok params)
    (hparam : param ∈ params) {arg : Expr} (harg : arg ∈ later)
    (hreaches : program.Reaches arg function) :
    ∃ source, unit.code.Executes rest (.copy (.parameter function param.name) source) := by
  have hperforms : ∀ callee args, (callee, args) ∈ arg.calls → rest.Performs env callee :=
    fun callee args hcalls =>
      performs_of_lowerArgs hrest hlater hlength (Expr.mem_callsAll.mpr ⟨arg, harg, hcalls⟩)
  obtain ⟨-, env', hscope', params', hcallee', hpasses⟩ :=
    executesCall_of_reaches hlaid hsaturated hscope hperforms hreaches
  rw [← callee_unique (hscope'.trans hscope.symm) hcallee' hcallee] at hparam
  exact hpasses param hparam

end Writes

end ThreeAddress
