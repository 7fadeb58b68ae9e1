import ThreeAddress.Proofs.Calls.Reach

/-!
# When arguments reach the called function

Arguments are written one after the other into the only storage that the called function has for
them, so an argument that calls this function again overwrites what was passed before it. Nothing
else does. A parameter that has been filled is left alone until the call, by everything that can
be executed before it, exactly if no later argument can call the function, directly or through
others; and then the call finds there the value that was computed for it.
-/

namespace ThreeAddress

open LowerM Relation

/-- An argument of a call is passed: its code stands before a copy into its parameter, and the
code of the arguments behind it stands between that copy and the call. -/
structure ArgumentPassed (unit : CodeUnit) (env : Environment) (function : String) (arg : Expr)
    (param : Param) (later : List Expr) (laterParams : List Param) (copy : Nat) (source : Storage)
    (rest : Code) (call : Nat) : Prop where
  evaluated : ∃ before argCode after base,
    (lowerExpr env arg).Yields before (argCode, source) after ∧
      unit.code.Located base argCode ∧ copy = base + argCode.length
  copied : ∃ whole, unit.code[copy]? = some whole ∧
    whole.operation = .copy (.parameter function param.name) source
  lowered : ∃ before after, (lowerArgs env function later laterParams).Yields before rest after
  located : unit.code.Located (copy + 1) rest
  call_eq : call = copy + rest.length + 1

/-- In every run, whenever a call is executed, the parameter has the value that was copied into it
for this very call: earlier, in the same activation, which has not been left since, and has been
between the copy and the call all the time. -/
def Arrives (unit : CodeUnit) (copy call : Nat) (function name : String) (source : Storage) :
    Prop :=
  ∀ ⦃Value Input : Type⦄ (meaning : Interpretation Value Input)
    (start : Machine.Config Value Input), start.Fresh unit → ∀ time frames state,
      Machine.Visits meaning unit start time ⟨call, frames, state⟩ →
        ∃ earlier < time, ∃ previous,
          Machine.Visits meaning unit start earlier ⟨copy, frames, previous⟩ ∧
          state.world.parameters function name = previous.value meaning unit.strings source ∧
          ∀ between config, earlier < between → between < time →
            Machine.Visits meaning unit start between config → frames <:+ config.frames ∧
              (config.frames = frames → copy < config.position ∧ config.position < call)

/-- The code of the arguments is that of those in front of one, its own, the copy into its
parameter, and that of those behind it. -/
theorem exists_argument {env : Environment} {function : String} {args : List Expr}
    {params : List Param} {before after : Supply} {code : Code}
    (h : (lowerArgs env function args params).Yields before code after) {number : Nat} {arg : Expr}
    {param : Param} (harg : args[number]? = some arg) (hparam : params[number]? = some param) :
    ∃ front argCode source rest first middle,
      (lowerExpr env arg).Yields first (argCode, source) middle ∧
      (lowerArgs env function (args.drop (number + 1)) (params.drop (number + 1))).Yields middle
        rest after ∧
      code = front ++ (argCode.push (.copy (.parameter function param.name) source) ++ rest) := by
  induction number generalizing args params before code with
  | zero =>
    obtain ⟨args, rfl⟩ : ∃ rest, args = arg :: rest := by
      cases args with
      | nil => simp at harg
      | cons head rest => exact ⟨rest, by simpa using harg⟩
    obtain ⟨params, rfl⟩ : ∃ rest, params = param :: rest := by
      cases params with
      | nil => simp at hparam
      | cons head rest => exact ⟨rest, by simpa using hparam⟩
    obtain ⟨argCode, source, middle, rest, hyields, hrest, rfl⟩ := yields_args_cons_iff.mp h
    exact ⟨[], argCode, source, rest, before, middle, hyields, hrest, rfl⟩
  | succ number ih =>
    cases args with
    | nil => simp at harg
    | cons head args =>
      cases params with
      | nil => simp at hparam
      | cons headParam params =>
        obtain ⟨headCode, source, middle, rest, -, hrest, rfl⟩ := yields_args_cons_iff.mp h
        obtain ⟨front, argCode, source', rest', first, middle', hyields, hrest', rfl⟩ :=
          ih hrest (by simpa using harg) (by simpa using hparam)
        refine ⟨headCode.push (.copy (.parameter function headParam.name) source) ++ front, argCode,
          source', rest', first, middle', hyields, hrest', ?_⟩
        rw [List.append_assoc]

/-- What stands before a call is its arguments' code, and no jump and no call leads into it. -/
theorem exists_passed {unit : CodeUnit} {env : Environment} {call : Nat} {function : String}
    {args : List Expr} {params : List Param} (h : CallSite env unit.code call function args params)
    {number : Nat} {arg : Expr} {param : Param} (harg : args[number]? = some arg)
    (hparam : params[number]? = some param) :
    ∃ copy source rest, ArgumentPassed unit env function arg param (args.drop (number + 1))
        (params.drop (number + 1)) copy source rest call ∧
      ∀ index ≤ rest.length, ∃ here, unit.code[copy + index + 1]? = some here ∧
        here.label? = none ∧ ∀ callee, here.operation ≠ .enter callee := by
  obtain ⟨base, before, argsCode, after, destination, -, hargs, hlocated, rfl⟩ := h
  have hline := straightLine_of_args hargs
  obtain ⟨front, argCode, source, rest, first, middle, hyields, hrest, rfl⟩ :=
    exists_argument hargs harg hparam
  have hown := hlocated.left.right.left
  refine ⟨base + front.length + argCode.length, source, rest, ⟨⟨first, argCode, middle,
    base + front.length, hyields, hown.left, rfl⟩, hown.last, ⟨middle, after, hrest⟩, ?_, ?_⟩, ?_⟩
  · simpa [Nat.add_assoc] using hlocated.left.right.right
  · simp
    omega
  · intro index hle
    have hplain : ∀ instruction ∈ (front ++ (argCode.push
        (.copy (.parameter function param.name) source) ++ rest)).push (.call function destination),
        instruction.label? = none ∧ ∀ callee, instruction.operation ≠ .enter callee := by
      intro instruction hmem
      rcases List.mem_append.mp hmem with hmem | hmem
      · refine ⟨hline.unlabelled instruction hmem, fun callee henter => ?_⟩
        have hstraight := hline.straight instruction hmem
        rw [henter] at hstraight
        contradiction
      · obtain rfl := List.mem_singleton.mp hmem
        exact ⟨rfl, by simp [Operation.unlabelled]⟩
    have hlt : front.length + argCode.length + index + 1 < ((front ++ (argCode.push
        (.copy (.parameter function param.name) source) ++ rest)).push
          (.call function destination)).length := by
      simp
      omega
    obtain ⟨hlabel, henter⟩ := hplain _ (List.getElem_mem hlt)
    obtain ⟨here, hhere, hoperation, hsame⟩ := hlocated _ _ (List.getElem?_eq_getElem hlt)
    refine ⟨here, by rw [← hhere]; congr 1; omega, ?_, fun callee => hoperation ▸ henter callee⟩
    rcases hsame with hsame | ⟨hzero, -⟩
    · exact hsame.trans hlabel
    · omega

/-- An argument arrives if no later one reaches the called function. -/
theorem ArgumentPassed.arrives {program : Program} {unit : CodeUnit} {env : Environment}
    {function : String} {arg : Expr} {param : Param} {later : List Expr}
    {laterParams : List Param} {copy call : Nat} {source : Storage} {rest : Code}
    (h : ArgumentPassed unit env function arg param later laterParams copy source rest call)
    (hlaid : program.Laid unit) (hlabels : unit.code.labels.length ≤ 2 ^ 32)
    (hplain : ∀ index ≤ rest.length, ∃ here, unit.code[copy + index + 1]? = some here ∧
      here.label? = none ∧ ∀ callee, here.operation ≠ .enter callee)
    (hfresh : ∀ other ∈ laterParams, other.name ≠ param.name)
    (hnot : ∀ arg ∈ later, ¬ program.Reaches arg function) :
    Arrives unit copy call function param.name source := by
  intro Value Input meaning start hstart time frames state hvisit
  obtain ⟨whole, hwhole, hoperation⟩ := h.copied
  obtain ⟨before, after, hrest⟩ := h.lowered
  rw [h.call_eq] at hvisit ⊢
  have hspares : ∀ index < rest.length, ∀ here, unit.code[copy + index + 1]? = some here →
      here.operation.destination? ≠ some (.parameter function param.name) ∧
        ∀ callee destination entry, here.operation = .call callee destination →
          unit.code.entry? callee = some entry → ∃ region, Machine.Closed unit region ∧
            region entry ∧ Machine.Spares unit region (.parameter function param.name) := by
    intro index hlt here hhere
    obtain ⟨found, hfound, hsame, -⟩ := h.located index _ (List.getElem?_eq_getElem hlt)
    rw [Nat.add_right_comm, hhere, Option.some.injEq] at hfound
    subst hfound
    rw [hsame]
    constructor
    · intro hwrites
      obtain ⟨arg, harg, hreaches⟩ := reaches_of_executes hlaid hrest hfresh
        (.here (List.getElem_mem hlt)) hwrites
      exact hnot arg harg hreaches
    · intro callee destination entry hcall hentry
      obtain ⟨arg, harg, args, hcalls⟩ := exists_arg_of_call hrest (List.getElem_mem hlt) hcall
      exact hlaid.exists_region hlabels hcalls
        (fun caller hcaller position whole hbody hwhole hwrites =>
          hnot arg harg (hcaller.of_writes hlaid hbody hwhole hwrites)) hentry
  obtain ⟨earlier, hlt, previous, hprevious, hvalue, hbetween⟩ :=
    hvisit.exists_copy hstart hwhole hoperation hplain hspares
  refine ⟨earlier, hlt, previous, hprevious, hvalue, ?_⟩
  intro between config hafter hbefore hconfig
  obtain ⟨hsuffix, hrange⟩ := hbetween between config hafter hbefore hconfig
  exact ⟨hsuffix, fun heq => ⟨(hrange heq).1, Nat.lt_succ_of_le (hrange heq).2⟩⟩

/-- A call in the code of an accepted program stands for a call expression, and each of its
arguments is passed to a parameter. What was passed is left alone, until the call, by all that can
be executed before it, exactly if no later argument can call the function; and then it arrives. -/
theorem argument_kept_iff_not_reached {program : Program} {unit : CodeUnit}
    (hcheck : program.check = [])
    (hparams : ∀ type name params, .function type name params ∈ program.decls →
      (params.map Param.name).Nodup)
    (hlower : program.lower = .ok unit)
    {call : Nat} {whole : Instruction} {function : String} {destination : Storage}
    (hwhole : unit.code[call]? = some whole)
    (hcall : whole.operation = .call function destination) :
    ∃ implementation ∈ program.implementations, ∃ args type params,
      (function, args) ∈ implementation.body.calls ∧
      .function type function params ∈ program.decls ∧ args.length = params.length ∧
      ∀ number arg param, args[number]? = some arg → params[number]? = some param →
        ∃ copy source rest,
          ArgumentPassed unit (.inside program.scope implementation.name) function arg param
            (args.drop (number + 1)) (params.drop (number + 1)) copy source rest call ∧
          ((∀ operation, unit.code.Executes rest operation →
              operation.destination? ≠ some (.parameter function param.name)) ↔
            ∀ later ∈ args.drop (number + 1), ¬ program.Reaches later function) ∧
          ((∀ later ∈ args.drop (number + 1), ¬ program.Reaches later function) →
            unit.code.labels.length ≤ 2 ^ 32 →
            Arrives unit copy call function param.name source) := by
  have hformed := Program.WellFormed.of_check hcheck
  have hlaid := Program.laid_of_lower hlower hformed.implementations_distinct
  have hsaturated : ∀ implementation ∈ program.implementations,
      Saturated (.inside program.scope implementation.name) implementation.body.calls :=
    fun implementation hmem => Program.saturated_of_check hcheck hmem
  obtain ⟨implementation, hmem, entry, inner, hat, hle, hle'⟩ :=
    hlaid.covers call (List.getElem?_eq_some_iff.mp hwhole).1
  have hjoins := hat.joins_of_not_isBorder hle hle' hwhole (by rw [hcall]; rfl)
  rw [hcall] at hjoins
  obtain ⟨-, args, params, hcalls, hsite⟩ := hjoins.exists_site
  obtain ⟨_, _, _, _, _, hcallee, -, -, -⟩ := id hsite
  obtain ⟨type, hdecl⟩ := mem_decls_of_callee hcallee
  have hlength := hsaturated implementation hmem function args params hcalls hcallee
  refine ⟨implementation, hmem, args, type, params, hcalls, hdecl, hlength, ?_⟩
  intro number arg param harg hparam
  obtain ⟨copy, source, rest, hpassed, hplain⟩ := exists_passed hsite harg hparam
  obtain ⟨before, after, hrest⟩ := hpassed.lowered
  -- the parameters behind this one have other names
  have hfresh : ∀ other ∈ params.drop (number + 1), other.name ≠ param.name := by
    obtain ⟨hlt, hget⟩ := List.getElem?_eq_some_iff.mp hparam
    have hdrop := ((List.drop_sublist number params).map Param.name).nodup (hparams _ _ _ hdecl)
    rw [List.drop_eq_getElem_cons hlt, hget, List.map_cons, List.nodup_cons] at hdrop
    intro other hother hname
    exact hdrop.1 (hname ▸ List.mem_map_of_mem hother)
  refine ⟨copy, source, rest, hpassed, ⟨?_, ?_⟩,
    fun hnot hlabels => hpassed.arrives hlaid hlabels hplain hfresh hnot⟩
  · intro hkept later hlater hreaches
    have hsub : Expr.callsAll (args.drop (number + 1)) ⊆ implementation.body.calls := by
      refine List.Subset.trans ?_ (Stmt.callsAll_subset_calls hcalls)
      intro call hcall
      obtain ⟨expr, hexpr, hcall⟩ := Expr.mem_callsAll.mp hcall
      exact Expr.mem_callsAll.mpr ⟨expr, List.mem_of_mem_drop hexpr, hcall⟩
    obtain ⟨source', hexecutes⟩ := executes_of_reaches hlaid hsaturated rfl hrest
      ((hsaturated implementation hmem).subset hsub) (by simp [hlength]) hcallee
      (List.mem_of_getElem? hparam) hlater hreaches
    exact hkept _ hexecutes rfl
  · intro hnot operation hexecutes hwrites
    obtain ⟨later, hlater, hreaches⟩ := reaches_of_executes hlaid hrest hfresh hexecutes hwrites
    exact hnot later hlater hreaches

/-- A program that calls a function in the last argument of a call of the same function. -/
def nestedCall : Program where
  decls := [.function .int "f" [⟨.int, "a"⟩, ⟨.int, "b"⟩], .function .int "main" []]
  implementations :=
    [⟨"f", .ret (.binary .sub (.scalar "a") (.scalar "b"))⟩,
     ⟨"main", .ret (.call "f" [.literal (.int 1),
       .call "f" [.literal (.int 2), .literal (.int 3)]])⟩]

/-- The code of the program with the nested call. -/
def nestedCallUnit : CodeUnit where
  decls := nestedCall.decls
  strings := .empty
  code :=
    [⟨none, .enter "f"⟩,
     ⟨none, .binary .sub (.temporary (.numbered 0)) (.parameter "f" "a") (.parameter "f" "b")⟩,
     ⟨none, .ret (.temporary (.numbered 0))⟩,
     ⟨none, .leave⟩,
     ⟨none, .enter "main"⟩,
     ⟨none, .copy (.parameter "f" "a") (.constant (.int 1))⟩,
     ⟨none, .copy (.parameter "f" "a") (.constant (.int 2))⟩,
     ⟨none, .copy (.parameter "f" "b") (.constant (.int 3))⟩,
     ⟨none, .call "f" (.temporary (.numbered 1))⟩,
     ⟨none, .copy (.parameter "f" "b") (.temporary (.numbered 1))⟩,
     ⟨none, .call "f" (.temporary (.numbered 2))⟩,
     ⟨none, .ret (.temporary (.numbered 2))⟩,
     ⟨none, .leave⟩]

/-- All parameters of the program with the nested call have different names. -/
theorem nestedCall_params {type : ScalarType} {name : String} {params : List Param}
    (h : .function type name params ∈ nestedCall.decls) : (params.map Param.name).Nodup := by
  rcases List.mem_cons.mp h with h | h
  · obtain rfl := (Decl.function.inj h).2.2
    decide
  · obtain rfl := (Decl.function.inj (List.mem_singleton.mp h)).2.2
    decide

/-- The program with the nested call is lowered to its code. -/
theorem nestedCall_lower : nestedCall.lower = .ok nestedCallUnit := rfl

/-- The result of the inner call arrives at the outer one. -/
theorem nestedCall_passes_result :
    Arrives nestedCallUnit 9 10 "f" "b" (.temporary (.numbered 1)) := by
  obtain ⟨_, -, args, type, params, -, hdecl, hlength, hpassed⟩ :=
    argument_kept_iff_not_reached (rfl : nestedCall.check = []) (fun _ _ _ => nestedCall_params)
      nestedCall_lower (rfl : nestedCallUnit.code[10]? = some _) rfl
  obtain ⟨rfl, rfl⟩ : type = .int ∧ params = [⟨.int, "a"⟩, ⟨.int, "b"⟩] := by
    simpa [nestedCall] using hdecl
  have hlt : 1 < args.length := by
    rw [hlength]
    decide
  obtain ⟨copy, source, rest, h, -, harrives⟩ :=
    hpassed 1 _ ⟨.int, "b"⟩ (List.getElem?_eq_getElem hlt) rfl
  have hlast : args.drop 2 = [] := List.drop_eq_nil_of_le (Nat.le_of_eq hlength)
  rw [hlast] at h harrives
  -- no code stands between the last argument's copy and the call
  obtain ⟨before, after, hrest⟩ := h.lowered
  obtain ⟨rfl, -⟩ := (yields_args_nil_iff (.inl rfl)).mp hrest
  obtain rfl : 9 = copy := Nat.succ.inj h.call_eq
  obtain ⟨whole, hwhole, hcopy⟩ := h.copied
  obtain rfl := Option.some.inj hwhole
  obtain rfl := (Operation.copy.inj hcopy).2
  exact harrives (fun _ hmem => absurd hmem List.not_mem_nil) (by decide)

/-- In the program with the nested call, only the main function calls another. -/
theorem nestedCall_calls {caller callee : String} (h : nestedCall.Calls caller callee) :
    caller = "main" ∧ callee = "f" := by
  obtain ⟨implementation, hmem, rfl, args, hargs⟩ := h
  rcases List.mem_cons.mp hmem with rfl | hmem
  · simp [Stmt.calls, Stmt.exprs, Expr.callsAll, Expr.calls] at hargs
  · obtain rfl := List.mem_singleton.mp hmem
    refine ⟨rfl, ?_⟩
    rcases List.mem_cons.mp hargs with hargs | hargs
    · exact (Prod.mk.inj hargs).1
    · exact (Prod.mk.inj (List.mem_singleton.mp hargs)).1

/-- The first argument of the outer call is overwritten by that of the inner one, although the
program is accepted and no function calls itself. -/
theorem nestedCall_loses_argument :
    nestedCall.check = [] ∧
    (∀ type name params, .function type name params ∈ nestedCall.decls →
      (params.map Param.name).Nodup) ∧
    (∀ function, ¬ TransGen nestedCall.Calls function function) ∧
    nestedCall.lower = .ok nestedCallUnit ∧
    (∃ rest, ArgumentPassed nestedCallUnit (.inside nestedCall.scope "main") "f"
      (.literal (.int 1)) ⟨.int, "a"⟩ [.call "f" [.literal (.int 2), .literal (.int 3)]]
      [⟨.int, "b"⟩] 5 (.constant (.int 1)) rest 10) ∧
    ¬ Arrives nestedCallUnit 5 10 "f" "a" (.constant (.int 1)) := by
  refine ⟨rfl, fun _ _ _ => nestedCall_params, ?acyclic, nestedCall_lower, ?passed, ?lost⟩
  case acyclic =>
    intro function hcycle
    obtain ⟨_, hfirst, -⟩ := TransGen.head'_iff.mp hcycle
    obtain ⟨_, -, hlast⟩ := TransGen.tail'_iff.mp hcycle
    rw [(nestedCall_calls hfirst).1] at hlast
    exact absurd (nestedCall_calls hlast).2 (by decide)
  case passed =>
    have hlocated : nestedCallUnit.code.Located 6 ((nestedCallUnit.code.drop 6).take 4) :=
      (Code.Located.self (nestedCallUnit.code.take 6 ++ (nestedCallUnit.code.drop 6).take 4 ++
        nestedCallUnit.code.drop 10)).left.right
    have hempty : nestedCallUnit.code.Located 5 [] := fun _ _ h => by contradiction
    exact ⟨_, ⟨.full, [], .full, 5, rfl, hempty, rfl⟩, ⟨_, rfl, rfl⟩,
      ⟨⟨1, 0, .empty⟩, ⟨2, 0, .empty⟩, rfl⟩, hlocated, rfl⟩
  case lost =>
    intro harrives
    obtain ⟨earlier, -, previous, -, hvalue, -⟩ :=
      harrives .wholeNumbers ⟨4, [], ⟨fun _ => 0, fun _ _ => 0, fun _ _ => 0, [], []⟩, fun _ => 0⟩
        ⟨rfl, _, _, rfl, rfl⟩ 9 [] _ rfl
    -- the inner call's first argument is there, not the outer call's
    have hfound : (2 : Int) = 1 := hvalue
    exact absurd hfound (by decide)

end ThreeAddress
