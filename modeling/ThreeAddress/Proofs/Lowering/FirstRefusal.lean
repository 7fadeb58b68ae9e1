import ThreeAddress.Proofs.Lowering.Failures
import Mathlib.Data.List.Lex
import Mathlib.Order.Basic

/-!
# The call at which lowering fails

A call has a position: the number of the body that it is in, the number of the expression of that
body, and then the way down from one operand to the next. Positions are compared like words, so they
come in the order in which calls are lowered, and a call comes before those in its arguments.

Lowering looks up the name of every call, except in surplus arguments, and fails at the first one
that is refused: a name that is no function, or that a parameter of the function around hides.
-/

namespace ThreeAddress

section Positions

variable {α : Type*} {parts : List (List (List Nat × α))} {position : List Nat} {thing : α}

/-- Things with their positions in parts: the number of the part stands in front. -/
def inParts (parts : List (List (List Nat × α))) : List (List Nat × α) :=
  (parts.mapIdx fun index part => part.map fun entry => (index :: entry.1, entry.2)).flatten

/-- Every position is behind the earlier ones. -/
def Ascending (entries : List (List Nat × α)) : Prop :=
  entries.Pairwise fun first second => first.1 < second.1

/-- A thing is at a position, and nothing is at an earlier one. -/
def IsFirst (isAt : List Nat → α → Prop) (position : List Nat) (thing : α) : Prop :=
  isAt position thing ∧ ∀ position' thing', isAt position' thing' → position ≤ position'

/-- What is in parts is in one of them. -/
theorem mem_inParts :
    (position, thing) ∈ inParts parts ↔ ∃ index path part,
      position = index :: path ∧ parts[index]? = some part ∧ (path, thing) ∈ part := by
  simp only [inParts, List.mem_flatten, List.mem_mapIdx]
  constructor
  · rintro ⟨_, ⟨index, hindex, rfl⟩, hmem⟩
    obtain ⟨⟨path, thing'⟩, hentry, heq⟩ := List.mem_map.mp hmem
    obtain ⟨rfl, rfl⟩ := Prod.mk.inj heq
    exact ⟨index, path, _, rfl, List.getElem?_eq_getElem hindex, hentry⟩
  · rintro ⟨index, path, part, rfl, hpart, hentry⟩
    obtain ⟨hindex, rfl⟩ := List.getElem?_eq_some_iff.mp hpart
    exact ⟨_, ⟨index, hindex, rfl⟩, List.mem_map.mpr ⟨_, hentry, rfl⟩⟩

/-- If positions are ascending in every part, they are so in all of them. -/
theorem ascending_inParts (h : ∀ part ∈ parts, Ascending part) : Ascending (inParts parts) := by
  rw [Ascending, inParts, List.pairwise_flatten]
  constructor
  · intro numbered hmem
    obtain ⟨index, hindex, rfl⟩ := List.mem_mapIdx.mp hmem
    refine List.pairwise_map.mpr ((h _ (List.getElem_mem hindex)).imp fun hlt => ?_)
    exact List.cons_lt_cons_iff.mpr (.inr ⟨rfl, hlt⟩)
  · rw [List.pairwise_iff_getElem]
    intro first second hfirst hsecond hlt
    simp only [List.getElem_mapIdx, List.forall_mem_map]
    exact fun _ _ _ _ => List.cons_lt_cons_iff.mpr (.inl hlt)

/-- Without positions, the things in parts follow one another. -/
theorem map_snd_inParts (parts : List (List (List Nat × α))) :
    (inParts parts).map Prod.snd = (parts.map (List.map Prod.snd)).flatten := by
  rw [inParts, List.map_flatten]
  congr 1
  refine List.ext_getElem (by simp) fun index _ _ => ?_
  simp

/-- The first of ascending positions is the least. -/
theorem head?_eq_some_iff_isFirst {entries : List (List Nat × α)} (h : Ascending entries) :
    entries.head? = some (position, thing) ↔
      IsFirst (fun position thing => (position, thing) ∈ entries) position thing := by
  cases entries with
  | nil => simp [IsFirst]
  | cons entry rest =>
    obtain ⟨hhead, -⟩ := List.pairwise_cons.mp h
    constructor
    · intro heq
      obtain rfl := Option.some.inj heq
      refine ⟨List.mem_cons_self, fun position' thing' hmem => ?_⟩
      rcases List.mem_cons.mp hmem with heq | hmem
      · obtain ⟨rfl, -⟩ := Prod.mk.inj heq
        exact le_refl _
      · exact le_of_lt (hhead _ hmem)
    · rintro ⟨hmem, hleast⟩
      rcases List.mem_cons.mp hmem with rfl | hmem
      · rfl
      · exact absurd (hhead _ hmem) (not_lt.mpr (hleast _ _ List.mem_cons_self))

end Positions

/-- The operands that are lowered with an expression, in order; a call of a function does without
the arguments that it has no parameters for. -/
def Expr.operands (scope : Scope) : Expr → List Expr
  | .literal _ | .scalar _ | .input _ => []
  | .element _ index => [index]
  | .call function args =>
    match scope.function? function with
    | some signature => args.take signature.params.length
    | none => args
  | .binary _ lhs rhs => [lhs, rhs]

/-- A call of a name is at a position of an expression, in no surplus argument. -/
inductive Expr.CallsAt (scope : Scope) : Expr → List Nat → String → Prop
  | here (function : String) (args : List Expr) :
      CallsAt scope (.call function args) [] function
  | inside {expr operand : Expr} {index : Nat} {path : List Nat} {name : String}
      (hoperand : (expr.operands scope)[index]? = some operand)
      (hcall : CallsAt scope operand path name) : CallsAt scope expr (index :: path) name

/-- A name can not be called in the body of a function: it is no function itself, or a parameter
has the name. -/
def Scope.Refuses (scope : Scope) (function name : String) : Prop :=
  scope.function? name = none ∨
    ∃ signature, scope.function? function = some signature ∧
      name ∈ signature.params.map Param.name

/-- A call of a name that can not be called is at a position of a program, in no surplus
argument. -/
inductive Program.RefusedAt (program : Program) : List Nat → String → Prop
  | intro {body expr : Nat} {path : List Nat} {name : String} {implementation : Implementation}
      {content : Expr} (himplementation : program.implementations[body]? = some implementation)
      (hcontent : implementation.body.exprs[expr]? = some content)
      (hcall : content.CallsAt program.scope path name)
      (hrefused : program.scope.Refuses implementation.name name) :
      RefusedAt program (body :: expr :: path) name

/-- Why a name can not be called that can not be. -/
def Scope.cause (scope : Scope) (name : String) : LoweringError :=
  match scope.find? name with
  | some _ => .notAFunction name
  | none => .undeclaredFunction name

section Expressions

variable {scope : Scope} {expr : Expr}

mutual

/-- The calls of an expression, in no surplus arguments, with their positions in order. -/
def Expr.positions (scope : Scope) : Expr → List (List Nat × String)
  | .literal _ | .scalar _ | .input _ => []
  | .element _ index => inParts [index.positions scope]
  | .call function args =>
    ([], function) :: inParts (
      match scope.function? function with
      | some signature => (Expr.positionsAll scope args).take signature.params.length
      | none => Expr.positionsAll scope args)
  | .binary _ lhs rhs => inParts [lhs.positions scope, rhs.positions scope]

/-- The calls of each of some expressions. -/
def Expr.positionsAll (scope : Scope) : List Expr → List (List (List Nat × String))
  | [] => []
  | expr :: rest => expr.positions scope :: Expr.positionsAll scope rest

end

/-- The calls of some expressions are those of each. -/
theorem Expr.positionsAll_eq_map (scope : Scope) (exprs : List Expr) :
    Expr.positionsAll scope exprs = exprs.map (Expr.positions scope) := by
  induction exprs with
  | nil => rfl
  | cons expr rest ih => rw [positionsAll, ih, List.map_cons]

/-- The name that an expression itself calls. -/
def Expr.ownCall : Expr → List (List Nat × String)
  | .call function _ => [([], function)]
  | _ => []

/-- The call that an expression is comes before those in its operands. -/
theorem Expr.positions_eq (scope : Scope) (expr : Expr) :
    expr.positions scope =
      expr.ownCall ++ inParts ((expr.operands scope).map (Expr.positions scope)) := by
  cases expr with
  | literal | scalar | input | element | binary => rfl
  | call function args =>
    rw [positions, positionsAll_eq_map, operands, ownCall, List.singleton_append]
    split
    · rw [List.map_take]
    · rfl

/-- What holds of an expression once it holds of its operands holds of all expressions. -/
theorem Expr.operands_induction (scope : Scope) {motive : Expr → Prop}
    (step : ∀ expr, (∀ operand ∈ expr.operands scope, motive operand) → motive expr)
    (expr : Expr) : motive expr := by
  induction expr with
  | literal | scalar | input => exact step _ (fun _ h => absurd h List.not_mem_nil)
  | element array index ih => exact step _ (List.forall_mem_singleton.mpr ih)
  | call function args ih =>
    refine step _ fun operand hmem => ih operand ?_
    rw [operands] at hmem
    split at hmem
    · exact List.mem_of_mem_take hmem
    · exact hmem
  | binary op lhs rhs ihl ihr =>
    exact step _ (List.forall_mem_cons.mpr ⟨ihl, List.forall_mem_singleton.mpr ihr⟩)

/-- The calls of an expression are listed. -/
theorem Expr.mem_positions_iff {path : List Nat} {name : String} :
    (path, name) ∈ expr.positions scope ↔ expr.CallsAt scope path name := by
  induction path generalizing expr with
  | nil =>
    rw [positions_eq, List.mem_append]
    constructor
    · rintro (hown | hinside)
      · cases expr with
        | call function args =>
          obtain ⟨-, rfl⟩ := Prod.mk.inj (List.mem_singleton.mp hown)
          exact .here _ args
        | _ => exact absurd hown List.not_mem_nil
      · obtain ⟨_, _, _, heq, -⟩ := mem_inParts.mp hinside
        contradiction
    · rintro ⟨⟩
      exact .inl (List.mem_singleton_self _)
  | cons index path ih =>
    rw [positions_eq, List.mem_append]
    constructor
    · rintro (hown | hinside)
      · cases expr with
        | call function args =>
          obtain ⟨heq, -⟩ := Prod.mk.inj (List.mem_singleton.mp hown)
          contradiction
        | _ => exact absurd hown List.not_mem_nil
      · obtain ⟨index', path', part, heq, hpart, hmem⟩ := mem_inParts.mp hinside
        obtain ⟨rfl, rfl⟩ := List.cons.inj heq
        rw [List.getElem?_map] at hpart
        obtain ⟨operand, hoperand, rfl⟩ := Option.map_eq_some_iff.mp hpart
        exact .inside hoperand (ih.mp hmem)
    · intro h
      cases h with
      | inside hoperand hcall =>
        refine .inr (mem_inParts.mpr ⟨index, path, _, rfl, ?_, ih.mpr hcall⟩)
        rw [List.getElem?_map, hoperand]
        rfl

/-- The calls of an expression are listed in order. -/
theorem Expr.ascending_positions (scope : Scope) (expr : Expr) :
    Ascending (expr.positions scope) := by
  induction expr using Expr.operands_induction scope with
  | step expr ih =>
    have hinside := ascending_inParts (List.forall_mem_map.mpr ih)
    rw [positions_eq]
    cases expr with
    | call function args =>
      refine List.pairwise_cons.mpr ⟨fun entry hmem => ?_, hinside⟩
      obtain ⟨index, path, _, heq, -⟩ := mem_inParts.mp hmem
      rw [heq]
      exact List.nil_lt_cons index path
    | _ => exact hinside

end Expressions

section Refusals

variable {scope : Scope} {function name : String} {error : LoweringError}

/-- Inside a function, the names that can not be called are refused, each for its cause. -/
theorem Environment.refusal?_inside :
    (Environment.inside scope function).refusal? name = some error ↔
      scope.Refuses function name ∧ scope.cause name = error := by
  have hhides : (Environment.inside scope function).hides name = true ↔
      ∃ signature, scope.function? function = some signature ∧
        name ∈ signature.params.map Param.name := by
    rw [Environment.hides, Environment.inside]
    cases scope.function? function <;> simp
  have hscope : (Environment.inside scope function).scope = scope := rfl
  rw [refusal?_eq, hscope, Scope.Refuses, ← hhides, Scope.function?, Scope.cause]
  cases scope.find? name with
  | none => simp
  | some decl => cases decl <;> simp [Decl.signature?]

/-- The names looked up for arguments are those of the arguments that there are parameters for. -/
theorem Expr.calledArgs_eq (env : Environment) (args : List Expr) (count : Nat) :
    Expr.calledArgs env args count = (args.take count).flatMap (Expr.called env) := by
  induction args generalizing count with
  | nil => simp [calledArgs]
  | cons arg args ih =>
    cases count with
    | zero => rfl
    | succ count => rw [calledArgs, ih, List.take_succ_cons, List.flatMap_cons]

/-- The first refusal among the names that an expression looks up is its own or that of its
operands. -/
theorem Environment.firstRefusal?_called (env : Environment) (expr : Expr) :
    env.firstRefusal? (expr.called env) = env.firstRefusal?
      (expr.ownCall.map Prod.snd ++ (expr.operands env.scope).flatMap (Expr.called env)) := by
  cases expr with
  | literal | scalar | input => rfl
  | element => simp [Expr.called, Expr.ownCall, Expr.operands]
  | binary => simp [Expr.called, Expr.ownCall, Expr.operands]
  | call function args =>
    rw [Expr.called, Expr.ownCall, Expr.operands, List.map_singleton, List.singleton_append,
      Expr.calledArgs_eq, firstRefusal?, firstRefusal?, List.findSome?_cons, List.findSome?_cons,
      refusal?, arity, callee]
    -- a name that is refused hides what comes after it, whatever that is
    cases env.scope.function? function with
    | none => cases env.scope.find? function <;> rfl
    | some signature => cases env.hides function <;> rfl

/-- The first refusals of some names that are put together are those of others, if it is so of each
part. -/
theorem Environment.firstRefusal?_flatMap {env : Environment} {exprs : List Expr}
    {names names' : Expr → List String}
    (h : ∀ expr ∈ exprs, env.firstRefusal? (names expr) = env.firstRefusal? (names' expr)) :
    env.firstRefusal? (exprs.flatMap names) = env.firstRefusal? (exprs.flatMap names') := by
  induction exprs with
  | nil => rfl
  | cons expr rest ih =>
    obtain ⟨hexpr, hrest⟩ := List.forall_mem_cons.mp h
    rw [List.flatMap_cons, List.flatMap_cons, firstRefusal?_append, firstRefusal?_append, hexpr,
      ih hrest]

/-- The first refusal of an expression is the first among its calls. -/
theorem Environment.firstRefusal?_positions (env : Environment) (expr : Expr) :
    env.firstRefusal? ((expr.positions env.scope).map Prod.snd) =
      env.firstRefusal? (expr.called env) := by
  induction expr using Expr.operands_induction env.scope with
  | step expr ih =>
    rw [firstRefusal?_called, Expr.positions_eq, List.map_append, map_snd_inParts, List.map_map,
      firstRefusal?_append, firstRefusal?_append, ← firstRefusal?_flatMap ih]
    rfl

/-- The calls of a body that can not be made, with their positions in order. -/
def Implementation.refused (scope : Scope) (implementation : Implementation) :
    List (List Nat × String) :=
  (inParts (implementation.body.exprs.map (Expr.positions scope))).filter fun entry =>
    ((Environment.inside scope implementation.name).refusal? entry.2).isSome

/-- The first refusal among listed names is that of the first that is refused. -/
theorem Environment.firstRefusal?_map_snd (entries : List (List Nat × String)) :
    (Environment.inside scope function).firstRefusal? (entries.map Prod.snd) =
      ((entries.filter fun entry =>
        ((Environment.inside scope function).refusal? entry.2).isSome).head?).map fun entry =>
          scope.cause entry.2 := by
  induction entries with
  | nil => rfl
  | cons entry rest ih =>
    rw [firstRefusal?, List.map_cons, List.findSome?_cons, ← firstRefusal?, ih, List.filter_cons]
    cases hrefusal : (Environment.inside scope function).refusal? entry.2 with
    | none => rfl
    | some cause => exact congrArg some (refusal?_inside.mp hrefusal).2.symm

/-- The body of a function fails for the first of its calls that can not be made. -/
theorem Implementation.refusal?_eq (scope : Scope) (implementation : Implementation) :
    implementation.refusal? scope =
      (implementation.refused scope).head?.map fun entry => scope.cause entry.2 := by
  rw [refused, ← Environment.firstRefusal?_map_snd, map_snd_inParts, List.map_map]
  exact (Environment.firstRefusal?_flatMap fun expr _ =>
    Environment.firstRefusal?_positions (Environment.inside scope implementation.name) expr).symm

/-- The calls of a body that can not be made are in order. -/
theorem Implementation.ascending_refused (scope : Scope) (implementation : Implementation) :
    Ascending (implementation.refused scope) :=
  (ascending_inParts
    (List.forall_mem_map.mpr fun expr _ => expr.ascending_positions scope)).filter _

/-- The calls of a program that can not be made, with their positions in order. -/
def Program.refused (program : Program) : List (List Nat × String) :=
  inParts (program.implementations.map (Implementation.refused program.scope))

/-- The calls of a program that can not be made are in order. -/
theorem Program.ascending_refused (program : Program) : Ascending program.refused :=
  ascending_inParts (List.forall_mem_map.mpr fun implementation _ =>
    implementation.ascending_refused program.scope)

/-- The calls of a program that can not be made are those that are refused. -/
theorem Program.mem_refused_iff {program : Program} {position : List Nat} :
    (position, name) ∈ program.refused ↔ program.RefusedAt position name := by
  simp only [Program.refused, mem_inParts, Implementation.refused, List.getElem?_map,
    Option.map_eq_some_iff]
  constructor
  · rintro ⟨body, _, _, rfl, ⟨implementation, himplementation, rfl⟩, hmem⟩
    obtain ⟨hmem, hrefused⟩ := List.mem_filter.mp hmem
    obtain ⟨error, hrefusal⟩ := Option.isSome_iff_exists.mp hrefused
    obtain ⟨expr, path, _, rfl, hpart, hpath⟩ := mem_inParts.mp hmem
    rw [List.getElem?_map] at hpart
    obtain ⟨content, hcontent, rfl⟩ := Option.map_eq_some_iff.mp hpart
    exact .intro himplementation hcontent (Expr.mem_positions_iff.mp hpath)
      (Environment.refusal?_inside.mp hrefusal).1
  · rintro ⟨himplementation, hcontent, hcall, hrefused⟩
    refine ⟨_, _, _, rfl, ⟨_, himplementation, rfl⟩, List.mem_filter.mpr ⟨?_, ?_⟩⟩
    · refine mem_inParts.mpr ⟨_, _, _, rfl, ?_, Expr.mem_positions_iff.mpr hcall⟩
      rw [List.getElem?_map, hcontent]
      rfl
    · exact Option.isSome_iff_exists.mpr ⟨_, Environment.refusal?_inside.mpr ⟨hrefused, rfl⟩⟩

/-- Lowering fails for the first call that can not be made. -/
theorem Program.lower_eq_error_iff_head? {program : Program} :
    program.lower = .error error ↔
      (program.refused.head?.map fun entry => program.scope.cause entry.2) = some error := by
  have hfirst : program.refused.head?.map Prod.snd = program.implementations.findSome?
      fun implementation => (implementation.refused program.scope).head?.map Prod.snd := by
    rw [Program.refused, ← List.head?_map, map_snd_inParts, List.head?_flatten, List.map_map,
      List.findSome?_map]
    simp only [Function.comp_def, List.head?_map]
  have hcauses : (program.refused.head?.map fun entry => program.scope.cause entry.2) =
      program.implementations.findSome? (Implementation.refusal? program.scope) := by
    rw [← Function.comp_def program.scope.cause Prod.snd, ← Option.map_map, hfirst,
      List.map_findSome?, funext (Implementation.refusal?_eq program.scope)]
    simp only [Function.comp_def, Option.map_map]
  rw [hcauses, Program.lower_eq_error_iff]

/-- Lowering fails exactly if a call is refused that is in no surplus argument, and the error is
about the refused call that comes first. -/
theorem lower_fails_at_first_refused (program : Program) :
    ((∃ error, program.lower = .error error) ↔
      ∃ position name, program.RefusedAt position name) ∧
    ∀ error, program.lower = .error error ↔ ∃ position name,
      IsFirst program.RefusedAt position name ∧ program.scope.cause name = error := by
  have hrefused : (fun position name => (position, name) ∈ program.refused) = program.RefusedAt :=
    funext₂ fun _ _ => propext Program.mem_refused_iff
  simp only [Program.lower_eq_error_iff_head?, ← hrefused,
    ← head?_eq_some_iff_isFirst program.ascending_refused]
  constructor
  · cases program.refused with
    | nil => simp
    | cons entry rest => exact iff_of_true ⟨_, rfl⟩ ⟨entry.1, entry.2, List.mem_cons_self⟩
  · intro error
    rw [Option.map_eq_some_iff]
    exact Prod.exists

end Refusals

end ThreeAddress
