import ThreeAddress.Proofs.Execution.Located

/-!
# Calls in a body and in its code

Every instruction of a lowered body is there for a reason: it computes a value into a temporary,
passes an argument, makes a call of the body, or belongs to a statement. In the other direction,
every call of the body is made by some instruction, and each of its arguments is passed by
another, provided that there are as many arguments as parameters.
-/

namespace ThreeAddress

open LowerM

mutual

/-- The calls inside an expression, those inside arguments before the call itself. -/
def Expr.calls : Expr → List (String × List Expr)
  | .literal _ | .scalar _ | .input _ => []
  | .element _ index => index.calls
  | .call function args => Expr.callsAll args ++ [(function, args)]
  | .binary _ lhs rhs => lhs.calls ++ rhs.calls

/-- The calls inside a list of expressions. -/
def Expr.callsAll : List Expr → List (String × List Expr)
  | [] => []
  | expr :: rest => expr.calls ++ Expr.callsAll rest

end

mutual

/-- The expressions of a statement, in the order in which their code stands. -/
def Stmt.exprs : Stmt → List Expr
  | .assign _ value => [value]
  | .assignElement _ index value => [value, index]
  | .print value => [value]
  | .ret value => [value]
  | .ifThen condition positive => condition :: positive.exprs
  | .ifElse condition positive negative => condition :: positive.exprs ++ negative.exprs
  | .loop condition body => condition :: body.exprs
  | .block body => Stmt.exprsAll body
  | .empty => []

/-- The expressions of the members of a block. -/
def Stmt.exprsAll : List Stmt → List Expr
  | [] => []
  | stmt :: rest => stmt.exprs ++ Stmt.exprsAll rest

end

/-- The calls inside a statement. -/
def Stmt.calls (stmt : Stmt) : List (String × List Expr) := Expr.callsAll stmt.exprs

/-- The calls inside a list are those inside its members. -/
theorem Expr.mem_callsAll {exprs : List Expr} {call : String × List Expr} :
    call ∈ Expr.callsAll exprs ↔ ∃ expr ∈ exprs, call ∈ expr.calls := by
  induction exprs with
  | nil => simp [callsAll]
  | cons expr rest ih => simp [callsAll, ih]

/-- The calls inside a sequence are those inside its parts. -/
@[simp] theorem Expr.callsAll_append (first second : List Expr) :
    Expr.callsAll (first ++ second) = Expr.callsAll first ++ Expr.callsAll second := by
  induction first with
  | nil => rfl
  | cons expr rest ih => simp [callsAll, ih]

/-- With a call, the calls inside its arguments are inside an expression too. -/
theorem Expr.callsAll_subset_calls {expr : Expr} {function : String} {args : List Expr}
    (h : (function, args) ∈ expr.calls) : Expr.callsAll args ⊆ expr.calls := by
  induction expr with
  | literal | scalar | input => exact absurd h List.not_mem_nil
  | element array index ih => exact ih h
  | call callee args' ih =>
    rcases List.mem_append.mp h with h | h
    · obtain ⟨arg, harg, hmem⟩ := Expr.mem_callsAll.mp h
      intro call hcall
      exact List.mem_append_left _ (Expr.mem_callsAll.mpr ⟨arg, harg, ih arg harg hmem hcall⟩)
    · obtain ⟨rfl, rfl⟩ : function = callee ∧ args = args' := by simpa using h
      exact List.subset_append_left _ _
  | binary op lhs rhs ihl ihr =>
    rcases List.mem_append.mp h with h | h
    · exact List.Subset.trans (ihl h) (List.subset_append_left _ _)
    · exact List.Subset.trans (ihr h) (List.subset_append_right _ _)

/-- With a call, the calls inside its arguments are inside a statement too. -/
theorem Stmt.callsAll_subset_calls {stmt : Stmt} {function : String} {args : List Expr}
    (h : (function, args) ∈ stmt.calls) : Expr.callsAll args ⊆ stmt.calls := by
  obtain ⟨expr, hexpr, hmem⟩ := Expr.mem_callsAll.mp h
  intro call hcall
  exact Expr.mem_callsAll.mpr ⟨expr, hexpr, Expr.callsAll_subset_calls hmem hcall⟩

namespace Code

variable {code part first second : Code}

/-- Some instruction of the code has an operation. -/
def Has (code : Code) (operation : Operation) : Prop :=
  ∃ instruction ∈ code, instruction.operation = operation

/-- The operations of a sequence are those of its parts. -/
@[simp] theorem has_append {operation : Operation} :
    (first ++ second : Code).Has operation ↔ first.Has operation ∨ second.Has operation := by
  simp [Has, or_and_right, exists_or]

/-- An operation at the end is one more. -/
@[simp] theorem has_push {operation last : Operation} :
    (code.push last).Has operation ↔ code.Has operation ∨ last = operation := by
  simp [Has, push, ofOperation, Operation.unlabelled, or_and_right, exists_or]

/-- Labelling takes no operation away. -/
theorem Has.marked {operation : Operation} (h : code.Has operation) (label : Label) :
    (code.marked label).Has operation := by
  obtain ⟨instruction, hmem, hoperation⟩ := h
  match code, hmem with
  | ⟨none, _⟩ :: rest, hmem =>
    rcases List.mem_cons.mp hmem with rfl | hmem
    · exact ⟨_, List.mem_cons_self, hoperation⟩
    · exact ⟨instruction, List.mem_cons_of_mem _ hmem, hoperation⟩
  | ⟨some _, _⟩ :: rest, hmem => exact ⟨instruction, List.mem_cons_of_mem _ hmem, hoperation⟩

/-- A statement about all instructions of some code, with the code around them. -/
def Each (Holds : Code → Nat → Operation → Prop) (code : Code) : Prop :=
  ∀ index instruction, code[index]? = some instruction → Holds code index instruction.operation

/-- A statement about an instruction that stays true when its code is put into other code. -/
def IsLocal (Holds : Code → Nat → Operation → Prop) : Prop :=
  ∀ ⦃code : Code⦄ ⦃base : Nat⦄ ⦃part : Code⦄ ⦃index : Nat⦄ ⦃operation : Operation⦄,
    code.Located base part → Holds part index operation → Holds code (base + index) operation

namespace Each

variable {Holds : Code → Nat → Operation → Prop}

/-- Anything holds of no instructions. -/
theorem nil : Each Holds [] := fun _ _ h => by simp at h

/-- What holds of all instructions of two parts holds of those of the sequence. -/
theorem append (hlocal : IsLocal Holds) (h : Each Holds first) (h' : Each Holds second) :
    Each Holds (first ++ second) := by
  intro index instruction hindex
  rcases Nat.lt_or_ge index first.length with hlt | hge
  · rw [List.getElem?_append_left hlt] at hindex
    have hfirst := hlocal (Located.self (first ++ second)).left (h _ _ hindex)
    rwa [Nat.zero_add] at hfirst
  · rw [List.getElem?_append_right hge] at hindex
    have hsecond := hlocal (Located.self (first ++ second)).right (h' _ _ hindex)
    rwa [Nat.zero_add, Nat.add_sub_cancel' hge] at hsecond

/-- One operation more has to be looked at alone. -/
theorem push (hlocal : IsLocal Holds) (h : Each Holds code) {operation : Operation}
    (hlast : Holds (code.push operation) code.length operation) :
    Each Holds (code.push operation) := by
  intro index instruction hindex
  rcases Nat.lt_or_ge index code.length with hlt | hge
  · rw [Code.push, List.getElem?_append_left hlt] at hindex
    have hfirst := hlocal (Located.self (code.push operation)).left (h _ _ hindex)
    rwa [Nat.zero_add] at hfirst
  · have hbound := (List.getElem?_eq_some_iff.mp hindex).1
    rw [length_push] at hbound
    obtain rfl : index = code.length := by omega
    obtain rfl : operation.unlabelled = instruction := by
      simpa [Code.push, ofOperation] using hindex
    exact hlast

/-- Labelling adds at most an instruction without effect. -/
theorem marked (hlocal : IsLocal Holds) (h : Each Holds code)
    (hnop : ∀ code index, Holds code index .nop) (label : Label) :
    Each Holds (code.marked label) := by
  intro index instruction hindex
  have hinserted : code.marked label = ⟨some label, .nop⟩ :: code →
      Holds (code.marked label) index instruction.operation := by
    intro heq
    rw [heq] at hindex ⊢
    cases index with
    | zero =>
      obtain rfl : (⟨some label, .nop⟩ : Instruction) = instruction := by simpa using hindex
      exact hnop _ _
    | succ index =>
      have hbehind : Located ([⟨some label, .nop⟩] ++ code) (0 + 1) code := (Located.self _).right
      have hpart := hlocal hbehind (h index instruction (by simpa using hindex))
      rwa [Nat.zero_add, Nat.add_comm] at hpart
  match code, h with
  | [], _ => exact hinserted rfl
  | ⟨some _, _⟩ :: _, _ => exact hinserted rfl
  | ⟨none, operation⟩ :: rest, h =>
    have hsame : Located (⟨some label, operation⟩ :: rest) 0 (⟨none, operation⟩ :: rest) := by
      intro index instruction hindex
      cases index with
      | zero =>
        obtain rfl : (⟨none, operation⟩ : Instruction) = instruction := by simpa using hindex
        exact ⟨_, rfl, rfl, .inr ⟨rfl, rfl⟩⟩
      | succ index => exact ⟨instruction, by simpa using hindex, rfl, .inl rfl⟩
    cases index with
    | zero =>
      obtain rfl : (⟨some label, operation⟩ : Instruction) = instruction :=
        Option.some.inj hindex
      exact hlocal hsame (h 0 ⟨none, operation⟩ rfl)
    | succ index =>
      have hpart := hlocal hsame (h (index + 1) instruction hindex)
      rwa [Nat.zero_add] at hpart

end Each

end Code

/-- The instruction at an index makes a call, and the code of its arguments stands before it. -/
def CallSite (env : Environment) (code : Code) (index : Nat) (function : String)
    (args : List Expr) (params : List Param) : Prop :=
  ∃ base before argsCode after destination, env.callee function = .ok params ∧
    (lowerArgs env function args params).Yields before argsCode after ∧
    code.Located base (argsCode.push (.call function destination)) ∧
    index = base + argsCode.length

/-- A call stays one if its code is put into other code. -/
theorem CallSite.located {env : Environment} {code part : Code} {base index : Nat}
    {function : String} {args : List Expr} {params : List Param}
    (h : CallSite env part index function args params) (hlocated : code.Located base part) :
    CallSite env code (base + index) function args params := by
  obtain ⟨offset, before, argsCode, after, destination, hcallee, hargs, hpart, rfl⟩ := h
  exact ⟨base + offset, before, argsCode, after, destination, hcallee, hargs, hlocated.trans hpart,
    by omega⟩

/-- Why an instruction stands in the code of expressions with certain calls inside. -/
inductive Emits (env : Environment) (calls : List (String × List Expr)) (code : Code)
    (index : Nat) : Operation → Prop
  /-- It computes a value into a temporary. -/
  | value {operation : Operation} {id : Temporary}
      (hdestination : operation.destination? = some (.temporary id))
      (hcall : ∀ function destination, operation ≠ .call function destination) :
      Emits env calls code index operation
  /-- It passes an argument. -/
  | pass {function : String} {args : List Expr} {params : List Param} {param : Param}
      {source : Storage} (hmem : (function, args) ∈ calls)
      (hcallee : env.callee function = .ok params) (hparam : param ∈ params) :
      Emits env calls code index (.copy (.parameter function param.name) source)
  /-- It makes a call. -/
  | call {function : String} {args : List Expr} {params : List Param} {id : Temporary}
      (hmem : (function, args) ∈ calls) (hsite : CallSite env code index function args params) :
      Emits env calls code index (.call function (.temporary id))

/-- What an instruction stands for does not depend on the code around it. -/
theorem Emits.isLocal (env : Environment) (calls : List (String × List Expr)) :
    Code.IsLocal (Emits env calls) := by
  intro code base part index operation hlocated h
  cases h with
  | value hdestination hcall => exact .value hdestination hcall
  | pass hmem hcallee hparam => exact .pass hmem hcallee hparam
  | call hmem hsite => exact .call hmem (hsite.located hlocated)

/-- An instruction stands for the same if there are more calls. -/
theorem Emits.mono {env : Environment} {calls calls' : List (String × List Expr)} {code : Code}
    {index : Nat} {operation : Operation} (hsub : calls ⊆ calls')
    (h : Emits env calls code index operation) : Emits env calls' code index operation := by
  cases h with
  | value hdestination hcall => exact .value hdestination hcall
  | pass hmem hcallee hparam => exact .pass (hsub hmem) hcallee hparam
  | call hmem hsite => exact .call (hsub hmem) hsite

section Expressions

variable {env : Environment} {before after : Supply} {code : Code} {place : Storage}

/-- Every instruction in the code of an expression is accounted for. -/
theorem emits_of_lowerExpr {expr : Expr}
    (h : (lowerExpr env expr).Yields before (code, place) after) :
    code.Each (Emits env expr.calls) := by
  refine lowerExpr_induction (P := fun expr _ code _ _ => code.Each (Emits env expr.calls))
    (Q := fun function args params _ code _ => ∀ calls, Expr.callsAll args ⊆ calls →
      (∃ args' params', (function, args') ∈ calls ∧ env.callee function = .ok params' ∧
        params ⊆ params') → code.Each (Emits env calls))
    ?constant ?string ?scalar ?element ?call ?input ?binary ?surplus ?argument h
  case constant => exact fun _ _ _ _ h => by simp at h
  case string => exact fun _ _ _ _ h => by simp at h
  case scalar => exact fun _ _ _ _ h => by simp at h
  case element =>
    intro array index before code place after _ hindex
    exact hindex.push (Emits.isLocal _ _) (.value rfl (by simp))
  case call =>
    intro function args params before code after hcallee hargs hemits
    have hmem : (function, args) ∈ Expr.callsAll args ++ [(function, args)] := by simp
    refine (hemits _ (List.subset_append_left _ _) ⟨args, params, hmem, hcallee,
      List.Subset.refl _⟩).push (Emits.isLocal _ _) ?_
    exact .call hmem ⟨0, before, code, after, _, hcallee, hargs, .self _, by omega⟩
  case input =>
    intro type supply
    have hnil : Code.Each (Emits env []) [] := fun _ _ h => by simp at h
    exact hnil.push (Emits.isLocal _ _) (.value rfl (by simp))
  case binary =>
    intro op lhs rhs before leftCode left middle rightCode right after _ _ hleft hright
    have hleft' : leftCode.Each (Emits env (lhs.calls ++ rhs.calls)) := fun index instruction h =>
      (hleft index instruction h).mono (List.subset_append_left _ _)
    have hright' : rightCode.Each (Emits env (lhs.calls ++ rhs.calls)) := fun index instruction h =>
      (hright index instruction h).mono (List.subset_append_right _ _)
    exact (hleft'.append (Emits.isLocal _ _) hright').push (Emits.isLocal _ _)
      (.value rfl (by simp))
  case surplus => exact fun _ _ _ _ _ _ _ _ _ _ h => by simp at h
  case argument =>
    intro function arg args param params before argCode source middle rest after _ _ harg hrest
      calls hsub hcalled
    obtain ⟨hsubArg, hsubRest⟩ := List.append_subset.mp hsub
    obtain ⟨args', params', hmem, hcallee, hparams⟩ := hcalled
    have harg' : argCode.Each (Emits env calls) := fun index instruction h =>
      (harg index instruction h).mono hsubArg
    have hrest' := hrest calls hsubRest
      ⟨args', params', hmem, hcallee, List.Subset.trans (List.subset_cons_self _ _) hparams⟩
    refine (harg'.push (Emits.isLocal _ _) ?_).append (Emits.isLocal _ _) hrest'
    exact .pass hmem hcallee (hparams List.mem_cons_self)

/-- An instruction in the code of arguments belongs to one of them or passes one. -/
theorem emits_of_lowerArgs {function : String} {args : List Expr} {params : List Param}
    (h : (lowerArgs env function args params).Yields before code after) :
    code.Each fun code index operation => Emits env (Expr.callsAll args) code index operation ∨
      ∃ param ∈ params, ∃ source, operation = .copy (.parameter function param.name) source := by
  induction args generalizing params before code with
  | nil =>
    obtain ⟨rfl, rfl⟩ := (yields_args_nil_iff (.inl rfl)).mp h
    exact fun _ _ h => by simp at h
  | cons arg args ih =>
    cases params with
    | nil =>
      obtain ⟨rfl, rfl⟩ := (yields_args_nil_iff (.inr rfl)).mp h
      exact fun _ _ h => by simp at h
    | cons param params =>
      obtain ⟨argCode, source, middle, rest, harg, hrest, rfl⟩ := yields_args_cons_iff.mp h
      have hlocal : Code.IsLocal fun code index operation =>
          Emits env (Expr.callsAll (arg :: args)) code index operation ∨
            ∃ other ∈ param :: params, ∃ source,
              operation = .copy (.parameter function other.name) source :=
        fun _ _ _ _ _ hlocated h => h.imp_left (Emits.isLocal _ _ hlocated)
      refine Code.Each.append hlocal (Code.Each.push hlocal ?_ ?_) ?_
      · intro index instruction hindex
        exact .inl ((emits_of_lowerExpr harg index instruction hindex).mono
          (List.subset_append_left _ _))
      · exact .inr ⟨param, List.mem_cons_self, source, rfl⟩
      · intro index instruction hindex
        refine (ih hrest index instruction hindex).imp (.mono (List.subset_append_right _ _)) ?_
        rintro ⟨other, hother, source, heq⟩
        exact ⟨other, List.mem_cons_of_mem _ hother, source, heq⟩

/-- Every call has as many arguments as the called function has parameters. -/
def Saturated (env : Environment) (calls : List (String × List Expr)) : Prop :=
  ∀ function args params, (function, args) ∈ calls → env.callee function = .ok params →
    args.length = params.length

/-- What holds of more calls holds of fewer. -/
theorem Saturated.subset {calls calls' : List (String × List Expr)} (h : Saturated env calls')
    (hsub : calls ⊆ calls') : Saturated env calls :=
  fun function args params hmem => h function args params (hsub hmem)

/-- Some code calls a function, and passes something for each of its parameters. -/
def Code.Performs (code : Code) (env : Environment) (function : String) : Prop :=
  ∃ params, env.callee function = .ok params ∧
    (∃ destination, code.Has (.call function destination)) ∧
    ∀ param ∈ params, ∃ source, code.Has (.copy (.parameter function param.name) source)

/-- More code does more. -/
theorem Code.Performs.mono {code' : Code} {function : String} (h : code.Performs env function)
    (hsub : ∀ operation, code.Has operation → code'.Has operation) :
    code'.Performs env function := by
  obtain ⟨params, hcallee, ⟨destination, hcall⟩, hpasses⟩ := h
  refine ⟨params, hcallee, ⟨destination, hsub _ hcall⟩, fun param hparam => ?_⟩
  obtain ⟨source, hpass⟩ := hpasses param hparam
  exact ⟨source, hsub _ hpass⟩

/-- The code of an expression makes every call inside it. -/
theorem performs_of_lowerExpr {expr : Expr}
    (h : (lowerExpr env expr).Yields before (code, place) after)
    (hsaturated : Saturated env expr.calls) {function : String} {args : List Expr}
    (hmem : (function, args) ∈ expr.calls) : code.Performs env function := by
  refine lowerExpr_induction
    (P := fun expr _ code _ _ => Saturated env expr.calls →
      ∀ function args, (function, args) ∈ expr.calls → code.Performs env function)
    (Q := fun callee args params _ code _ => Saturated env (Expr.callsAll args) →
      args.length = params.length →
        (∀ function args', (function, args') ∈ Expr.callsAll args → code.Performs env function) ∧
          ∀ param ∈ params, ∃ source, code.Has (.copy (.parameter callee param.name) source))
    ?constant ?string ?scalar ?element ?call ?input ?binary ?surplus ?argument h hsaturated
      function args hmem
  case constant =>
    intro value _ _ function args hmem
    cases value <;> simp [Expr.calls] at hmem
  case string => exact fun _ _ _ _ _ hmem => by simp [Expr.calls] at hmem
  case scalar => exact fun _ _ _ _ _ hmem => by simp [Expr.calls] at hmem
  case input => exact fun _ _ _ _ _ hmem => by simp [Expr.calls] at hmem
  case element =>
    intro array index before code place after _ hindex hsaturated function args hmem
    exact (hindex hsaturated function args hmem).mono fun _ hhas => by simp [hhas]
  case call =>
    intro callee args params before code after hcallee _ hargs hsaturated function args' hmem
    have hlength := hsaturated callee args params (by simp [Expr.calls]) hcallee
    obtain ⟨hinner, hpasses⟩ :=
      hargs (hsaturated.subset (List.subset_append_left _ _)) hlength
    rcases List.mem_append.mp hmem with hmem | hmem
    · exact (hinner function args' hmem).mono fun _ hhas => by simp [hhas]
    · obtain ⟨rfl, rfl⟩ : function = callee ∧ args' = args := by simpa using hmem
      refine ⟨params, hcallee, ⟨_, Code.has_push.mpr (.inr rfl)⟩, fun param hparam => ?_⟩
      obtain ⟨source, hpass⟩ := hpasses param hparam
      exact ⟨source, Code.has_push.mpr (.inl hpass)⟩
  case binary =>
    intro op lhs rhs before leftCode left middle rightCode right after _ _ hleft hright hsaturated
      function args hmem
    rcases List.mem_append.mp hmem with hmem | hmem
    · exact (hleft (hsaturated.subset (List.subset_append_left _ _)) function args hmem).mono
        fun _ hhas => by simp [hhas]
    · exact (hright (hsaturated.subset (List.subset_append_right _ _)) function args hmem).mono
        fun _ hhas => by simp [hhas]
  case surplus =>
    rintro callee args params supply (rfl | rfl) _ hlength
    · obtain rfl := List.length_eq_zero_iff.mp hlength.symm
      simp [Expr.callsAll]
    · obtain rfl := List.length_eq_zero_iff.mp hlength
      simp [Expr.callsAll]
  case argument =>
    intro callee arg args param params before argCode source middle rest after _ _ harg hrest
      hsaturated hlength
    obtain ⟨hinner, hpasses⟩ := hrest (hsaturated.subset (List.subset_append_right _ _))
      (Nat.succ.inj hlength)
    constructor
    · intro function args' hmem
      rcases List.mem_append.mp hmem with hmem | hmem
      · exact (harg (hsaturated.subset (List.subset_append_left _ _)) function args' hmem).mono
          fun _ hhas => by simp [hhas]
      · exact (hinner function args' hmem).mono fun _ hhas => by simp [hhas]
    · intro other hother
      rcases List.mem_cons.mp hother with rfl | hother
      · exact ⟨source, by simp⟩
      · obtain ⟨source', hpass⟩ := hpasses other hother
        exact ⟨source', by simp [hpass]⟩

end Expressions

/-- The code of arguments makes every call inside them. -/
theorem performs_of_lowerArgs {env : Environment} {callee : String} {args : List Expr}
    {params : List Param} {before after : Supply} {code : Code}
    (h : (lowerArgs env callee args params).Yields before code after)
    (hsaturated : Saturated env (Expr.callsAll args)) (hlength : args.length = params.length)
    {function : String} {inner : List Expr} (hmem : (function, inner) ∈ Expr.callsAll args) :
    code.Performs env function := by
  induction args generalizing params before code with
  | nil => simp [Expr.callsAll] at hmem
  | cons arg args ih =>
    cases params with
    | nil => simp at hlength
    | cons param params =>
      obtain ⟨argCode, source, middle, rest, harg, hrest, rfl⟩ := yields_args_cons_iff.mp h
      rcases List.mem_append.mp hmem with hmem | hmem
      · exact (performs_of_lowerExpr harg (hsaturated.subset (List.subset_append_left _ _))
          hmem).mono fun _ hhas => by simp [hhas]
      · exact (ih hrest (hsaturated.subset (List.subset_append_right _ _)) (Nat.succ.inj hlength)
          hmem).mono fun _ hhas => by simp [hhas]

/-- An operation that belongs to a statement itself. -/
inductive Operation.Glue (env : Environment) : Operation → Prop
  | nop : Glue env .nop
  | jump (target : Label) : Glue env (.jump target)
  | jumpIfFalse (condition : Storage) (target : Label) : Glue env (.jumpIfFalse condition target)
  | assign (name : String) (source : Storage) : Glue env (.copy (env.placeOf name) source)
  | copyIntoArray (array : String) (index source : Storage) :
      Glue env (.copyIntoArray array index source)
  | print (source : Storage) : Glue env (.print source)
  | ret (source : Storage) : Glue env (.ret source)

/-- Why an instruction stands in the code of a statement with certain calls inside. -/
def Joins (env : Environment) (calls : List (String × List Expr)) (code : Code) (index : Nat)
    (operation : Operation) : Prop :=
  operation.Glue env ∨ Emits env calls code index operation

/-- What an instruction stands for does not depend on the code around it. -/
theorem Joins.isLocal (env : Environment) (calls : List (String × List Expr)) :
    Code.IsLocal (Joins env calls) :=
  fun _ _ _ _ _ hlocated h => h.imp_right (Emits.isLocal env calls hlocated)

/-- A call stands for a call, and puts its result into a temporary. -/
theorem Joins.exists_site {env : Environment} {calls : List (String × List Expr)} {code : Code}
    {index : Nat} {function : String} {destination : Storage}
    (h : Joins env calls code index (.call function destination)) :
    (∃ id, destination = .temporary id) ∧ ∃ args params, (function, args) ∈ calls ∧
      CallSite env code index function args params := by
  rcases h with hglue | hemits
  · cases hglue
  · cases hemits with
    | value _ hcall => exact absurd rfl (hcall _ _)
    | call hmem hsite => exact ⟨⟨_, rfl⟩, _, _, hmem, hsite⟩

section Statements

variable {env : Environment} {before after : Supply} {code : Code}

/-- Every instruction in the code of a statement is accounted for. -/
theorem joins_of_lowerStmt {stmt : Stmt} (h : (lowerStmt env stmt).Yields before code after) :
    code.Each (Joins env stmt.calls) := by
  -- the calls of the whole are carried along, so that those of the parts are among them
  suffices h : ∀ calls, stmt.calls ⊆ calls → code.Each (Joins env calls) from
    h _ (List.Subset.refl _)
  have hexpr : ∀ {expr before code place after calls},
      (lowerExpr env expr).Yields before (code, place) after → expr.calls ⊆ calls →
        code.Each (Joins env calls) := fun hexpr hsub index instruction hindex =>
    .inr ((emits_of_lowerExpr hexpr index instruction hindex).mono hsub)
  have hlanding : ∀ calls label, Code.Each (Joins env calls) (Code.landing label) := by
    intro calls label
    have hnil : Code.Each (Joins env calls) [] := fun _ _ h => by simp at h
    exact hnil.marked (Joins.isLocal _ _) (fun _ _ => .inl .nop) label
  refine lowerStmt_induction
    (P := fun stmt _ code _ => ∀ calls, stmt.calls ⊆ calls → code.Each (Joins env calls))
    (Q := fun body _ code _ => ∀ calls, Expr.callsAll (Stmt.exprsAll body) ⊆ calls →
      code.Each (Joins env calls))
    ?assign ?assignElement ?print ?ret ?ifThen ?ifElse ?loop ?block ?empty ?nil ?cons h
  case assign =>
    intro target value before code source after hvalue calls hsub
    exact (hexpr hvalue (List.append_subset.mp hsub).1).push (Joins.isLocal _ _)
      (.inl (.assign target source))
  case assignElement =>
    intro array index value before valueCode source middle indexCode place after hvalue hindex
      calls hsub
    obtain ⟨hsubValue, hsub⟩ := List.append_subset.mp hsub
    obtain ⟨hsubIndex, -⟩ := List.append_subset.mp hsub
    exact ((hexpr hvalue hsubValue).append (Joins.isLocal _ _) (hexpr hindex hsubIndex)).push
      (Joins.isLocal _ _) (.inl (.copyIntoArray array place source))
  case print =>
    intro value before code source after hvalue calls hsub
    exact (hexpr hvalue (List.append_subset.mp hsub).1).push (Joins.isLocal _ _)
      (.inl (.print source))
  case ret =>
    intro value before code source after hvalue calls hsub
    exact (hexpr hvalue (List.append_subset.mp hsub).1).push (Joins.isLocal _ _)
      (.inl (.ret source))
  case ifThen =>
    intro condition positive before test place middle branch after htest hbranch calls hsub
    obtain ⟨hsubTest, hsubBranch⟩ := List.append_subset.mp hsub
    exact (((hexpr htest hsubTest).push (Joins.isLocal _ _) (.inl (.jumpIfFalse _ _))).append
      (Joins.isLocal _ _) (hbranch calls hsubBranch)).append (Joins.isLocal _ _)
      (hlanding calls _)
  case ifElse =>
    intro condition positive negative before test place middle branch last alternative after htest
      hbranch halternative calls hsub
    simp only [Stmt.calls, Stmt.exprs, Expr.callsAll_append, Expr.callsAll,
      List.append_subset] at hsub
    obtain ⟨⟨hsubTest, hsubBranch⟩, hsubAlternative⟩ := hsub
    have hmarked := (halternative calls hsubAlternative).marked (Joins.isLocal _ _)
      (fun _ _ => .inl .nop)
    exact ((((hexpr htest hsubTest).push (Joins.isLocal _ _) (.inl (.jumpIfFalse _ _))).append
      (Joins.isLocal _ _) ((hbranch calls hsubBranch).push (Joins.isLocal _ _)
        (.inl (.jump _)))).append (Joins.isLocal _ _) (hmarked _)).append
      (Joins.isLocal _ _) (hlanding calls _)
  case loop =>
    intro condition body before test place middle round after htest hround calls hsub
    obtain ⟨hsubTest, hsubRound⟩ := List.append_subset.mp hsub
    exact ((((hexpr htest hsubTest).marked (Joins.isLocal _ _) (fun _ _ => .inl .nop) _).push
      (Joins.isLocal _ _) (.inl (.jumpIfFalse _ _))).append (Joins.isLocal _ _)
      ((hround calls hsubRound).push (Joins.isLocal _ _) (.inl (.jump _)))).append
      (Joins.isLocal _ _) (hlanding calls _)
  case block => exact fun _ _ _ _ h => h
  case empty => exact fun _ _ _ _ _ h => by simp at h
  case nil => exact fun _ _ _ _ _ h => by simp at h
  case cons =>
    intro stmt rest before first middle others after hfirst hothers calls hsub
    rw [Stmt.exprsAll, Expr.callsAll_append, List.append_subset] at hsub
    exact (hfirst calls hsub.1).append (Joins.isLocal _ _) (hothers calls hsub.2)

/-- The code of a statement makes every call inside it. -/
theorem performs_of_lowerStmt {stmt : Stmt} (h : (lowerStmt env stmt).Yields before code after)
    (hsaturated : Saturated env stmt.calls) {function : String} {args : List Expr}
    (hmem : (function, args) ∈ stmt.calls) : code.Performs env function := by
  -- the parts of a statement are looked at one by one: a call is in one of its expressions
  suffices h : ∀ expr ∈ stmt.exprs, Saturated env expr.calls →
      ∀ function args, (function, args) ∈ expr.calls → code.Performs env function by
    obtain ⟨expr, hexpr, hmem⟩ := Expr.mem_callsAll.mp hmem
    have hsub : expr.calls ⊆ stmt.calls := fun call hcall =>
      Expr.mem_callsAll.mpr ⟨expr, hexpr, hcall⟩
    exact h expr hexpr (hsaturated.subset hsub) function args hmem
  have hsub : ∀ {part whole : Code} {expr : Expr}, (∀ operation, part.Has operation →
      whole.Has operation) → (Saturated env expr.calls → ∀ function args,
        (function, args) ∈ expr.calls → part.Performs env function) →
      Saturated env expr.calls → ∀ function args, (function, args) ∈ expr.calls →
        whole.Performs env function :=
    fun hsub hpart hsaturated function args hmem =>
      (hpart hsaturated function args hmem).mono hsub
  have hexpr : ∀ {expr before code place after},
      (lowerExpr env expr).Yields before (code, place) after → Saturated env expr.calls →
        ∀ function args, (function, args) ∈ expr.calls → code.Performs env function :=
    fun hexpr hsaturated _ _ hmem => performs_of_lowerExpr hexpr hsaturated hmem
  refine lowerStmt_induction
    (P := fun stmt _ code _ => ∀ expr ∈ stmt.exprs, Saturated env expr.calls →
      ∀ function args, (function, args) ∈ expr.calls → code.Performs env function)
    (Q := fun body _ code _ => ∀ expr ∈ Stmt.exprsAll body, Saturated env expr.calls →
      ∀ function args, (function, args) ∈ expr.calls → code.Performs env function)
    ?assign ?assignElement ?print ?ret ?ifThen ?ifElse ?loop ?block ?empty ?nil ?cons h
  case assign =>
    intro target value before code source after hvalue expr hmem
    obtain rfl := List.mem_singleton.mp hmem
    exact hsub (fun _ hhas => by simp [hhas]) (hexpr hvalue)
  case assignElement =>
    intro array index value before valueCode source middle indexCode place after hvalue hindex expr
      hmem
    rcases List.mem_pair.mp hmem with rfl | rfl
    · exact hsub (fun _ hhas => by simp [hhas]) (hexpr hvalue)
    · exact hsub (fun _ hhas => by simp [hhas]) (hexpr hindex)
  case print =>
    intro value before code source after hvalue expr hmem
    obtain rfl := List.mem_singleton.mp hmem
    exact hsub (fun _ hhas => by simp [hhas]) (hexpr hvalue)
  case ret =>
    intro value before code source after hvalue expr hmem
    obtain rfl := List.mem_singleton.mp hmem
    exact hsub (fun _ hhas => by simp [hhas]) (hexpr hvalue)
  case ifThen =>
    intro condition positive before test place middle branch after htest hbranch expr hmem
    rcases List.mem_cons.mp hmem with rfl | hmem
    · exact hsub (fun _ hhas => by simp [hhas]) (hexpr htest)
    · exact hsub (fun _ hhas => by simp [hhas]) (hbranch expr hmem)
  case ifElse =>
    intro condition positive negative before test place middle branch last alternative after htest
      hbranch halternative expr hmem
    rcases List.mem_append.mp hmem with hmem | hmem
    · rcases List.mem_cons.mp hmem with rfl | hmem
      · exact hsub (fun _ hhas => by simp [hhas]) (hexpr htest)
      · exact hsub (fun _ hhas => by simp [hhas]) (hbranch expr hmem)
    · exact hsub (fun _ hhas => by simp [hhas.marked]) (halternative expr hmem)
  case loop =>
    intro condition body before test place middle round after htest hround expr hmem
    rcases List.mem_cons.mp hmem with rfl | hmem
    · exact hsub (fun _ hhas => by simp [hhas.marked]) (hexpr htest)
    · exact hsub (fun _ hhas => by simp [hhas]) (hround expr hmem)
  case block => exact fun _ _ _ _ h => h
  case empty => exact fun _ _ hmem => absurd hmem List.not_mem_nil
  case nil => exact fun _ _ hmem => absurd hmem List.not_mem_nil
  case cons =>
    intro stmt rest before first middle others after hfirst hothers expr hmem
    rcases List.mem_append.mp hmem with hmem | hmem
    · exact hsub (fun _ hhas => by simp [hhas]) (hfirst expr hmem)
    · exact hsub (fun _ hhas => by simp [hhas]) (hothers expr hmem)

end Statements

end ThreeAddress
