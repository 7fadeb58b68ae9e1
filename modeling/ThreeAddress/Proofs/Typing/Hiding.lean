import ThreeAddress.Proofs.Control.Segments
import ThreeAddress.Proofs.Lowering.Globals
import ThreeAddress.Proofs.Typing.Nodes

/-!
# Globals hidden by parameters

In the body of a function a parameter hides the variable and the function of its name: the code of
the body refers to neither. It does not hide the array of its name, which the code refers to
wherever the body indexes that name. The checker reports each such place, because it takes the name
for the parameter.
-/

namespace ThreeAddress

open LowerM

/-- A statement reads or assigns an element of what has some name. -/
def Stmt.Indexes (env : Environment) (name : String) (stmt : Stmt) : Prop :=
  (∃ index, .element name index ∈ stmt.exprs.flatMap (Expr.evaluated env)) ∨
    ∃ index value, .assignElement name index value ∈ stmt.parts

section Names

variable {env : Environment} {name : String} {global other : Global}

/-- A name in a body refers to a global exactly if no parameter hides it. -/
theorem Environment.mem_seen_iff :
    other ∈ env.seen name global ↔ env.hides name = false ∧ other = global := by
  unfold seen
  cases env.hides name <;> simp

/-- A statement refers to what the expressions that it evaluates refer to, and to the targets of the
assignments inside it. -/
theorem Stmt.mem_globals_iff {stmt : Stmt} :
    global ∈ stmt.globals env ↔
      (∃ expr ∈ stmt.exprs.flatMap (Expr.evaluated env), global ∈ expr.ownGlobals env) ∨
        ∃ part ∈ stmt.parts, global ∈ part.targetGlobals env := by
  unfold globals Expr.globals
  rw [List.mem_append, ← List.flatMap_assoc, List.mem_flatMap, List.mem_flatMap]

/-- An expression refers to a variable or a function by itself only if no parameter hides it. -/
theorem Expr.not_hides_of_mem_ownGlobals {expr : Expr}
    (h : global ∈ expr.ownGlobals env)
    (hglobal : global = .variable name ∨ global = .function name) : env.hides name = false := by
  cases expr with
  | literal | input | binary => exact absurd h List.not_mem_nil
  | scalar | call =>
    obtain ⟨hhides, rfl⟩ := Environment.mem_seen_iff.mp h
    rcases hglobal with hglobal | hglobal <;> cases hglobal
    exact hhides
  | element =>
    rw [List.mem_singleton.mp h] at hglobal
    rcases hglobal with hglobal | hglobal <;> cases hglobal

/-- A statement assigns to a variable only if no parameter hides it. -/
theorem Stmt.not_hides_of_mem_targetGlobals {stmt : Stmt} (h : global ∈ stmt.targetGlobals env)
    (hglobal : global = .variable name ∨ global = .function name) : env.hides name = false := by
  cases stmt with
  | assign =>
    obtain ⟨hhides, rfl⟩ := Environment.mem_seen_iff.mp h
    rcases hglobal with hglobal | hglobal <;> cases hglobal
    exact hhides
  | assignElement =>
    rw [List.mem_singleton.mp h] at hglobal
    rcases hglobal with hglobal | hglobal <;> cases hglobal
  | _ => exact absurd h List.not_mem_nil

/-- A statement refers to a variable or a function only if no parameter hides it. -/
theorem Stmt.not_hides_of_mem_globals {stmt : Stmt} (h : global ∈ stmt.globals env)
    (hglobal : global = .variable name ∨ global = .function name) : env.hides name = false := by
  rcases Stmt.mem_globals_iff.mp h with ⟨expr, -, hmem⟩ | ⟨part, -, hmem⟩
  · exact Expr.not_hides_of_mem_ownGlobals hmem hglobal
  · exact Stmt.not_hides_of_mem_targetGlobals hmem hglobal

/-- An expression refers to an array by itself exactly if it reads an element of it. -/
theorem Expr.array_mem_ownGlobals_iff {expr : Expr} :
    .array name ∈ expr.ownGlobals env ↔ ∃ index, expr = .element name index := by
  cases expr with
  | element array index => simp [ownGlobals, eq_comm]
  | _ => simp [ownGlobals, Environment.mem_seen_iff]

/-- A statement assigns to an element of an array exactly if its target is one. -/
theorem Stmt.array_mem_targetGlobals_iff {stmt : Stmt} :
    .array name ∈ stmt.targetGlobals env ↔ ∃ index value, stmt = .assignElement name index value := by
  cases stmt with
  | assignElement array index value => simp [targetGlobals, eq_comm]
  | _ => simp [targetGlobals, Environment.mem_seen_iff]

/-- A statement refers to an array exactly if it indexes the name, hidden or not. -/
theorem Stmt.array_mem_globals_iff {stmt : Stmt} :
    .array name ∈ stmt.globals env ↔ stmt.Indexes env name := by
  rw [Stmt.mem_globals_iff, Indexes]
  refine or_congr ?_ ?_
  · simp only [Expr.array_mem_ownGlobals_iff]
    grind
  · simp only [Stmt.array_mem_targetGlobals_iff]
    grind

/-- The code of a body refers to what the body refers to. -/
theorem Code.globals_framed (function : String) (inner : Code) :
    (framed function inner).globals = inner.globals := by
  rw [framed, globals_push, globals_append]
  exact List.append_nil _

/-- The code that a body is lowered to refers to what the body refers to. -/
theorem Code.IsLoweredFrom.mem_globals_iff {segment : Code} {scope : Scope}
    {implementation : Implementation} (h : segment.IsLoweredFrom scope implementation) :
    global ∈ segment.globals ↔
      global ∈ implementation.body.globals (.inside scope implementation.name) := by
  obtain ⟨before, inner, after, hinner, rfl⟩ := h
  rw [globals_framed]
  exact (globals_of_lowerStmt hinner).mem_iff

/-- A parameter is hidden from nothing inside the body of its function. -/
theorem Environment.hides_param {scope : Scope} {function : String} {signature : Signature}
    (hfunction : scope.function? function = some signature) {param : Param}
    (hparam : param ∈ signature.params) :
    (Environment.inside scope function).hides param.name = true := by
  simp only [inside, hides, hfunction, Option.map_some, decide_eq_true_eq]
  exact List.mem_map_of_mem hparam

/-- Wherever a body indexes a name that a parameter hides, the checker reports that the name is no
array. -/
theorem Program.reports_indexed {program : Program} {implementation : Implementation}
    (hmem : implementation ∈ program.implementations)
    (hhides : (Environment.inside program.scope implementation.name).hides name = true)
    (h : implementation.body.Indexes (.inside program.scope implementation.name) name) :
    .nonArrayIndexed name ∈ program.check ∨ .indexedAssignmentToNonArray name ∈ program.check := by
  obtain ⟨type, initial, hfind⟩ := Scope.exists_find?_within_of_hides hhides
  have hcheck := Program.checkStmt_subset_check hmem
  rcases h with ⟨index, hevaluated⟩ | ⟨index, value, hpart⟩
  · left
    obtain ⟨expr, hexpr, hinner⟩ := List.mem_flatMap.mp hevaluated
    refine hcheck (Scope.exprRule_subset_checkStmt hexpr
      (Expr.evaluated_subset_parts _ expr hinner) (List.mem_append_right _ ?_))
    rw [Scope.elementRule, hfind]
    exact List.mem_singleton_self _
  · right
    refine hcheck (Scope.checkHead_subset_checkStmt hpart (List.mem_append_right _ ?_))
    rw [Scope.assignElementRule, hfind]
    exact List.mem_singleton_self _

end Names

/-- The code of a function's body refers to no global variable and to no function with the name of a
parameter. It refers to the array of that name exactly if the body indexes the name, and then the
program has a diagnostic that says so. -/
theorem parameters_hide_scalars {program : Program} {unit : CodeUnit}
    (hlower : program.lower = .ok unit) :
    List.Forall₂
      (fun implementation segment =>
        ∀ signature, program.scope.function? implementation.name = some signature →
          ∀ param ∈ signature.params,
            .variable param.name ∉ Code.globals segment ∧
              .function param.name ∉ Code.globals segment ∧
              (.array param.name ∈ Code.globals segment ↔
                implementation.body.Indexes (.inside program.scope implementation.name)
                  param.name) ∧
              (.array param.name ∈ Code.globals segment →
                .nonArrayIndexed param.name ∈ program.check ∨
                  .indexedAssignmentToNonArray param.name ∈ program.check))
      program.implementations unit.code.segments := by
  have hsegments := (List.forall₂_and_left _ _).mpr
    ⟨fun _ hmem => hmem, Program.segments_of_lower hlower⟩
  refine hsegments.imp fun implementation segment h signature hfunction param hparam => ?_
  obtain ⟨hmem, hlowered⟩ := h
  have hhides := Environment.hides_param hfunction hparam
  have harray : .array param.name ∈ Code.globals segment ↔
      implementation.body.Indexes (.inside program.scope implementation.name) param.name :=
    hlowered.mem_globals_iff.trans Stmt.array_mem_globals_iff
  refine ⟨fun hvariable => ?_, fun hcalled => ?_, harray, fun hindexed => ?_⟩
  · have hseen := Stmt.not_hides_of_mem_globals (hlowered.mem_globals_iff.mp hvariable) (.inl rfl)
    rw [hhides] at hseen
    contradiction
  · have hseen := Stmt.not_hides_of_mem_globals (hlowered.mem_globals_iff.mp hcalled) (.inr rfl)
    rw [hhides] at hseen
    contradiction
  · exact Program.reports_indexed hmem hhides (harray.mp hindexed)

/-- A program with a function whose parameters have the names of a variable and of an array. -/
def masking : Program where
  decls := [.scalar .int "n" (.int 1), .array .int "v" 2 [],
    .function .int "f" [⟨.int, "n"⟩, ⟨.int, "v"⟩]]
  implementations :=
    [⟨"f", .block [.assign "n" (.element "v" (.literal (.int 0))), .ret (.scalar "n")]⟩]

/-- The code of the program with hidden names. -/
def maskingUnit : CodeUnit where
  decls := masking.decls
  strings := .empty
  code :=
    [⟨none, .enter "f"⟩,
     ⟨none, .copyFromArray (.temporary (.numbered 0)) "v" (.constant (.int 0))⟩,
     ⟨none, .copy (.parameter "f" "n") (.temporary (.numbered 0))⟩,
     ⟨none, .ret (.parameter "f" "n")⟩,
     ⟨none, .leave⟩]

/-- The program with hidden names is lowered to its code. -/
theorem masking_lower : masking.lower = .ok maskingUnit := rfl

/-- In the program with hidden names, the parameter hides the variable, but not the array. -/
theorem masking_hides_scalar :
    .variable "n" ∉ maskingUnit.code.globals ∧ .array "v" ∈ maskingUnit.code.globals ∧
      .nonArrayIndexed "v" ∈ masking.check := by
  obtain ⟨hfirst, -⟩ := List.forall₂_cons.mp (parameters_hide_scalars masking_lower)
  obtain ⟨hvariable, -, -, -⟩ := hfirst _ rfl ⟨.int, "n"⟩ (by decide)
  obtain ⟨-, -, harray, hreported⟩ := hfirst _ rfl ⟨.int, "v"⟩ (by decide)
  have hindexed : .array "v" ∈ maskingUnit.code.globals :=
    harray.mpr (.inl ⟨.literal (.int 0), .tail _ (.head _)⟩)
  refine ⟨hvariable, hindexed, (hreported hindexed).resolve_right (by decide)⟩

/-- A parameter does not hide all globals of its name: an array is not hidden. -/
theorem masking_refers_to_array :
    ¬ ∀ (program : Program) (unit : CodeUnit), program.lower = .ok unit →
      List.Forall₂
        (fun implementation segment =>
          ∀ signature, program.scope.function? implementation.name = some signature →
            ∀ param ∈ signature.params,
              .variable param.name ∉ Code.globals segment ∧
                .array param.name ∉ Code.globals segment ∧
                .function param.name ∉ Code.globals segment)
        program.implementations unit.code.segments := by
  intro h
  obtain ⟨hfirst, -⟩ := List.forall₂_cons.mp (h masking maskingUnit masking_lower)
  obtain ⟨-, harray, -⟩ := hfirst _ rfl ⟨.int, "v"⟩ (by decide)
  exact harray (by decide)

end ThreeAddress
