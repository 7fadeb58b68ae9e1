import ThreeAddress.Proofs.Lowering.Operands
import ThreeAddress.Proofs.Typing.Preservation

/-!
# What is printed

Every value that has a type can be printed, and the code generator takes what is printed for the
address of a text. So it matters which instructions print such an address: the instructions that
print stand, one for one and in order, for the statements that do, and the place they print is the
address of a registered string constant exactly if the printed expression is of type string. Only
literals are of that type, and the constant has the text of the literal.
-/

namespace ThreeAddress

open LowerM

/-- The place an operation prints, if it prints one. -/
def Operation.printed? : Operation → Option Storage
  | .print source => some source
  | _ => none

/-- A place that is printed, with the operations in front of the one that prints it. -/
structure PrintSite where
  /-- The operations in front. -/
  front : List Operation
  /-- The place. -/
  source : Storage
  deriving DecidableEq

/-- The site with more operations in front. -/
def PrintSite.behind (operations : List Operation) (site : PrintSite) : PrintSite :=
  { site with front := operations ++ site.front }

namespace Code

/-- The operations of some code. -/
def operations (code : Code) : List Operation := code.map Instruction.operation

/-- The places that some code prints, in order, each with what stands in front. -/
def prints : Code → List PrintSite
  | [] => []
  | instruction :: rest =>
    (instruction.operation.printed?.toList.map fun source => ⟨[], source⟩) ++
      (prints rest).map (PrintSite.behind [instruction.operation])

/-- A sequence prints what its first part prints, and behind that what its second part does. -/
@[simp] theorem prints_append (first second : Code) :
    prints (first ++ second) =
      prints first ++ (prints second).map (PrintSite.behind first.operations) := by
  induction first with
  | nil =>
    have hnothing : PrintSite.behind (operations []) = id := rfl
    rw [hnothing, List.map_id]
    rfl
  | cons instruction rest ih =>
    have hboth : PrintSite.behind (operations (instruction :: rest)) =
        PrintSite.behind [instruction.operation] ∘ PrintSite.behind (operations rest) := rfl
    rw [List.cons_append, prints, ih, prints, hboth, List.map_append, List.map_map,
      List.append_assoc]

/-- A single operation has nothing in front. -/
@[simp] theorem prints_ofOperation (operation : Operation) :
    (ofOperation operation).prints = operation.printed?.toList.map fun source => ⟨[], source⟩ :=
  List.append_nil _

/-- An operation at the end has the code in front. -/
@[simp] theorem prints_push (code : Code) (operation : Operation) :
    (code.push operation).prints =
      code.prints ++ operation.printed?.toList.map fun source => ⟨code.operations, source⟩ := by
  simp [push, PrintSite.behind]

/-- The place behind a construct prints nothing. -/
@[simp] theorem prints_landing (label : Label) : (landing label).prints = [] := rfl

/-- Labelling puts at most an operation without effect in front. -/
theorem prints_marked (label : Label) (code : Code) :
    (code.marked label).prints = code.prints ∨
      (code.marked label).prints = code.prints.map (PrintSite.behind [.nop]) := by
  match code with
  | ⟨none, _⟩ :: _ => exact .inl rfl
  | [] | ⟨some _, _⟩ :: _ => exact .inr rfl

end Code

mutual

/-- The expressions that a statement prints, in the order in which they are written. -/
def Stmt.printed : Stmt → List Expr
  | .print value => [value]
  | .assign .. | .assignElement .. | .ret _ | .empty => []
  | .ifThen _ positive => positive.printed
  | .ifElse _ positive negative => positive.printed ++ negative.printed
  | .loop _ body => body.printed
  | .block body => Stmt.printedAll body

/-- The expressions that the members of a block print. -/
def Stmt.printedAll : List Stmt → List Expr
  | [] => []
  | stmt :: rest => stmt.printed ++ Stmt.printedAll rest

end

/-- Only literals are of type string. -/
theorem Scope.HasType.string_iff {scope : Scope} {expr : Expr} {type : ValueType}
    (h : scope.HasType expr type) :
    type = .string ↔ ∃ text, expr = .literal (.string text) := by
  cases h with
  | literal value => cases value <;> simp [Literal.type]
  | «scalar» | element | call | input => simp [ScalarType.value_ne_string]
  | binary _ _ hresult => simp [BinaryOp.resultType?_ne_string hresult]

/-- The printed expressions of a well-typed statement have types. -/
theorem Scope.WellTyped.exists_hasType {scope : Scope} {result : ScalarType} {stmt : Stmt}
    (h : scope.WellTyped result stmt) :
    ∀ value ∈ stmt.printed, ∃ type, scope.HasType value type := by
  induction stmt with
  | assign | assignElement | ret | empty => exact fun _ hmem => absurd hmem List.not_mem_nil
  | print value =>
    cases h with
    | print htype =>
      intro other hmem
      obtain rfl := List.mem_singleton.mp hmem
      exact ⟨_, htype⟩
  | ifThen condition positive ih =>
    cases h with
    | ifThen _ hpositive => exact ih hpositive
  | ifElse condition positive negative ihp ihn =>
    cases h with
    | ifElse _ hpositive hnegative =>
      intro value hmem
      exact (List.mem_append.mp hmem).elim (ihp hpositive value) (ihn hnegative value)
  | loop condition body ih =>
    cases h with
    | loop _ hbody => exact ih hbody
  | block body ih =>
    cases h with
    | block hbody =>
      induction body with
      | nil => exact fun _ hmem => absurd hmem List.not_mem_nil
      | cons stmt rest ihrest =>
        intro value hmem
        obtain ⟨hstmt, hrest⟩ := List.forall_mem_cons.mp hbody
        refine (List.mem_append.mp hmem).elim (ih stmt List.mem_cons_self hstmt value) ?_
        exact ihrest (fun other hother => ih other (List.mem_cons_of_mem stmt hother)) hrest value

/-- A string constant stays registered. -/
theorem Supply.Drawn.isSome_find? {first second : Supply} (h : first.Drawn second)
    {id : Temporary} (hfound : (first.strings.find? id).isSome) :
    (second.strings.find? id).isSome := by
  induction h with
  | refl => exact hfound
  | temporary _ ih => exact ih
  | label _ ih => exact ih
  | @string supply text _ ih =>
    by_cases heq : id = .numbered supply.temporaries
    · rw [heq, Supply.afterString, StringPool.find?_insert_self, Option.isSome_some]
    · rwa [Supply.afterString, StringPool.find?_insert_of_ne _ _ heq]

/-- An expression was lowered between two supplies, and the code that leaves its value in the printed
place stands right in front. -/
def PrintSite.LeftBy (env : Environment) (before after : Supply) (site : PrintSite) (expr : Expr) :
    Prop :=
  ∃ start code stop, (lowerExpr env expr).Yields start (code, site.source) stop ∧
    code.operations <:+ site.front ∧ before.Drawn start ∧ stop.Drawn after

namespace PrintSite.LeftBy

variable {env : Environment} {before before' after after' : Supply} {site : PrintSite} {expr : Expr}

/-- What was lowered in a shorter stretch was lowered in a longer one. -/
theorem mono (h : site.LeftBy env before after expr) (hbefore : before'.Drawn before)
    (hafter : after.Drawn after') : site.LeftBy env before' after' expr := by
  obtain ⟨start, code, stop, hyields, hfront, hstart, hstop⟩ := h
  exact ⟨start, code, stop, hyields, hfront, hbefore.trans hstart, hstop.trans hafter⟩

/-- What stands further in front does not matter. -/
theorem behind (h : site.LeftBy env before after expr) (operations : List Operation) :
    (site.behind operations).LeftBy env before after expr := by
  obtain ⟨start, code, stop, hyields, hfront, hdrawn⟩ := h
  exact ⟨start, code, stop, hyields, hfront.trans (List.suffix_append operations site.front), hdrawn⟩

/-- A string literal leaves the address of a registered constant, which has its text as long as the
numbers do not run out. -/
theorem exists_string {text : String}
    (h : site.LeftBy env before after (.literal (.string text))) :
    ∃ id, site.source = .string id ∧ (after.strings.find? id).isSome ∧
      (after.temporaries ≤ 2 ^ 32 → after.strings.find? id = some text) := by
  obtain ⟨start, code, stop, hyields, -, -, hstop⟩ := h
  obtain ⟨-, hsource, rfl⟩ := yields_string_iff.mp hyields
  have hfound : (start.afterString text).strings.find? (.numbered start.temporaries) = some text :=
    StringPool.find?_insert_self start.strings _ text
  refine ⟨_, hsource, hstop.isSome_find? (by rw [hfound, Option.isSome_some]), fun hfit => ?_⟩
  have hgrow : start.temporaries + 1 ≤ after.temporaries := hstop.temporaries_le
  rw [hstop.find?_strings_eq hfit (by omega) (.inl (Nat.lt_succ_self _)), hfound]

/-- Every other expression leaves its value in a place that is no address of a string. -/
theorem ne_string (h : site.LeftBy env before after expr)
    (hexpr : ∀ text, expr ≠ .literal (.string text)) (id : Temporary) : site.source ≠ .string id := by
  obtain ⟨start, code, stop, hyields, -⟩ := h
  refine lowerExpr_induction
    (P := fun expr _ _ place _ => (∀ text, expr ≠ .literal (.string text)) → place ≠ .string id)
    (Q := fun _ _ _ _ _ _ => True)
    ?constant ?string ?scalar ?element ?call ?input ?binary ?surplus ?argument hyields hexpr
  case constant => exact fun _ _ _ => by simp
  case string => exact fun text _ hexpr => absurd rfl (hexpr text)
  case scalar => exact fun name _ _ => env.placeOf_ne_string name id
  case element => exact fun _ _ _ _ _ _ _ _ _ => by simp
  case call => exact fun _ _ _ _ _ _ _ _ _ _ => by simp
  case input => exact fun _ _ _ => by simp
  case binary => exact fun _ _ _ _ _ _ _ _ _ _ _ _ _ _ _ => by simp
  case surplus => exact fun _ _ _ _ _ => trivial
  case argument => exact fun _ _ _ _ _ _ _ _ _ _ _ _ _ _ _ => trivial

end PrintSite.LeftBy

/-- Some sites print, one for one and in order, what some expressions leave. -/
def PrintSites (env : Environment) (before after : Supply) :
    List PrintSite → List Expr → Prop :=
  List.Forall₂ (PrintSite.LeftBy env before after)

namespace PrintSites

variable {env : Environment} {before before' after after' : Supply} {sites others : List PrintSite}
  {exprs rest : List Expr}

/-- Sites of two parts print what the expressions of both leave. -/
theorem append (h : PrintSites env before after sites exprs)
    (h' : PrintSites env before after others rest) :
    PrintSites env before after (sites ++ others) (exprs ++ rest) :=
  List.rel_append h h'

/-- What was lowered in a shorter stretch was lowered in a longer one. -/
theorem mono (h : PrintSites env before after sites exprs) (hbefore : before'.Drawn before)
    (hafter : after.Drawn after') : PrintSites env before' after' sites exprs :=
  h.imp fun _ _ hleft => hleft.mono hbefore hafter

/-- What stands further in front does not matter. -/
theorem behind (h : PrintSites env before after sites exprs) (operations : List Operation) :
    PrintSites env before after (sites.map (PrintSite.behind operations)) exprs :=
  List.forall₂_map_left_iff.mpr (h.imp fun _ _ hleft => hleft.behind operations)

/-- Code may be labelled. -/
theorem marked {code : Code} (h : PrintSites env before after code.prints exprs) (label : Label) :
    PrintSites env before after (code.marked label).prints exprs := by
  obtain heq | heq := code.prints_marked label
  · rwa [heq]
  · rw [heq]
    exact h.behind [.nop]

end PrintSites

section Lowering

variable {env : Environment} {before after : Supply} {code : Code}

/-- Code without operations that print prints nothing. -/
theorem Code.prints_eq_nil {code : Code}
    (h : ∀ instruction ∈ code, instruction.operation.printed? = none) : code.prints = [] := by
  induction code with
  | nil => rfl
  | cons instruction rest ih =>
    obtain ⟨hhead, hrest⟩ := List.forall_mem_cons.mp h
    rw [prints, hhead, ih hrest]
    rfl

/-- The code of an expression prints nothing. -/
theorem prints_eq_nil_of_lowerExpr {expr : Expr} {place : Storage}
    (h : (lowerExpr env expr).Yields before (code, place) after) : code.prints = [] := by
  refine Code.prints_eq_nil fun instruction hmem => ?_
  obtain ⟨index, hindex⟩ := List.getElem?_of_mem hmem
  cases hemits : instruction.operation with
  | print source =>
    have hprint := emits_of_lowerExpr h index instruction hindex
    rw [hemits] at hprint
    cases hprint with
    | value hdestination _ => contradiction
  | _ => rfl

/-- The places that the code of a statement prints are left, one for one and in order, by the
expressions that it prints, each by the code right in front. -/
theorem printSites_of_lowerStmt {stmt : Stmt} (h : (lowerStmt env stmt).Yields before code after) :
    before.Drawn after ∧ PrintSites env before after code.prints stmt.printed := by
  refine lowerStmt_induction
    (P := fun stmt before code after => before.Drawn after ∧
      PrintSites env before after code.prints stmt.printed)
    (Q := fun body before code after => before.Drawn after ∧
      PrintSites env before after code.prints (Stmt.printedAll body))
    ?assign ?assignElement ?print ?ret ?ifThen ?ifElse ?loop ?block ?empty ?nil ?cons h
  case assign =>
    intro target value before code source after hvalue
    refine ⟨(straightLine_of_yields hvalue).drawn, ?_⟩
    simp [PrintSites, prints_eq_nil_of_lowerExpr hvalue, Operation.printed?, Stmt.printed]
  case assignElement =>
    intro array index value before valueCode source middle indexCode place after hvalue hindex
    refine ⟨(straightLine_of_yields hvalue).drawn.trans (straightLine_of_yields hindex).drawn, ?_⟩
    simp [PrintSites, prints_eq_nil_of_lowerExpr hvalue, prints_eq_nil_of_lowerExpr hindex,
      Operation.printed?, Stmt.printed]
  case print =>
    intro value before code source after hvalue
    refine ⟨(straightLine_of_yields hvalue).drawn, ?_⟩
    simpa [PrintSites, prints_eq_nil_of_lowerExpr hvalue, Operation.printed?, Stmt.printed] using
      ⟨before, code, after, hvalue, List.suffix_rfl, .refl, .refl⟩
  case ret =>
    intro value before code source after hvalue
    refine ⟨(straightLine_of_yields hvalue).drawn, ?_⟩
    simp [PrintSites, prints_eq_nil_of_lowerExpr hvalue, Operation.printed?, Stmt.printed]
  case ifThen =>
    rintro condition positive before test place middle branch after htest ⟨hdrawn, hbranch⟩
    have hfirst := (straightLine_of_yields htest).drawn.label
    refine ⟨hfirst.trans hdrawn, ?_⟩
    simpa [prints_eq_nil_of_lowerExpr htest, Operation.printed?, Stmt.printed] using
      (hbranch.mono hfirst .refl).behind _
  case ifElse =>
    rintro condition positive negative before test place middle branch last alternative after htest
      ⟨hdrawn, hbranch⟩ ⟨hdrawn', halternative⟩
    have hfirst := (straightLine_of_yields htest).drawn.label.label
    refine ⟨(hfirst.trans hdrawn).trans hdrawn', ?_⟩
    have hmarked := (halternative.mono (hfirst.trans hdrawn) .refl).marked (.numbered middle.labels)
    simpa [prints_eq_nil_of_lowerExpr htest, Operation.printed?, Stmt.printed] using
      ((hbranch.mono hfirst hdrawn').behind _).append ((hmarked.behind _).behind _)
  case loop =>
    rintro condition body before test place middle round after htest ⟨hdrawn, hround⟩
    have hfirst := Supply.Drawn.refl.label.label.trans (straightLine_of_yields htest).drawn
    refine ⟨hfirst.trans hdrawn, ?_⟩
    have hnothing : (test.marked (.numbered before.labels)).prints = [] := by
      obtain heq | heq := test.prints_marked (.numbered before.labels) <;>
        rw [heq, prints_eq_nil_of_lowerExpr htest]
      rfl
    simpa [hnothing, Operation.printed?, Stmt.printed] using (hround.mono hfirst .refl).behind _
  case block => exact fun _ _ _ _ h => h
  case empty => exact fun _ => ⟨.refl, .nil⟩
  case nil => exact fun _ => ⟨.refl, .nil⟩
  case cons =>
    rintro stmt rest before first middle others after ⟨hdrawn, hfirst⟩ ⟨hdrawn', hothers⟩
    refine ⟨hdrawn.trans hdrawn', ?_⟩
    rw [Code.prints_append]
    exact (hfirst.mono .refl hdrawn').append ((hothers.mono hdrawn .refl).behind _)

/-- The places that the code of bodies prints are left by the expressions that the bodies print. -/
theorem printSites_of_lowerImplementations {scope : Scope} {implementations : List Implementation}
    (h : (lowerImplementations scope implementations).Yields before code after) :
    before.Drawn after ∧
      List.Forall₂
        (fun implementation segment =>
          PrintSites (.inside scope implementation.name) before after (Code.prints segment)
            implementation.body.printed)
        implementations code.segments := by
  induction implementations generalizing before code with
  | nil =>
    obtain ⟨rfl, rfl⟩ := yields_implementations_nil_iff.mp h
    exact ⟨.refl, .nil⟩
  | cons implementation rest ih =>
    obtain ⟨first, middle, others, hfirst, hothers, rfl⟩ := yields_implementations_cons_iff.mp h
    obtain ⟨inner, hinner, hcode⟩ := yields_implementation_iff.mp hfirst
    obtain rfl : first = Code.framed implementation.name inner := hcode
    have hlowered : (Code.framed implementation.name inner).IsLoweredFrom scope implementation :=
      ⟨before, inner, middle, hinner, rfl⟩
    obtain ⟨hdrawn, hbody⟩ := printSites_of_lowerStmt hinner
    obtain ⟨hdrawn', hrest⟩ := ih hothers
    rw [hlowered.segments_append]
    refine ⟨hdrawn.trans hdrawn', .cons ?_ (hrest.imp fun _ _ hsegment =>
      hsegment.mono hdrawn .refl)⟩
    have hframed : (Code.framed implementation.name inner).prints =
        inner.prints.map (PrintSite.behind [.enter implementation.name]) := by
      rw [Code.framed, Code.prints_push, Code.prints_append]
      exact List.append_nil _
    rw [hframed]
    exact (hbody.mono .refl hdrawn').behind _

end Lowering

/-- An accepted program prints, in each of its functions, the places that are left by the printed
expressions of the function's body, each by the code right in front. Every printed expression has a
type. Of those of type string the place is the address of a registered string constant, which has the
text of the literal as long as the numbers do not run out; of the others it is no address of a
string. -/
theorem printed_string_iff {program : Program} (hcheck : program.check = []) :
    ∃ unit, program.lower = .ok unit ∧
      List.Forall₂
        (fun implementation segment => ∃ result params,
          program.scope.Means implementation.name (.function result implementation.name params) ∧
          List.Forall₂
            (fun site value =>
              PrintSite.LeftBy (.inside program.scope implementation.name) .full program.supply site
                value ∧
              ∃ type, (program.scope.withParams params).HasType value type ∧
                (type = .string → ∃ id text,
                  site.source = .string id ∧ value = .literal (.string text) ∧
                  (unit.strings.find? id).isSome ∧
                  (program.supply.temporaries ≤ 2 ^ 32 → unit.strings.find? id = some text)) ∧
                (type ≠ .string → ∀ id, site.source ≠ .string id))
            (Code.prints segment) implementation.body.printed)
        program.implementations unit.code.segments := by
  obtain ⟨unit, -, hlower, -⟩ := Program.exists_typing_of_check hcheck
  refine ⟨unit, hlower, ?_⟩
  obtain ⟨code, after, hyields, rfl⟩ := Program.lower_eq_ok_iff.mp hlower
  rw [Program.supply_eq hyields]
  have hbodies := (Program.WellFormed.of_check hcheck).exists_wellTyped
  refine ((List.forall₂_and_left _ _).mpr
    ⟨hbodies, (printSites_of_lowerImplementations hyields).2⟩).imp ?_
  rintro implementation segment ⟨⟨result, params, hmeans, htyped⟩, hprinted⟩
  refine ⟨result, params, hmeans, List.Forall₂.flip ?_⟩
  refine ((List.forall₂_and_left _ _).mpr ⟨htyped.exists_hasType, hprinted.flip⟩).imp ?_
  rintro value site ⟨⟨type, htype⟩, hleft⟩
  refine ⟨hleft, type, htype, fun hstring => ?_, fun hother =>
    PrintSite.LeftBy.ne_string hleft fun text hvalue => ?_⟩
  · obtain ⟨text, rfl⟩ := htype.string_iff.mp hstring
    obtain ⟨id, hsource, hregistered, hfound⟩ := PrintSite.LeftBy.exists_string hleft
    exact ⟨id, text, hsource, rfl, hregistered, hfound⟩
  · exact hother (htype.string_iff.mpr ⟨text, hvalue⟩)

/-- A program that prints a text and a number. -/
def reporting : Program where
  decls := [.function .int "main" []]
  implementations :=
    [⟨"main", .block [.print (.literal (.string "five")), .print (.literal (.int 5)),
      .ret (.literal (.int 0))]⟩]

/-- The places that the reporting program prints are an address for its text, and none for its
number. -/
theorem reporting_printed :
    reporting.check = [] ∧ ∃ unit, reporting.lower = .ok unit ∧
      List.Forall₂
        (fun implementation segment => ∃ result params,
          reporting.scope.Means implementation.name (.function result implementation.name params) ∧
          List.Forall₂
            (fun site value =>
              PrintSite.LeftBy (.inside reporting.scope implementation.name) .full reporting.supply
                site value ∧
              ∃ type, (reporting.scope.withParams params).HasType value type ∧
                (type = .string → ∃ id text,
                  site.source = .string id ∧ value = .literal (.string text) ∧
                  (unit.strings.find? id).isSome ∧
                  (reporting.supply.temporaries ≤ 2 ^ 32 → unit.strings.find? id = some text)) ∧
                (type ≠ .string → ∀ id, site.source ≠ .string id))
            (Code.prints segment) implementation.body.printed)
        reporting.implementations unit.code.segments :=
  ⟨rfl, printed_string_iff rfl⟩

/-- Not everything that an accepted program prints is the address of a registered string constant:
the number of the reporting program is a constant. -/
theorem reporting_prints_constant :
    ¬ ∀ (program : Program) (unit : CodeUnit), program.check = [] → program.lower = .ok unit →
      ∀ site ∈ unit.code.prints,
        ∃ id, site.source = .string id ∧ (unit.strings.find? id).isSome := by
  intro h
  obtain ⟨id, hstring, -⟩ := h reporting
    ⟨reporting.decls, StringPool.empty.insert (.numbered 0) "five",
      [⟨none, .enter "main"⟩, ⟨none, .print (.string (.numbered 0))⟩,
        ⟨none, .print (.constant (.int 5))⟩, ⟨none, .ret (.constant (.int 0))⟩, ⟨none, .leave⟩]⟩
    rfl rfl ⟨[.enter "main", .print (.string (.numbered 0))], .constant (.int 5)⟩ (by decide)
  contradiction

end ThreeAddress
