import ThreeAddress.Proofs.Lowering.Failures

/-!
# What lowering takes, also where it fails

What happens while something is lowered can be read off the tree: numbers are taken, texts are
registered and the names of calls are looked up, in a fixed order. Lowering gets as far as the first
name that is refused. What it took on the way there stays taken, and nothing else is taken. So the
supply that a step leaves is known from the supply that it found, whether the step succeeds or not.
-/

namespace ThreeAddress

open LowerM

/-- Something that happens while lowering. -/
inductive LoweringEvent where
  /-- The name of a call is looked up. -/
  | lookup (name : String)
  | temporary
  | label
  /-- A text is registered under the number of a temporary that is taken for it. -/
  | string (text : String)
  deriving DecidableEq

namespace Supply

/-- The supply that an event leaves. -/
def afterEvent (supply : Supply) : LoweringEvent → Supply
  | .lookup _ => supply
  | .temporary => supply.afterTemporary
  | .label => supply.afterLabel
  | .string text => supply.afterString text

/-- The supply that a list of events leaves. -/
def afterEvents (supply : Supply) (events : List LoweringEvent) : Supply :=
  events.foldl afterEvent supply

/-- Events follow one another. -/
@[simp] theorem afterEvents_append (supply : Supply) (events rest : List LoweringEvent) :
    supply.afterEvents (events ++ rest) = (supply.afterEvents events).afterEvents rest :=
  List.foldl_append

/-- Events only draw from a supply. -/
theorem drawn_afterEvents (supply : Supply) (events : List LoweringEvent) :
    supply.Drawn (supply.afterEvents events) := by
  induction events generalizing supply with
  | nil => exact .refl
  | cons event rest ih =>
    have hevent : supply.Drawn (supply.afterEvent event) := by
      cases event with
      | lookup => exact .refl
      | temporary => exact .temporary .refl
      | label => exact .label .refl
      | string text => exact .string text .refl
    exact hevent.trans (ih _)

end Supply

namespace Environment

/-- Whether lowering stops at an event: a name is looked up that can not be called. -/
def stopsAt (env : Environment) : LoweringEvent → Bool
  | .lookup name => (env.refusal? name).isSome
  | _ => false

/-- The events before the first one that lowering stops at. -/
def reached (env : Environment) (events : List LoweringEvent) : List LoweringEvent :=
  events.takeWhile fun event => !env.stopsAt event

section Reached

variable {env : Environment} {events rest : List LoweringEvent}

/-- An event that lowering does not stop at is reached, and what comes after it is decided there. -/
theorem reached_cons {event : LoweringEvent} (h : env.stopsAt event = false) :
    env.reached (event :: events) = event :: env.reached events :=
  List.takeWhile_cons_of_pos (by simp [h])

/-- Behind events that are all reached lowering goes on. -/
theorem reached_append_of_eq (h : env.reached events = events) :
    env.reached (events ++ rest) = events ++ env.reached rest := by
  rw [reached, List.takeWhile_append]
  exact if_pos (congrArg List.length h)

/-- Behind events that are not all reached nothing is. -/
theorem reached_append_of_ne (h : env.reached events ≠ events) :
    env.reached (events ++ rest) = env.reached events := by
  rw [reached, List.takeWhile_append]
  exact if_neg fun hlength => h ((List.takeWhile_prefix _).eq_of_length hlength)

/-- Events that are not all reached do not become so by further ones. -/
theorem reached_ne_append (h : env.reached events ≠ events) :
    env.reached events ≠ events ++ rest := by
  intro heq
  have hstart : env.reached events <+: events := List.takeWhile_prefix _
  refine h (hstart.eq_of_length_le ?_)
  rw [heq, List.length_append]
  exact Nat.le_add_right _ _

end Reached

end Environment

mutual

/-- What happens while an expression is lowered, if nothing is refused. -/
def Expr.events (env : Environment) : Expr → List LoweringEvent
  | .literal (.string text) => [.string text]
  | .literal _ | .scalar _ => []
  | .element _ index => index.events env ++ [.temporary]
  | .call function args =>
    .lookup function :: (Expr.eventsArgs env args (env.arity function) ++ [.temporary])
  | .input _ => [.temporary]
  | .binary _ lhs rhs => lhs.events env ++ (rhs.events env ++ [.temporary])

/-- What happens while a number of arguments are lowered. -/
def Expr.eventsArgs (env : Environment) : List Expr → Nat → List LoweringEvent
  | arg :: args, count + 1 => arg.events env ++ Expr.eventsArgs env args count
  | _, _ => []

end

mutual

/-- What happens while a statement is lowered, if nothing is refused. -/
def Stmt.events (env : Environment) : Stmt → List LoweringEvent
  | .assign _ value | .print value | .ret value => value.events env
  | .assignElement _ index value => value.events env ++ index.events env
  | .ifThen condition positive =>
    condition.events env ++ .label :: positive.events env
  | .ifElse condition positive negative =>
    condition.events env ++ .label :: .label :: (positive.events env ++ negative.events env)
  | .loop condition body =>
    .label :: .label :: (condition.events env ++ body.events env)
  | .block body => Stmt.eventsAll env body
  | .empty => []

/-- What happens while the members of a block are lowered. -/
def Stmt.eventsAll (env : Environment) : List Stmt → List LoweringEvent
  | [] => []
  | stmt :: rest => stmt.events env ++ Stmt.eventsAll env rest

end

namespace LowerM

/-- A step takes what is taken by the events that are reached, and it succeeds if all of them are. -/
def Follows (env : Environment) (step : LowerM α) (events : List LoweringEvent) : Prop :=
  ∀ before, (step.runOn before).2 = before.afterEvents (env.reached events) ∧
    ((∃ result, (step.runOn before).1 = .ok result) ↔ env.reached events = events)

variable {env : Environment}

/-- A step that only yields a value takes nothing. -/
theorem follows_pure (value : α) : (pure value : LowerM α).Follows env [] :=
  fun _ => ⟨rfl, iff_of_true ⟨value, rfl⟩ rfl⟩

/-- Taking a place takes a temporary. -/
theorem follows_takePlace : takePlace.Follows env [.temporary] :=
  fun _ => ⟨rfl, iff_of_true ⟨_, rfl⟩ rfl⟩

/-- Taking a label is an event of its own. -/
theorem follows_takeLabel : takeLabel.Follows env [.label] :=
  fun _ => ⟨rfl, iff_of_true ⟨_, rfl⟩ rfl⟩

/-- A sequence follows the events of its first step and then those of the second. -/
theorem Follows.bind {first : LowerM α} {second : α → LowerM β} {events rest : List LoweringEvent}
    (h : first.Follows env events) (h' : ∀ value, (second value).Follows env rest) :
    (first >>= second).Follows env (events ++ rest) := by
  intro before
  obtain ⟨hsupply, hsucceeds⟩ := h before
  rw [runOn_bind]
  cases hrun : first.runOn before with
  | mk result middle =>
    rw [hrun] at hsupply hsucceeds
    subst hsupply
    -- the second step runs only behind events that are all reached
    cases result with
    | ok value =>
      have hall : env.reached events = events := hsucceeds.mp ⟨value, rfl⟩
      obtain ⟨hsupply', hsucceeds'⟩ := h' value (before.afterEvents events)
      rw [hall, Environment.reached_append_of_eq hall, Supply.afterEvents_append,
        List.append_cancel_left_eq]
      exact ⟨hsupply', hsucceeds'⟩
    | error cause =>
      have hnot : env.reached events ≠ events := fun hall => nomatch hsucceeds.mpr hall
      rw [Environment.reached_append_of_ne hnot]
      exact ⟨rfl, iff_of_false (fun ⟨_, hok⟩ => nomatch hok)
        (Environment.reached_ne_append hnot)⟩

/-- What is done with the result of a step may take nothing more. -/
theorem Follows.bind_pure {first : LowerM α} {second : α → LowerM β} {events : List LoweringEvent}
    (h : first.Follows env events) (h' : ∀ value, (second value).Follows env []) :
    (first >>= second).Follows env events := by
  simpa using h.bind h'

/-- A step goes on behind a name that can be called. -/
theorem Follows.lookup {step : LowerM α} {events : List LoweringEvent} {name : String}
    (h : step.Follows env events) (hname : env.refusal? name = none) :
    step.Follows env (.lookup name :: events) := by
  intro before
  have hgoes : env.stopsAt (.lookup name) = false := by rw [Environment.stopsAt, hname]; rfl
  rw [Environment.reached_cons hgoes, List.cons.injEq, eq_self, true_and]
  exact h before

/-- A step stops at a name that can not be called. -/
theorem follows_refused {name : String} {cause : LoweringError} (second : α → LowerM β)
    (events : List LoweringEvent) (hname : env.refusal? name = some cause) :
    Follows env ((ExceptT.mk (pure (.error cause)) : LowerM α) >>= second)
      (.lookup name :: events) := by
  intro before
  have hstops : env.reached (.lookup name :: events) = [] :=
    List.takeWhile_cons_of_neg (by simp [Environment.stopsAt, hname])
  rw [hstops]
  exact ⟨rfl, iff_of_false (fun ⟨_, hok⟩ => nomatch hok) (List.cons_ne_nil _ _).symm⟩

end LowerM

section Lowering

variable (env : Environment)

/-- Lowering a literal registers its text, if it is a string. -/
theorem follows_lowerLiteral (value : Literal) :
    (lowerLiteral value).Follows env ((Expr.literal value).events env) := by
  cases value with
  | int | float | char => exact follows_pure _
  | string text => exact fun _ => ⟨rfl, iff_of_true ⟨_, rfl⟩ rfl⟩

/-- Lowering arguments follows their events, as far as there are parameters for them. -/
theorem follows_lowerArgs {function : String} {args : List Expr}
    (hargs : ∀ arg ∈ args, (lowerExpr env arg).Follows env (arg.events env))
    (params : List Param) :
    (lowerArgs env function args params).Follows env
      (Expr.eventsArgs env args params.length) := by
  induction args generalizing params with
  | nil => exact follows_pure _
  | cons arg args ih =>
    cases params with
    | nil => exact follows_pure _
    | cons param params =>
      obtain ⟨harg, hargs⟩ := List.forall_mem_cons.mp hargs
      rw [lowerArgs, List.length_cons, Expr.eventsArgs]
      exact harg.bind fun _ => (ih hargs params).bind_pure fun _ => follows_pure _

/-- Lowering an expression follows its events. -/
theorem follows_lowerExpr (expr : Expr) : (lowerExpr env expr).Follows env (expr.events env) := by
  have hplace : ∀ {result : Storage → Code × Storage},
      (do return result (← takePlace) : LowerM (Code × Storage)).Follows env [.temporary] :=
    follows_takePlace.bind_pure fun _ => follows_pure _
  induction expr with
  | literal value => exact (follows_lowerLiteral env value).bind_pure fun _ => follows_pure _
  | scalar name => exact follows_pure _
  | element array index ih => exact ih.bind fun _ => hplace
  | call function args ih =>
    rw [lowerExpr, Expr.events, Environment.arity]
    cases hcallee : env.callee function with
    | error cause =>
      exact follows_refused _ _ (by rw [Environment.refusal?, hcallee])
    | ok params =>
      refine Follows.lookup ?_ (by rw [Environment.refusal?, hcallee])
      exact (follows_lowerArgs env ih params).bind fun _ => hplace
  | input type => exact hplace
  | binary op lhs rhs ihl ihr => exact ihl.bind fun _ => ihr.bind fun _ => hplace

/-- Lowering a statement follows its events. -/
theorem follows_lowerStmt (stmt : Stmt) : (lowerStmt env stmt).Follows env (stmt.events env) := by
  have hexpr := follows_lowerExpr env
  induction stmt with
  | assign target value | print value | ret value =>
    exact (hexpr value).bind_pure fun _ => follows_pure _
  | assignElement array index value =>
    exact (hexpr value).bind fun _ => (hexpr index).bind_pure fun _ => follows_pure _
  | ifThen condition positive ih =>
    exact (hexpr condition).bind fun _ => follows_takeLabel.bind fun _ =>
      ih.bind_pure fun _ => follows_pure _
  | ifElse condition positive negative ihp ihn =>
    exact (hexpr condition).bind fun _ => follows_takeLabel.bind fun _ =>
      follows_takeLabel.bind fun _ => ihp.bind fun _ => ihn.bind_pure fun _ => follows_pure _
  | loop condition body ih =>
    exact follows_takeLabel.bind fun _ => follows_takeLabel.bind fun _ =>
      (hexpr condition).bind fun _ => ih.bind_pure fun _ => follows_pure _
  | block body ih =>
    rw [lowerStmt, Stmt.events]
    induction body with
    | nil => exact follows_pure _
    | cons stmt rest ihrest =>
      obtain ⟨hstmt, hrest⟩ := List.forall_mem_cons.mp ih
      rw [lowerStmts, Stmt.eventsAll]
      exact hstmt.bind fun _ => (ihrest hrest).bind_pure fun _ => follows_pure _
  | empty => exact follows_pure _

/-- Lowering a body follows the events of its statement inside the function. -/
theorem follows_lowerImplementation (scope : Scope) (implementation : Implementation) :
    let inner := Environment.inside scope implementation.name
    (lowerImplementation scope implementation).Follows inner (implementation.body.events inner) :=
  (follows_lowerStmt _ implementation.body).bind_pure fun _ => follows_pure _

end Lowering

end ThreeAddress
