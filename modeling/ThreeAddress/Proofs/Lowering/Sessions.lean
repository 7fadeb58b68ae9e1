import ThreeAddress.Proofs.Typing.Reordering

/-!
# Requests to a session

A session is asked for the code of expressions, statements and bodies, one after the other. What it
answers depends on the function that it is inside of and on what has been taken before. Of the
function only the meaning of names matters: sessions in which all names mean the same answer alike
for as long as they are asked.

A body that was lowered to its end leaves the session outside all functions. A body that fails does
not, and then the parameters of its function still hide what their names mean outside.
-/

namespace ThreeAddress

/-- The names of the parameters that a function is declared with; none for any other name. -/
def Scope.paramNames (scope : Scope) (function : String) : List String :=
  match scope.function? function with
  | some signature => signature.params.map Param.name
  | none => []

namespace Environment

/-- Outside all functions nothing is hidden. -/
@[simp] theorem hides_outside (scope : Scope) (name : String) :
    (outside scope).hides name = false := rfl

/-- Inside a function its parameters are hidden. -/
theorem hides_inside (scope : Scope) (function name : String) :
    (inside scope function).hides name = decide (name ∈ scope.paramNames function) := by
  unfold hides inside Scope.paramNames
  cases scope.function? function <;> rfl

/-- Inside a function its parameters are places of its own. -/
theorem placeOf_inside (scope : Scope) (function name : String) :
    (inside scope function).placeOf name =
      if name ∈ scope.paramNames function then .parameter function name else .variable name := by
  unfold placeOf inside Scope.paramNames
  cases scope.function? function <;> rfl

/-- Names that are not hidden mean what they mean outside. -/
theorem agrees_outside {env : Environment} (hhides : ∀ name, env.hides name = false) :
    env.Agrees (outside env.scope) := by
  constructor
  · funext function
    rw [callee, callee, hhides function, hides_outside]
    rfl
  · funext name
    exact placeOf_of_not_hides (hhides name)

end Environment

namespace LoweringSession

/-- Something that a session is asked to lower. -/
inductive Request where
  | expr (value : Expr)
  | stmt (value : Stmt)
  | implementation (value : Implementation)

/-- The code of what was asked for, with the place of its value if it has one, or why there is no
code. -/
abbrev Answer := Except LoweringError (Code × Option Storage)

/-- Answers a request. -/
def answer (session : LoweringSession) : Request → Answer × LoweringSession
  | .expr value =>
    let (result, after) := session.lowerExpr value
    (result.map fun (code, place) => (code, some place), after)
  | .stmt value =>
    let (result, after) := session.lowerStmt value
    (result.map fun code => (code, none), after)
  | .implementation value =>
    let (result, after) := session.lowerImplementation value
    (result.map fun code => (code, none), after)

/-- The answers to a list of requests. -/
def answers (session : LoweringSession) : List Request → List Answer
  | [] => []
  | request :: rest => (session.answer request).1 :: answers (session.answer request).2 rest

/-- Two sessions go on alike: names mean the same, globally and where they are, and the same has
been taken. -/
structure Agrees (session other : LoweringSession) : Prop where
  scope_eq : session.env.scope = other.env.scope
  env : session.env.Agrees other.env
  supply_eq : session.supply = other.supply

section Agrees

variable {session other : LoweringSession}

/-- A session agrees with itself. -/
theorem Agrees.refl (session : LoweringSession) : session.Agrees session := ⟨rfl, ⟨rfl, rfl⟩, rfl⟩

/-- Sessions that agree give the same answer and agree again. -/
theorem Agrees.answer (h : session.Agrees other) (request : Request) :
    (session.answer request).1 = (other.answer request).1 ∧
      (session.answer request).2.Agrees (other.answer request).2 := by
  obtain ⟨hscope, henv, hsupply⟩ := h
  cases request with
  | expr value =>
    unfold LoweringSession.answer LoweringSession.lowerExpr
    rw [henv.lowerExpr_eq, hsupply]
    exact ⟨rfl, hscope, henv, rfl⟩
  | stmt value =>
    unfold LoweringSession.answer LoweringSession.lowerStmt
    rw [henv.lowerStmt_eq, hsupply]
    exact ⟨rfl, hscope, henv, rfl⟩
  | implementation value =>
    -- the function that a session is inside of plays no part
    have hsame : session.lowerImplementation value = other.lowerImplementation value := by
      unfold LoweringSession.lowerImplementation
      rw [hscope, hsupply]
    rw [LoweringSession.answer, LoweringSession.answer, hsame]
    exact ⟨rfl, Agrees.refl _⟩

/-- Sessions that agree give the same answers for as long as they are asked. -/
theorem Agrees.answers_eq (h : session.Agrees other) (requests : List Request) :
    session.answers requests = other.answers requests := by
  induction requests generalizing session other with
  | nil => rfl
  | cons request rest ih =>
    obtain ⟨hanswer, hagrees⟩ := h.answer request
    rw [answers, answers, hanswer, ih hagrees]

/-- A name becomes the place that it means. -/
theorem lowerExpr_scalar (session : LoweringSession) (name : String) :
    (session.lowerExpr (.scalar name)).1 = .ok ([], session.env.placeOf name) := rfl

/-- The answer to a name is the place that it means. -/
theorem answers_scalar (session : LoweringSession) (name : String) :
    session.answers [.expr (.scalar name)] = [.ok ([], some (session.env.placeOf name))] := rfl

end Agrees

section Body

variable {session : LoweringSession} {implementation : Implementation}

/-- A body that is lowered to its end leaves a session outside all functions. -/
theorem env_of_ok {code : Code}
    (h : (session.lowerImplementation implementation).1 = .ok code) :
    (session.lowerImplementation implementation).2.env = .outside session.env.scope := by
  revert h
  rw [LoweringSession.lowerImplementation]
  split
  · exact fun _ => rfl
  · exact fun h => nomatch h

/-- A body that fails leaves a session inside its function. -/
theorem env_of_error {error : LoweringError}
    (h : (session.lowerImplementation implementation).1 = .error error) :
    (session.lowerImplementation implementation).2.env =
      .inside session.env.scope implementation.name := by
  revert h
  rw [LoweringSession.lowerImplementation]
  split
  · exact fun h => nomatch h
  · exact fun _ => rfl

end Body

/-- The session as it is, with something else taken. -/
def withSupply (session : LoweringSession) (supply : Supply) : LoweringSession :=
  { session with supply := supply }

/-- A session outside all functions goes on after a body as it would have gone on before, but for
what has been taken, exactly if the body was lowered to its end or its function has no parameters.
If the body fails, the parameters still hide what their names mean outside. -/
theorem left_as_found_iff {session : LoweringSession} (implementation : Implementation)
    (houtside : session.env.enclosing? = none) :
    let result := (session.lowerImplementation implementation).1
    let after := (session.lowerImplementation implementation).2
    let hidden := session.env.scope.paramNames implementation.name
    ((∀ requests, after.answers requests =
        (session.withSupply after.supply).answers requests) ↔
      (∃ code, result = .ok code) ∨ hidden = []) ∧
    (∀ code, result = .ok code → after.env = session.env) ∧
    ∀ error, result = .error error → ∀ name ∈ hidden,
      (after.lowerExpr (.scalar name)).1 = .ok ([], .parameter implementation.name name) := by
  intro result after hidden
  have hbefore : session.env = .outside session.env.scope := by
    rw [Environment.outside, ← houtside]
  have hok : ∀ code, result = .ok code → after.env = session.env := fun code hcode =>
    (env_of_ok hcode).trans hbefore.symm
  have herror : ∀ error, result = .error error →
      after.env = .inside session.env.scope implementation.name := fun _ => env_of_error
  have hhides : ∀ error, result = .error error → ∀ name,
      after.env.hides name = decide (name ∈ hidden) := by
    intro error hresult name
    rw [herror error hresult, Environment.hides_inside]
  have hplace : ∀ error, result = .error error → ∀ name ∈ hidden,
      after.env.placeOf name = .parameter implementation.name name := by
    intro error hresult name hname
    rw [herror error hresult, Environment.placeOf_inside, if_pos hname]
  refine ⟨⟨?asFound, ?agrees⟩, hok, ?hides⟩
  case asFound =>
    intro h
    cases hresult : result with
    | ok code => exact .inl ⟨code, rfl⟩
    | error error =>
      refine .inr (List.eq_nil_iff_forall_not_mem.mpr fun name hname => ?_)
      have hanswer := h [.expr (.scalar name)]
      rw [answers_scalar, answers_scalar, hplace error hresult name hname, withSupply, hbefore]
        at hanswer
      cases hanswer
  case agrees =>
    intro h
    cases hresult : result with
    | ok code =>
      have hsame : after = session.withSupply after.supply := by
        rw [withSupply, ← hok code hresult]
      rw [← hsame]
      exact fun _ => rfl
    | error error =>
      have hnil : hidden = [] := h.resolve_left (by simp [hresult])
      have hscope : after.env.scope = session.env.scope := by
        rw [herror error hresult]
        rfl
      have hagrees : after.env.Agrees session.env := by
        rw [hbefore, ← hscope]
        refine Environment.agrees_outside fun name => ?_
        rw [hhides error hresult, hnil]
        rfl
      exact Agrees.answers_eq ⟨hscope, hagrees, rfl⟩
  case hides =>
    intro error hresult name hname
    rw [lowerExpr_scalar, hplace error hresult name hname]

/-- A session in which a function has parameters of the names of a variable and of a function. -/
def covering : LoweringSession :=
  .start ⟨[.function .int "f" [⟨.int, "a"⟩, ⟨.int, "h"⟩], .scalar .int "a" (.int 7),
    .function .int "h" []]⟩

/-- A body that calls what is not declared, behind code that is lowered. -/
def failing : Implementation :=
  ⟨"f", .block [.print (.literal (.string "f")), .print (.call "g" [])]⟩

/-- A body that is lowered to its end. -/
def finishing : Implementation := ⟨"f", .ret (.binary .add (.scalar "a") (.scalar "h"))⟩

/-- The session goes on after the body that is lowered to its end as it would have gone on before. -/
theorem covering_left_as_found :
    covering.env.enclosing? = none ∧ covering.env.scope.paramNames finishing.name ≠ [] ∧
      let after := (covering.lowerImplementation finishing).2
      (∀ requests, after.answers requests = (covering.withSupply after.supply).answers requests) ∧
      after.env = covering.env := by
  have houtside : covering.env.enclosing? = none := rfl
  have hcode : ∃ code, (covering.lowerImplementation finishing).1 = .ok code := ⟨_, rfl⟩
  obtain ⟨hfound, hsame, -⟩ := left_as_found_iff finishing houtside
  obtain ⟨code, hcode⟩ := hcode
  exact ⟨houtside, by decide, hfound.mpr (.inl ⟨code, hcode⟩), hsame code hcode⟩

/-- After the body that fails, a variable is taken for a parameter of its function, and a function
can no longer be called. -/
theorem covering_left_hidden :
    let after := (covering.lowerImplementation failing).2
    let before := covering.withSupply after.supply
    covering.env.enclosing? = none ∧
      (covering.lowerImplementation failing).1 = .error (.undeclaredFunction "g") ∧
      (before.lowerExpr (.scalar "a")).1 = .ok ([], .variable "a") ∧
      (after.lowerExpr (.scalar "a")).1 = .ok ([], .parameter "f" "a") ∧
      (before.lowerExpr (.call "h" [])).1 =
        .ok ([⟨none, .call "h" (.temporary (.numbered 1))⟩], .temporary (.numbered 1)) ∧
      (after.lowerExpr (.call "h" [])).1 = .error (.notAFunction "h") :=
  ⟨rfl, rfl, rfl, rfl, rfl, rfl⟩

end LoweringSession

end ThreeAddress
