import ThreeAddress.Proofs.Execution.World

/-!
# Running statements as they are written

A statement is executed from its structure: operands from left to right, the value of an
assignment to an element before its index, a branch or another round of a loop after its test.
Only loops can go on for ever, so execution is given a number of rounds that no loop may use up;
a statement runs for ever exactly if every such number is used up.

Calls are not executed here, because a statement alone does not say what they do. A call stops
the execution.
-/

namespace ThreeAddress

/-- Whether an expression contains no call. -/
def Expr.callFree : Expr → Bool
  | .literal _ | .scalar _ | .input _ => true
  | .element _ index => index.callFree
  | .call _ _ => false
  | .binary _ lhs rhs => lhs.callFree && rhs.callFree

mutual

/-- Whether a statement contains no call. -/
def Stmt.callFree : Stmt → Bool
  | .assign _ value => value.callFree
  | .assignElement _ index value => index.callFree && value.callFree
  | .print value => value.callFree
  | .ret value => value.callFree
  | .ifThen condition positive => condition.callFree && positive.callFree
  | .ifElse condition positive negative =>
    condition.callFree && positive.callFree && negative.callFree
  | .loop condition body => condition.callFree && body.callFree
  | .block body => Stmt.allCallFree body
  | .empty => true

/-- Whether no member of a block contains a call. -/
def Stmt.allCallFree : List Stmt → Bool
  | [] => true
  | stmt :: rest => stmt.callFree && Stmt.allCallFree rest

end

/-- What executing a statement comes to. -/
inductive Outcome (Value Input : Type) where
  /-- The statement ended, and what follows it is next. -/
  | done (world : World Value Input)
  /-- The statement returned a value. -/
  | returned (value : Value) (world : World Value Input)
  /-- The execution was stopped. -/
  | trapped (world : World Value Input)
  /-- A loop used up its rounds. -/
  | exhausted

variable {Value Input : Type}

/-- Goes on after a statement that ended. -/
def Outcome.andThen (outcome : Outcome Value Input)
    (next : World Value Input → Outcome Value Input) : Outcome Value Input :=
  match outcome with
  | .done world => next world
  | .returned value world => .returned value world
  | .trapped world => .trapped world
  | .exhausted => .exhausted

/-- Goes on with the value of an expression. -/
def Outcome.withValue (result : Except (World Value Input) (Value × World Value Input))
    (next : Value → World Value Input → Outcome Value Input) : Outcome Value Input :=
  match result with
  | .ok (value, world) => next value world
  | .error world => .trapped world

variable (meaning : Interpretation Value Input) (env : Environment)

/-- The value of an expression and the world afterwards; the world alone if the evaluation is
stopped. -/
def Expr.eval : Expr → World Value Input → Except (World Value Input) (Value × World Value Input)
  | .literal value, world => .ok (meaning.literal value, world)
  | .scalar name, world => .ok (world.lookup env name, world)
  | .element array index, world => do
    let (value, world) ← index.eval world
    match meaning.element array value with
    | some slot => .ok (world.arrays array slot, world)
    | none => .error world
  | .call _ _, world => .error world
  | .input type, world =>
    match meaning.read type world.input with
    | some (value, rest) => .ok (value, { world with input := rest })
    | none => .error world
  | .binary op lhs rhs, world => do
    let (left, world) ← lhs.eval world
    let (right, world) ← rhs.eval world
    match meaning.combine op left right with
    | some value => .ok (value, world)
    | none => .error world

/-- Repeats a test and a body for as long as the test succeeds, but for a number of rounds at
most. -/
def Outcome.repeated
    (test : World Value Input → Except (World Value Input) (Value × World Value Input))
    (body : World Value Input → Outcome Value Input) : Nat → World Value Input →
    Outcome Value Input
  | 0, _ => .exhausted
  | count + 1, world =>
    .withValue (test world) fun condition world =>
      if meaning.isFalse condition then .done world
      else (body world).andThen (Outcome.repeated test body count)

mutual

/-- Executes a statement, with a number of rounds for each loop. -/
def Stmt.exec (rounds : Nat) : Stmt → World Value Input → Outcome Value Input
  | .assign target value, world =>
    .withValue (value.eval meaning env world) fun value world =>
      .done (world.assign env target value)
  | .assignElement array index value, world =>
    .withValue (value.eval meaning env world) fun value world =>
      .withValue (index.eval meaning env world) fun index world =>
        match meaning.element array index with
        | some slot => .done (world.setElement array slot value)
        | none => .trapped world
  | .print value, world =>
    .withValue (value.eval meaning env world) fun value world => .done (world.print value)
  | .ret value, world => .withValue (value.eval meaning env world) .returned
  | .ifThen condition positive, world =>
    .withValue (condition.eval meaning env world) fun condition world =>
      if meaning.isFalse condition then .done world else positive.exec rounds world
  | .ifElse condition positive negative, world =>
    .withValue (condition.eval meaning env world) fun condition world =>
      if meaning.isFalse condition then negative.exec rounds world
      else positive.exec rounds world
  | .loop condition body, world =>
    Outcome.repeated meaning (condition.eval meaning env) (body.exec rounds) rounds world
  | .block body, world => Stmt.execAll rounds body world
  | .empty, world => .done world

/-- Executes the members of a block one after the other. -/
def Stmt.execAll (rounds : Nat) : List Stmt → World Value Input → Outcome Value Input
  | [], world => .done world
  | stmt :: rest, world => (stmt.exec rounds world).andThen (Stmt.execAll rounds rest)

end

/-- Evaluating an expression without calls changes nothing but the input. -/
theorem Expr.eval_world {meaning : Interpretation Value Input} {env : Environment} {expr : Expr}
    {world world' : World Value Input} {value : Value}
    (h : expr.eval meaning env world = .ok (value, world')) :
    world' = { world with input := world'.input } := by
  induction expr generalizing world world' value with
  | literal _ =>
    simp only [eval, Except.ok.injEq, Prod.mk.injEq] at h
    rw [← h.2]
  | scalar _ =>
    simp only [eval, Except.ok.injEq, Prod.mk.injEq] at h
    rw [← h.2]
  | element array index ih =>
    simp only [eval, bind, Except.bind] at h
    split at h
    · contradiction
    · next result hindex =>
      have hworld := ih hindex
      split at h
      · simp only [Except.ok.injEq, Prod.mk.injEq] at h
        rw [← h.2]
        exact hworld
      · contradiction
  | call _ _ => simp [eval] at h
  | input type =>
    simp only [eval] at h
    split at h
    · simp only [Except.ok.injEq, Prod.mk.injEq] at h
      rw [← h.2]
    · contradiction
  | binary op lhs rhs ihl ihr =>
    simp only [eval, bind, Except.bind] at h
    split at h
    · contradiction
    · next left hleft =>
      have hworld := ihl hleft
      split at h
      · contradiction
      · next right hright =>
        have hworld' := ihr hright
        split at h
        · simp only [Except.ok.injEq, Prod.mk.injEq] at h
          rw [← h.2, hworld', hworld]
        · contradiction

end ThreeAddress
