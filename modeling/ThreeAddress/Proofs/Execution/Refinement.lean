import ThreeAddress.Proofs.Execution.Statements

/-!
# Lowering preserves meaning

A statement without calls always lowers, and its code, run on its own from any storage, does
exactly what executing the statement does: it runs past its end, comes to a return, is stopped or
goes on for ever if and only if the execution does, and in the same world.

One direction is the simulation of the statement by its code. The other follows from it, since a
run ends in one way only and one that ends does not go on for ever.
-/

namespace ThreeAddress

open LowerM

/-- An expression without calls always lowers. -/
theorem Expr.exists_yields (env : Environment) {expr : Expr} (hfree : expr.callFree = true)
    (before : Supply) :
    ∃ code place after, (lowerExpr env expr).Yields before (code, place) after := by
  induction expr generalizing before with
  | literal value =>
    cases value with
    | int value => exact ⟨_, _, _, (yields_constant_iff (.int value)).mpr ⟨rfl, rfl, rfl⟩⟩
    | float value => exact ⟨_, _, _, (yields_constant_iff (.float value)).mpr ⟨rfl, rfl, rfl⟩⟩
    | char value => exact ⟨_, _, _, (yields_constant_iff (.char value)).mpr ⟨rfl, rfl, rfl⟩⟩
    | string text => exact ⟨_, _, _, yields_string_iff.mpr ⟨rfl, rfl, rfl⟩⟩
  | scalar name => exact ⟨_, _, _, yields_scalar_iff.mpr ⟨rfl, rfl, rfl⟩⟩
  | element array index ih =>
    obtain ⟨code, place, after, hindex⟩ := ih hfree before
    exact ⟨_, _, _, yields_element_iff.mpr ⟨code, place, after, hindex, rfl, rfl, rfl⟩⟩
  | call function args _ => simp [callFree] at hfree
  | input type => exact ⟨_, _, _, yields_input_iff.mpr ⟨rfl, rfl, rfl⟩⟩
  | binary op lhs rhs ihl ihr =>
    have hfrees : lhs.callFree = true ∧ rhs.callFree = true := by simpa [callFree] using hfree
    obtain ⟨leftCode, left, middle, hleft⟩ := ihl hfrees.1 before
    obtain ⟨rightCode, right, last, hright⟩ := ihr hfrees.2 middle
    exact ⟨_, _, _, yields_binary_iff.mpr
      ⟨leftCode, left, middle, rightCode, right, last, hleft, hright, rfl, rfl, rfl⟩⟩

/-- A statement without calls always lowers. -/
theorem Stmt.exists_yields (env : Environment) {stmt : Stmt} (hfree : stmt.callFree = true)
    (before : Supply) : ∃ code after, (lowerStmt env stmt).Yields before code after := by
  induction stmt generalizing before with
  | assign target value =>
    obtain ⟨code, source, after, hvalue⟩ := Expr.exists_yields env hfree before
    exact ⟨_, _, yields_assign_iff.mpr ⟨code, source, hvalue, rfl⟩⟩
  | assignElement array index value =>
    have hfrees : index.callFree = true ∧ value.callFree = true := by
      simpa [callFree] using hfree
    obtain ⟨code, source, middle, hvalue⟩ := Expr.exists_yields env hfrees.2 before
    obtain ⟨indexCode, place, after, hindex⟩ := Expr.exists_yields env hfrees.1 middle
    exact ⟨_, _, yields_assignElement_iff.mpr
      ⟨code, source, middle, indexCode, place, hvalue, hindex, rfl⟩⟩
  | print value =>
    obtain ⟨code, source, after, hvalue⟩ := Expr.exists_yields env hfree before
    exact ⟨_, _, yields_print_iff.mpr ⟨code, source, hvalue, rfl⟩⟩
  | ret value =>
    obtain ⟨code, source, after, hvalue⟩ := Expr.exists_yields env hfree before
    exact ⟨_, _, yields_ret_iff.mpr ⟨code, source, hvalue, rfl⟩⟩
  | ifThen condition positive ih =>
    have hfrees : condition.callFree = true ∧ positive.callFree = true := by
      simpa [callFree] using hfree
    obtain ⟨test, place, middle, htest⟩ := Expr.exists_yields env hfrees.1 before
    obtain ⟨branch, after, hbranch⟩ := ih hfrees.2 middle.afterLabel
    exact ⟨_, _, yields_ifThen_iff.mpr ⟨test, place, middle, branch, htest, hbranch, rfl⟩⟩
  | ifElse condition positive negative ihp ihn =>
    have hfrees : (condition.callFree = true ∧ positive.callFree = true) ∧
        negative.callFree = true := by
      simpa [callFree] using hfree
    obtain ⟨test, place, middle, htest⟩ := Expr.exists_yields env hfrees.1.1 before
    obtain ⟨branch, last, hbranch⟩ := ihp hfrees.1.2 middle.afterLabel.afterLabel
    obtain ⟨alternative, after, halternative⟩ := ihn hfrees.2 last
    exact ⟨_, _, yields_ifElse_iff.mpr
      ⟨test, place, middle, branch, last, alternative, htest, hbranch, halternative, rfl⟩⟩
  | loop condition body ih =>
    have hfrees : condition.callFree = true ∧ body.callFree = true := by
      simpa [callFree] using hfree
    obtain ⟨test, place, middle, htest⟩ :=
      Expr.exists_yields env hfrees.1 before.afterLabel.afterLabel
    obtain ⟨round, after, hround⟩ := ih hfrees.2 middle
    exact ⟨_, _, yields_loop_iff.mpr ⟨test, place, middle, round, htest, hround, rfl⟩⟩
  | block body ih =>
    have hfrees : Stmt.allCallFree body = true := hfree
    simp only [yields_block_iff]
    clear hfree
    induction body generalizing before with
    | nil => exact ⟨_, _, yields_stmts_nil_iff.mpr ⟨rfl, rfl⟩⟩
    | cons stmt rest ihrest =>
      have hfrees' : stmt.callFree = true ∧ Stmt.allCallFree rest = true := by
        simpa [allCallFree] using hfrees
      obtain ⟨first, middle, hfirst⟩ := ih stmt List.mem_cons_self hfrees'.1 before
      obtain ⟨others, after, hothers⟩ :=
        ihrest (fun other hother => ih other (List.mem_cons_of_mem stmt hother)) middle hfrees'.2
      exact ⟨_, _, yields_stmts_cons_iff.mpr ⟨first, middle, others, hfirst, hothers, rfl⟩⟩
  | empty => exact ⟨_, _, yields_empty_iff.mpr ⟨rfl, rfl⟩⟩

namespace Machine

variable {Value Input : Type}

/-- A run and an execution come to the same, whatever that is. -/
structure Agrees (meaning : Interpretation Value Input) (unit : CodeUnit)
    (start : Config Value Input) (exec : Nat → Outcome Value Input) : Prop where
  /-- The run goes past the last instruction as the execution ends. -/
  done : ∀ world, (∃ rounds, exec rounds = .done world) ↔
    ∃ temporaries, Leads meaning unit start (.finished ⟨world, temporaries⟩)
  /-- The run comes to a return as the execution returns. -/
  returned : ∀ value world, (∃ rounds, exec rounds = .returned value world) ↔
    ∃ temporaries, Returns meaning unit start value ⟨world, temporaries⟩
  /-- The run is stopped as the execution is. -/
  trapped : ∀ world, (∃ rounds, exec rounds = .trapped world) ↔
    ∃ temporaries, Leads meaning unit start (.trapped ⟨world, temporaries⟩)
  /-- The run goes on for ever as the execution does. -/
  forever : (∀ rounds, exec rounds = .exhausted) ↔
    ∀ count, ∃ config, run meaning unit count start = .running config

/-- What a run has come to by the time it ends is what an execution came to. -/
def Meets : Outcome Value Input → Progress Value Input → Prop
  | .done world, .finished state => state.world = world
  | .returned value world, .returned value' state => value' = value ∧ state.world = world
  | .trapped world, .trapped state => state.world = world
  | _, _ => False

variable {meaning : Interpretation Value Input} {unit : CodeUnit} {start : Config Value Input}
  {exec : Nat → Outcome Value Input}

/-- A return that no call waits for ends the run. -/
theorem Returns.leads {value : Value} {state : State Value Input}
    (h : Returns meaning unit start value state) (hframes : start.frames = []) :
    Leads meaning unit start (.returned value state) := by
  obtain ⟨position, whole, source, hleads, hwhole, hoperation, rfl⟩ := h
  refine hleads.trans (.of_step ?_)
  rw [step_of_operation meaning _ hwhole hoperation, execute, Config.leave]
  simp only [hframes]

/-- A simulation of every execution makes the run end as some execution does. -/
theorem exists_meets (hframes : start.frames = [])
    (h : ∀ rounds, Ends meaning unit rounds start unit.code.length (exec rounds)) (rounds : Nat) :
    exec rounds = .exhausted ∨
      ∃ progress, Leads meaning unit start progress ∧ (∀ config, progress ≠ .running config) ∧
        Meets (exec rounds) progress := by
  have hends := h rounds
  cases hexec : exec rounds with
  | exhausted => exact .inl rfl
  | done world =>
    rw [hexec] at hends
    obtain ⟨state, hleads, hworld⟩ := hends
    refine .inr ⟨.finished state, hleads.trans (.of_step ?_), by simp, hworld⟩
    simp [step]
  | returned value world =>
    rw [hexec] at hends
    obtain ⟨state, hreturns, hworld⟩ := hends
    exact .inr ⟨.returned value state, hreturns.leads hframes, by simp, rfl, hworld⟩
  | trapped world =>
    rw [hexec] at hends
    obtain ⟨state, hleads, hworld⟩ := hends
    exact .inr ⟨.trapped state, hleads, by simp, hworld⟩

/-- The end of a run is the end of some execution. -/
theorem exists_meets_of_leads (hframes : start.frames = [])
    (h : ∀ rounds, Ends meaning unit rounds start unit.code.length (exec rounds))
    {progress : Progress Value Input} (hleads : Leads meaning unit start progress)
    (hended : ∀ config, progress ≠ .running config) :
    ∃ rounds, Meets (exec rounds) progress := by
  by_cases hforever : ∀ rounds, exec rounds = .exhausted
  · refine absurd (fun count => ?_) (hleads.not_forever hended)
    have hends := h count
    rwa [hforever count] at hends
  · obtain ⟨rounds, hrounds⟩ := not_forall.mp hforever
    obtain hexhausted | ⟨progress', hleads', hended', hmeets⟩ := exists_meets hframes h rounds
    · exact absurd hexhausted hrounds
    · exact ⟨rounds, hleads.unique hleads' hended hended' ▸ hmeets⟩

/-- A simulation of every execution is agreement. -/
theorem Agrees.of_ends (hframes : start.frames = [])
    (h : ∀ rounds, Ends meaning unit rounds start unit.code.length (exec rounds)) :
    Agrees meaning unit start exec where
  done world := by
    constructor
    · rintro ⟨rounds, hexec⟩
      obtain hexhausted | ⟨progress, hleads, -, hmeets⟩ := exists_meets hframes h rounds
      · simp [hexec] at hexhausted
      · cases progress with
        | finished state =>
          simp only [hexec, Meets] at hmeets
          exact ⟨state.temporaries, hmeets ▸ hleads⟩
        | running | returned | trapped => simp [hexec, Meets] at hmeets
    · rintro ⟨temporaries, hleads⟩
      obtain ⟨rounds, hmeets⟩ := exists_meets_of_leads hframes h hleads (by simp)
      refine ⟨rounds, ?_⟩
      cases hexec : exec rounds <;> simp_all [Meets]
  returned value world := by
    constructor
    · rintro ⟨rounds, hexec⟩
      have hends := h rounds
      rw [hexec] at hends
      obtain ⟨state, hreturns, rfl⟩ := hends
      exact ⟨state.temporaries, hreturns⟩
    · rintro ⟨temporaries, hreturns⟩
      obtain ⟨rounds, hmeets⟩ :=
        exists_meets_of_leads hframes h (hreturns.leads hframes) (by simp)
      refine ⟨rounds, ?_⟩
      cases hexec : exec rounds <;> simp_all [Meets]
  trapped world := by
    constructor
    · rintro ⟨rounds, hexec⟩
      have hends := h rounds
      rw [hexec] at hends
      obtain ⟨state, hleads, rfl⟩ := hends
      exact ⟨state.temporaries, hleads⟩
    · rintro ⟨temporaries, hleads⟩
      obtain ⟨rounds, hmeets⟩ := exists_meets_of_leads hframes h hleads (by simp)
      refine ⟨rounds, ?_⟩
      cases hexec : exec rounds <;> simp_all [Meets]
  forever := by
    constructor
    · intro hforever count
      have hends := h count
      rw [hforever count] at hends
      exact Lasts.running hends
    · intro hrun rounds
      obtain hexhausted | ⟨progress, ⟨count, hcount⟩, hended, -⟩ := exists_meets hframes h rounds
      · exact hexhausted
      · obtain ⟨config, hconfig⟩ := hrun count
        exact absurd (hcount.symm.trans hconfig) (hended config)

end Machine

/-- A statement without calls lowers, and its code run on its own agrees with the statement, for
as long as no identifier is taken twice. -/
theorem lowerStmt_agrees (env : Environment) {stmt : Stmt} (hfree : stmt.callFree = true)
    (before : Supply) :
    ∃ code after, (lowerStmt env stmt).Yields before code after ∧
      (after.temporaries ≤ 2 ^ 32 → after.labels ≤ 2 ^ 32 →
        ∀ {Value Input : Type} (meaning : Interpretation Value Input)
          (state : Machine.State Value Input),
          Machine.Agrees meaning ⟨env.scope.decls, after.strings, code⟩ ⟨0, [], state⟩
            fun rounds => stmt.exec meaning env rounds state.world) := by
  obtain ⟨code, after, h⟩ := Stmt.exists_yields env hfree before
  refine ⟨code, after, h, fun hfit hlabels Value Input meaning state => .of_ends rfl ?_⟩
  intro rounds
  have hends : Machine.Ends meaning ⟨env.scope.decls, after.strings, code⟩ rounds ⟨0, [], state⟩
      (0 + code.length) (stmt.exec meaning env rounds state.world) :=
    Machine.ends_of_yields ((labelled_of_lowerStmt h).nodup hlabels) hfree h hfit
      (fun _ _ _ => rfl) _ (.self code)
  rwa [Nat.zero_add] at hends

/-- A loop that counts a variable down. -/
def countdown : Stmt :=
  .loop (.scalar "n") (.assign "n" (.binary .sub (.scalar "n") (.literal (.int 1))))

/-- The code of the loop that counts down. -/
def countdownCode : Code :=
  [⟨some (.numbered 0), .nop⟩,
   ⟨none, .jumpIfFalse (.variable "n") (.numbered 1)⟩,
   ⟨none, .binary .sub (.temporary (.numbered 0)) (.variable "n") (.constant (.int 1))⟩,
   ⟨none, .copy (.variable "n") (.temporary (.numbered 0))⟩,
   ⟨none, .jump (.numbered 0)⟩,
   ⟨some (.numbered 1), .nop⟩]

/-- Storage where every variable is two and all else is zero. -/
def countdownStart : Machine.State Int (List Int) where
  world := ⟨fun _ => 2, fun _ _ => 0, fun _ _ => 0, [], []⟩
  temporaries := fun _ => 0

/-- The loop that counts down agrees with its code. -/
theorem countdown_agrees :
    Machine.Agrees .wholeNumbers ⟨[], .empty, countdownCode⟩ ⟨0, [], countdownStart⟩
      fun rounds => countdown.exec .wholeNumbers (.outside ⟨[]⟩) rounds countdownStart.world := by
  obtain ⟨code, after, h, hagrees⟩ :=
    lowerStmt_agrees (.outside ⟨[]⟩) (rfl : countdown.callFree = true) .full
  have hrun : (lowerStmt (.outside ⟨[]⟩) countdown).Yields .full countdownCode ⟨1, 2, .empty⟩ := rfl
  obtain ⟨rfl, rfl⟩ := h.unique hrun
  exact hagrees (by decide) (by decide) .wholeNumbers countdownStart

end ThreeAddress
