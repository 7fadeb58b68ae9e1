import ThreeAddress.Proofs.Execution.Expressions

/-!
# The code of a statement does what the statement says

Where the code of a statement stands, the machine runs as the statement is executed: it gets to
the position behind the code, or to a return of the same value, or is stopped in the same world.
If a loop uses up its rounds, the machine has made at least as many steps. The code may stand
anywhere inside other code, so the lemmas for the parts are used where the parts stand.
-/

namespace ThreeAddress

open LowerM

namespace Machine

variable {Value Input : Type} (meaning : Interpretation Value Input) (unit : CodeUnit)

/-- The machine comes to a return, in the activation it started in. -/
def Returns (config : Config Value Input) (value : Value) (state : State Value Input) : Prop :=
  ∃ position whole source,
    Leads meaning unit config (.running ⟨position, config.frames, state⟩) ∧
      unit.code[position]? = some whole ∧ whole.operation = .ret source ∧
      state.value meaning unit.strings source = value

/-- The machine runs as an execution goes, to a position if the execution ends there. -/
def Ends (rounds : Nat) (config : Config Value Input) (stop : Nat) : Outcome Value Input → Prop
  | .done world =>
    ∃ state, Leads meaning unit config (.running ⟨stop, config.frames, state⟩) ∧
      state.world = world
  | .returned value world => ∃ state, Returns meaning unit config value state ∧ state.world = world
  | .trapped world => ∃ state, Leads meaning unit config (.trapped state) ∧ state.world = world
  | .exhausted => Lasts meaning unit rounds config

variable {meaning unit} {config : Config Value Input} {stop position : Nat}
  {state : State Value Input} {outcome : Outcome Value Input}

/-- A run that gets somewhere returns what it returns from there. -/
theorem Returns.of_leads {value : Value} {state' : State Value Input}
    (h : Leads meaning unit config (.running ⟨position, config.frames, state⟩))
    (h' : Returns meaning unit ⟨position, config.frames, state⟩ value state') :
    Returns meaning unit config value state' := by
  obtain ⟨last, whole, source, hleads, hwhole, hoperation, hvalue⟩ := h'
  exact ⟨last, whole, source, h.trans hleads, hwhole, hoperation, hvalue⟩

namespace Ends

variable {rounds : Nat}

/-- A run that gets somewhere ends as it does from there. -/
theorem of_leads (h : Leads meaning unit config (.running ⟨position, config.frames, state⟩))
    (h' : Ends meaning unit rounds ⟨position, config.frames, state⟩ stop outcome) :
    Ends meaning unit rounds config stop outcome := by
  cases outcome with
  | done world =>
    obtain ⟨last, hleads, hworld⟩ := h'
    exact ⟨last, h.trans hleads, hworld⟩
  | returned value world =>
    obtain ⟨last, hreturns, hworld⟩ := h'
    exact ⟨last, .of_leads h hreturns, hworld⟩
  | trapped world =>
    obtain ⟨last, hleads, hworld⟩ := h'
    exact ⟨last, h.trans hleads, hworld⟩
  | exhausted => exact Lasts.of_leads h h'

/-- A step in front of a run makes up for one round more. -/
theorem of_step
    (h : step meaning unit config = .running ⟨position, config.frames, state⟩)
    (h' : Ends meaning unit rounds ⟨position, config.frames, state⟩ stop outcome) :
    Ends meaning unit (rounds + 1) config stop outcome := by
  cases outcome with
  | done | returned | trapped =>
    exact of_leads (.of_step h) h'
  | exhausted => exact Lasts.of_step h h'

/-- What lasts for some rounds lasts for fewer. -/
theorem mono {rounds' : Nat} (h : Ends meaning unit rounds config stop outcome)
    (hle : rounds' ≤ rounds) : Ends meaning unit rounds' config stop outcome := by
  cases outcome with
  | done | returned | trapped => exact h
  | exhausted => exact Lasts.mono h hle

/-- An execution ends with the step that does what is left to do. -/
theorem done_of_step
    (h : step meaning unit config = .running ⟨stop, config.frames, state⟩) :
    Ends meaning unit rounds config stop (.done state.world) :=
  ⟨state, .of_step h, rfl⟩

/-- An execution in two parts is a run in two parts. -/
theorem andThen {middle : Nat} {next : World Value Input → Outcome Value Input}
    (h : Ends meaning unit rounds config middle outcome)
    (hnext : ∀ state, Ends meaning unit rounds ⟨middle, config.frames, state⟩ stop
      (next state.world)) :
    Ends meaning unit rounds config stop (outcome.andThen next) := by
  cases outcome with
  | done world =>
    obtain ⟨state, hleads, rfl⟩ := h
    exact of_leads hleads (hnext state)
  | returned | trapped | exhausted => exact h

/-- A run that goes on without effect from where an execution ended ends where that leads. -/
theorem pass {middle : Nat} (h : Ends meaning unit rounds config middle outcome)
    (hpass : ∀ state, Leads meaning unit ⟨middle, config.frames, state⟩
      (.running ⟨stop, config.frames, state⟩)) :
    Ends meaning unit rounds config stop outcome := by
  cases outcome with
  | done world =>
    obtain ⟨state, hleads, hworld⟩ := h
    exact ⟨state, hleads.trans (hpass state), hworld⟩
  | returned | trapped | exhausted => exact h

/-- An execution that needs a value first is a run that computes it first. -/
theorem withValue {middle : Nat} {before after : Supply} {place : Storage}
    {result : Except (World Value Input) (Value × World Value Input)}
    {next : Value → World Value Input → Outcome Value Input}
    (h : Evaluates meaning unit before after config middle place result)
    (hnext : ∀ state value, result = .ok (value, state.world) →
      state.value meaning unit.strings place = value →
      State.Kept before after config.state state →
      Ends meaning unit rounds ⟨middle, config.frames, state⟩ stop (next value state.world)) :
    Ends meaning unit rounds config stop (.withValue result next) := by
  cases result with
  | error world => exact h
  | ok result =>
    obtain ⟨value, world⟩ := result
    obtain ⟨state, hleads, rfl, hvalue, hkept⟩ := h
    exact of_leads hleads (hnext state value rfl hvalue hkept)

end Ends

section Jumps

variable {label : Label} {part : Code}

/-- The machine gets into marked code from where its label leads. -/
theorem leads_marked (meaning : Interpretation Value Input) (frames : List Frame)
    (state : State Value Input) (hnodup : unit.code.labels.Nodup)
    (h : unit.code.Located position (part.marked label)) :
    ∃ base, Leads meaning unit ⟨position, frames, state⟩ (.running ⟨base, frames, state⟩) ∧
      unit.code.Located base part ∧
      base + part.length = position + (part.marked label).length := by
  obtain ⟨-, ⟨hlocated, hlength⟩ | ⟨hlocated, hlength, whole, hwhole, hoperation⟩⟩ :=
    h.marked hnodup
  · exact ⟨position, .refl _, hlocated, by omega⟩
  · exact ⟨position + 1, .of_step (step_of_operation meaning _ hwhole hoperation), hlocated,
      by omega⟩

/-- The machine passes the place behind a construct. -/
theorem step_landing (hnodup : unit.code.labels.Nodup)
    (h : unit.code.Located config.position (Code.landing label)) :
    step meaning unit config =
      .running ⟨config.position + 1, config.frames, config.state⟩ := by
  obtain ⟨-, whole, hwhole, hoperation⟩ := h.landing hnodup
  exact step_of_operation meaning config hwhole hoperation

/-- A jump goes to where its label sits. -/
theorem goto_of_position? (h : unit.code.position? label = some position) :
    config.goto unit.code label = .running ⟨position, config.frames, config.state⟩ := by
  rw [Config.goto, h]

end Jumps

/-- A test that fails jumps, and one that succeeds goes on. -/
theorem step_jumpIfFalse (frames : List Frame) {here : Nat} {whole : Instruction}
    {place : Storage} {label : Label} {value : Value} (h : unit.code[here]? = some whole)
    (hoperation : whole.operation = .jumpIfFalse place label)
    (hvalue : state.value meaning unit.strings place = value)
    (hlabel : unit.code.position? label = some position) :
    step meaning unit ⟨here, frames, state⟩ =
      .running ⟨if meaning.isFalse value then position else here + 1, frames, state⟩ := by
  rw [step_of_operation meaning ⟨here, frames, state⟩ h hoperation, execute, hvalue]
  split
  · exact goto_of_position? hlabel
  · rfl

section Statements

variable {env : Environment} {rounds : Nat}

/-- The code of a conditional without an alternative runs its branch or passes it by. -/
theorem ends_ifThen (hnodup : unit.code.labels.Nodup) {condition : Expr} {before after : Supply}
    {test branch : Code} {place : Storage} {label : Label}
    {positive : World Value Input → Outcome Value Input}
    (hlocated : unit.code.Located config.position
      (test.push (.jumpIfFalse place label) ++ branch ++ Code.landing label))
    (htest : Evaluates meaning unit before after config (config.position + test.length) place
      (condition.eval meaning env config.state.world))
    (hbranch : ∀ config, unit.code.Located config.position branch →
      Ends meaning unit rounds config (config.position + branch.length)
        (positive config.state.world)) :
    Ends meaning unit rounds config
      (config.position +
        (test.push (.jumpIfFalse place label) ++ branch ++ Code.landing label).length)
      (.withValue (condition.eval meaning env config.state.world) fun value world =>
        if meaning.isFalse value then .done world else positive world) := by
  obtain ⟨whole, hwhole, hoperation⟩ := hlocated.left.left.last
  have hbody : unit.code.Located (config.position + test.length + 1) branch := by
    simpa [Nat.add_assoc] using hlocated.left.right
  have hbehind : unit.code.Located (config.position + test.length + 1 + branch.length)
      (Code.landing label) := by
    simpa [Nat.add_assoc, Nat.add_comm 1] using hlocated.right
  have hstop : config.position +
      (test.push (.jumpIfFalse place label) ++ branch ++ Code.landing label).length =
        config.position + test.length + 1 + branch.length + 1 := by
    simp [Code.landing, Code.marked]
    omega
  rw [hstop]
  refine .withValue htest fun state value _ hvalue _ => ?_
  have hstep := step_jumpIfFalse config.frames hwhole hoperation hvalue (hbehind.landing hnodup).1
  have hpass : ∀ state, step meaning unit
      ⟨config.position + test.length + 1 + branch.length, config.frames, state⟩ =
        .running ⟨config.position + test.length + 1 + branch.length + 1, config.frames, state⟩ :=
    fun state => step_landing hnodup hbehind
  split at hstep
  · next hfalse =>
    rw [if_pos hfalse]
    exact .of_leads (.of_step hstep) (.done_of_step (hpass state))
  · next htrue =>
    rw [if_neg htrue]
    exact .of_leads (.of_step hstep) ((hbranch _ hbody).pass fun state => .of_step (hpass state))

/-- The code of a conditional with an alternative runs one of its branches. -/
theorem ends_ifElse (hnodup : unit.code.labels.Nodup) {condition : Expr} {before after : Supply}
    {test branch alternative : Code} {place : Storage} {label behind : Label}
    {positive negative : World Value Input → Outcome Value Input}
    (hlocated : unit.code.Located config.position
      (test.push (.jumpIfFalse place label) ++ branch.push (.jump behind)
        ++ alternative.marked label ++ Code.landing behind))
    (htest : Evaluates meaning unit before after config (config.position + test.length) place
      (condition.eval meaning env config.state.world))
    (hbranch : ∀ config, unit.code.Located config.position branch →
      Ends meaning unit rounds config (config.position + branch.length)
        (positive config.state.world))
    (halternative : ∀ config, unit.code.Located config.position alternative →
      Ends meaning unit rounds config (config.position + alternative.length)
        (negative config.state.world)) :
    Ends meaning unit rounds config
      (config.position + (test.push (.jumpIfFalse place label) ++ branch.push (.jump behind)
        ++ alternative.marked label ++ Code.landing behind).length)
      (.withValue (condition.eval meaning env config.state.world) fun value world =>
        if meaning.isFalse value then negative world else positive world) := by
  obtain ⟨whole, hwhole, hoperation⟩ := hlocated.left.left.left.last
  have hfirst : unit.code.Located (config.position + test.length + 1)
      (branch.push (.jump behind)) := by
    simpa [Nat.add_assoc] using hlocated.left.left.right
  have hsecond : unit.code.Located (config.position + test.length + 1 + branch.length + 1)
      (alternative.marked label) := by
    simpa [Nat.add_assoc, Nat.add_comm 1] using hlocated.left.right
  have hbehind : unit.code.Located
      (config.position + test.length + 1 + branch.length + 1 + (alternative.marked label).length)
      (Code.landing behind) := by
    simpa [Nat.add_assoc, Nat.add_comm 1, Nat.add_comm 2] using hlocated.right
  obtain ⟨jump, hjump, hjumps⟩ := hfirst.last
  have hstop : config.position + (test.push (.jumpIfFalse place label) ++ branch.push (.jump behind)
      ++ alternative.marked label ++ Code.landing behind).length =
        config.position + test.length + 1 + branch.length + 1 +
          (alternative.marked label).length + 1 := by
    simp [Code.landing, Code.marked]
    omega
  rw [hstop]
  refine .withValue htest fun state value _ hvalue _ => ?_
  have hstep := step_jumpIfFalse config.frames hwhole hoperation hvalue (hsecond.marked hnodup).1
  have hpass : ∀ state, step meaning unit
      ⟨config.position + test.length + 1 + branch.length + 1 + (alternative.marked label).length,
        config.frames, state⟩ =
        .running ⟨config.position + test.length + 1 + branch.length + 1 +
          (alternative.marked label).length + 1, config.frames, state⟩ :=
    fun state => step_landing hnodup hbehind
  split at hstep
  · next hfalse =>
    rw [if_pos hfalse]
    obtain ⟨base, hleads, hinner, hlength⟩ :=
      leads_marked meaning config.frames state hnodup hsecond
    refine .of_leads (.of_step hstep) (.of_leads hleads (.pass (halternative _ hinner) ?_))
    intro state
    rw [hlength]
    exact .of_step (hpass state)
  · next htrue =>
    rw [if_neg htrue]
    refine .of_leads (.of_step hstep) ((hbranch _ hfirst.left).pass fun state => ?_)
    refine .trans (.of_step ?_) (.of_step (hpass state))
    rw [step_of_operation meaning _ hjump hjumps, execute]
    exact goto_of_position? (hbehind.landing hnodup).1

/-- The code of a loop goes round as long as its test succeeds. -/
theorem ends_loop (hnodup : unit.code.labels.Nodup) {condition : Expr} {before after : Supply}
    {test round : Code} {place : Storage} {label behind : Label} {base : Nat}
    {body : World Value Input → Outcome Value Input} {frames : List Frame}
    (hlocated : unit.code.Located base
      ((test.marked label).push (.jumpIfFalse place behind) ++ round.push (.jump label)
        ++ Code.landing behind))
    (htest : ∀ config, unit.code.Located config.position test →
      Evaluates meaning unit before after config (config.position + test.length) place
        (condition.eval meaning env config.state.world))
    (hround : ∀ config, unit.code.Located config.position round →
      Ends meaning unit rounds config (config.position + round.length) (body config.state.world))
    {count : Nat} (hle : count ≤ rounds) (state : State Value Input) :
    Ends meaning unit count ⟨base, frames, state⟩
      (base + ((test.marked label).push (.jumpIfFalse place behind) ++ round.push (.jump label)
        ++ Code.landing behind).length)
      (Outcome.repeated meaning (condition.eval meaning env) body count state.world) := by
  obtain ⟨whole, hwhole, hoperation⟩ := hlocated.left.left.last
  have hinner : unit.code.Located (base + (test.marked label).length + 1)
      (round.push (.jump label)) := by
    simpa [Nat.add_assoc] using hlocated.left.right
  have hbehind : unit.code.Located
      (base + (test.marked label).length + 1 + round.length + 1) (Code.landing behind) := by
    simpa [Nat.add_assoc, Nat.add_comm 1] using hlocated.right
  obtain ⟨jump, hjump, hjumps⟩ := hinner.last
  have hstop : base + ((test.marked label).push (.jumpIfFalse place behind) ++
      round.push (.jump label) ++ Code.landing behind).length =
        base + (test.marked label).length + 1 + round.length + 1 + 1 := by
    simp [Code.landing, Code.marked]
    omega
  rw [hstop]
  have hhead := hlocated.left.left.left
  have hpass : ∀ state, step meaning unit
      ⟨base + (test.marked label).length + 1 + round.length + 1, frames, state⟩ =
        .running ⟨base + (test.marked label).length + 1 + round.length + 1 + 1, frames, state⟩ :=
    fun state => step_landing hnodup hbehind
  -- each round starts at the label, with one round less to go
  induction count generalizing state with
  | zero => exact ⟨0, _, Nat.le_refl 0, rfl⟩
  | succ count ih =>
    obtain ⟨start, hleads, hstart, hlength⟩ := leads_marked meaning frames state hnodup hhead
    refine .of_leads hleads (.withValue (htest _ hstart) fun state' value _ hvalue _ => ?_)
    rw [hlength]
    have hstep := step_jumpIfFalse frames hwhole hoperation hvalue (hbehind.landing hnodup).1
    split at hstep
    · next hfalse =>
      rw [if_pos hfalse]
      exact .of_leads (.of_step hstep) (.done_of_step (hpass state'))
    · next htrue =>
      rw [if_neg htrue]
      refine .of_step hstep (.andThen ((hround _ hinner.left).mono (by omega)) fun last => ?_)
      refine .of_leads (.of_step ?_) (ih (by omega) last)
      rw [step_of_operation meaning _ hjump hjumps, execute]
      exact goto_of_position? (hhead.marked hnodup).1

/-- The code of an assignment to an element stores a value that was computed before the index. -/
theorem ends_assignElement {array : String} {index value : Expr} {before middle after : Supply}
    {valueCode indexCode : Code} {source place : Storage} (hfree : value.callFree = true)
    (hfree' : index.callFree = true)
    (hvalue : (lowerExpr env value).Yields before (valueCode, source) middle)
    (hindex : (lowerExpr env index).Yields middle (indexCode, place) after)
    (hfit : after.temporaries ≤ 2 ^ 32) (hstrings : Supply.Registered unit.strings before after)
    (config : Config Value Input)
    (hlocated : unit.code.Located config.position
      ((valueCode ++ indexCode).push (.copyIntoArray array place source))) :
    Ends meaning unit rounds config
      (config.position + ((valueCode ++ indexCode).push (.copyIntoArray array place source)).length)
      ((Stmt.assignElement array index value).exec meaning env rounds config.state.world) := by
  have hdrawn := (straightLine_of_yields hindex).drawn
  obtain ⟨whole, hwhole, hoperation⟩ := hlocated.last
  simp only [Code.length_push, List.length_append, ← Nat.add_assoc] at hwhole ⊢
  simp only [Stmt.exec]
  refine .withValue (evaluates_of_yields hfree hvalue (Nat.le_trans hdrawn.temporaries_le hfit)
    (hdrawn.registered_left hfit hstrings) config hlocated.left.left) ?_
  intro state stored _ hstored _
  refine .withValue (evaluates_of_yields hfree' hindex hfit
    ((straightLine_of_yields hvalue).drawn.registered_right hstrings) _ hlocated.left.right) ?_
  intro state' slot heval hslot hkept
  have hsource : state'.value meaning unit.strings source = stored := by
    rw [hkept.value_eq (settled_of_yields hvalue) hfit hdrawn (Expr.eval_world heval), hstored]
  have hstep := step_of_operation meaning
    ⟨config.position + valueCode.length + indexCode.length, config.frames, state'⟩ hwhole hoperation
  rw [execute, hsource, hslot] at hstep
  cases helement : meaning.element array slot with
  | none =>
    rw [helement] at hstep
    exact ⟨state', .of_step hstep, rfl⟩
  | some number =>
    rw [helement] at hstep
    exact .done_of_step hstep

/-- Writing the place that a name means is assigning to the name. -/
theorem world_write_placeOf (env : Environment) (name : String) (state : State Value Input)
    (value : Value) :
    (state.write (env.placeOf name) value).world = state.world.assign env name value := by
  unfold Environment.placeOf World.assign
  cases env.enclosing? with
  | none => rfl
  | some function =>
    simp only
    split <;> rfl

/-- The code of a statement without calls runs as the statement is executed. -/
theorem ends_of_yields (hnodup : unit.code.labels.Nodup) {stmt : Stmt}
    (hfree : stmt.callFree = true) {before after : Supply} {code : Code}
    (h : (lowerStmt env stmt).Yields before code after) (hfit : after.temporaries ≤ 2 ^ 32)
    (hstrings : Supply.Registered unit.strings before after) (config : Config Value Input)
    (hlocated : unit.code.Located config.position code) :
    Ends meaning unit rounds config (config.position + code.length)
      (stmt.exec meaning env rounds config.state.world) := by
  induction stmt generalizing before after code config with
  | assign target value =>
    obtain ⟨valueCode, source, hvalue, rfl⟩ := yields_assign_iff.mp h
    obtain ⟨whole, hwhole, hoperation⟩ := hlocated.last
    simp only [Stmt.exec, Code.length_push]
    refine .withValue (evaluates_of_yields hfree hvalue hfit hstrings config hlocated.left) ?_
    intro state result _ hresult _
    rw [← world_write_placeOf]
    refine .done_of_step ?_
    rw [step_of_operation meaning _ hwhole hoperation, execute, hresult]
    rfl
  | assignElement array index value =>
    obtain ⟨valueCode, source, middle, indexCode, place, hvalue, hindex, rfl⟩ :=
      yields_assignElement_iff.mp h
    have hfrees : index.callFree = true ∧ value.callFree = true := by
      simpa [Stmt.callFree] using hfree
    exact ends_assignElement hfrees.2 hfrees.1 hvalue hindex hfit hstrings config hlocated
  | print value =>
    obtain ⟨valueCode, source, hvalue, rfl⟩ := yields_print_iff.mp h
    obtain ⟨whole, hwhole, hoperation⟩ := hlocated.last
    simp only [Stmt.exec, Code.length_push]
    refine .withValue (evaluates_of_yields hfree hvalue hfit hstrings config hlocated.left) ?_
    intro state result _ hresult _
    have hstep := step_of_operation meaning
      ⟨config.position + valueCode.length, config.frames, state⟩ hwhole hoperation
    rw [execute, hresult] at hstep
    exact .done_of_step hstep
  | ret value =>
    obtain ⟨valueCode, source, hvalue, rfl⟩ := yields_ret_iff.mp h
    obtain ⟨whole, hwhole, hoperation⟩ := hlocated.last
    simp only [Stmt.exec]
    refine .withValue (evaluates_of_yields hfree hvalue hfit hstrings config hlocated.left) ?_
    intro state result _ hresult _
    exact ⟨state, ⟨_, whole, source, .refl _, hwhole, hoperation, hresult⟩, rfl⟩
  | ifThen condition positive ih =>
    obtain ⟨test, place, middle, branch, htest, hbranch, rfl⟩ := yields_ifThen_iff.mp h
    have hfrees : condition.callFree = true ∧ positive.callFree = true := by
      simpa [Stmt.callFree] using hfree
    have hdrawn := (labelled_of_lowerStmt hbranch).drawn
    have hline := (straightLine_of_yields htest).drawn
    simp only [Stmt.exec]
    refine ends_ifThen hnodup hlocated (evaluates_of_yields hfrees.1 htest
      (Nat.le_trans hdrawn.temporaries_le hfit)
      ((Supply.Drawn.refl.label.trans hdrawn).registered_left hfit hstrings) config
      hlocated.left.left.left) fun config hpart => ?_
    exact ih hfrees.2 hbranch hfit (hline.label.registered_right hstrings) config hpart
  | ifElse condition positive negative ihp ihn =>
    obtain ⟨test, place, middle, branch, last, alternative, htest, hbranch, halternative,
      rfl⟩ := yields_ifElse_iff.mp h
    have hfrees : (condition.callFree = true ∧ positive.callFree = true) ∧
        negative.callFree = true := by
      simpa [Stmt.callFree] using hfree
    have hline := (straightLine_of_yields htest).drawn
    have hdrawnp := (labelled_of_lowerStmt hbranch).drawn
    have hdrawnn := (labelled_of_lowerStmt halternative).drawn
    have hfitp : last.temporaries ≤ 2 ^ 32 := Nat.le_trans hdrawnn.temporaries_le hfit
    have hstringsp := hdrawnn.registered_left hfit hstrings
    simp only [Stmt.exec]
    refine ends_ifElse hnodup hlocated (evaluates_of_yields hfrees.1.1 htest
      (Nat.le_trans hdrawnp.temporaries_le hfitp)
      ((Supply.Drawn.refl.label.label.trans hdrawnp).registered_left hfitp hstringsp) config
      hlocated.left.left.left.left) (fun config hpart => ?_) fun config hpart => ?_
    · exact ihp hfrees.1.2 hbranch hfitp (hline.label.label.registered_right hstringsp) config hpart
    · exact ihn hfrees.2 halternative hfit
        ((hline.label.label.trans hdrawnp).registered_right hstrings) config hpart
  | loop condition body ih =>
    obtain ⟨test, place, middle, round, htest, hround, rfl⟩ := yields_loop_iff.mp h
    have hfrees : condition.callFree = true ∧ body.callFree = true := by
      simpa [Stmt.callFree] using hfree
    have hdrawn := (labelled_of_lowerStmt hround).drawn
    have hlabels : before.Drawn before.afterLabel.afterLabel := Supply.Drawn.refl.label.label
    have hline := (straightLine_of_yields htest).drawn
    have hhead : ∀ config : Config Value Input, unit.code.Located config.position test →
        Evaluates meaning unit before.afterLabel.afterLabel middle config
          (config.position + test.length) place (condition.eval meaning env config.state.world) :=
      evaluates_of_yields hfrees.1 htest (Nat.le_trans hdrawn.temporaries_le hfit)
        (hdrawn.registered_left hfit (hlabels.registered_right hstrings))
    simp only [Stmt.exec]
    refine ends_loop hnodup hlocated hhead (fun config hpart => ?_) (Nat.le_refl rounds)
      config.state
    exact ih hfrees.2 hround hfit ((hlabels.trans hline).registered_right hstrings) config hpart
  | block body ih =>
    have hbody := yields_block_iff.mp h
    have hfrees : Stmt.allCallFree body = true := hfree
    simp only [Stmt.exec]
    clear h hfree
    induction body generalizing before code config with
    | nil =>
      obtain ⟨rfl, rfl⟩ := yields_stmts_nil_iff.mp hbody
      exact ⟨config.state, .refl _, rfl⟩
    | cons stmt rest ihrest =>
      obtain ⟨first, middle, others, hfirst, hothers, rfl⟩ := yields_stmts_cons_iff.mp hbody
      have hfrees' : stmt.callFree = true ∧ Stmt.allCallFree rest = true := by
        simpa [Stmt.allCallFree] using hfrees
      have hdrawn := (labelled_of_lowerStmt hfirst).drawn
      have hdrawn' := (labelled_of_lowerStmt (yields_block_iff.mpr hothers)).drawn
      simp only [Stmt.execAll, List.length_append, ← Nat.add_assoc]
      refine .andThen (ih stmt List.mem_cons_self hfrees'.1 hfirst
        (Nat.le_trans hdrawn'.temporaries_le hfit) (hdrawn'.registered_left hfit hstrings) config
        hlocated.left) fun state => ?_
      exact ihrest (fun other hother => ih other (List.mem_cons_of_mem stmt hother))
        (hdrawn.registered_right hstrings)
        ⟨config.position + first.length, config.frames, state⟩ hlocated.right hothers hfrees'.2
  | empty =>
    obtain ⟨rfl, rfl⟩ := yields_empty_iff.mp h
    exact ⟨config.state, .refl _, rfl⟩

end Statements

end Machine

end ThreeAddress
