import ThreeAddress.Proofs.Execution.World

/-!
# Running three-address code

A machine executes one instruction at a time. All storage is static; a call keeps nothing but
where to resume and where to put the result. Running past the last instruction finishes, and a
return with no call to go back to ends the run with its value. An operation that has no meaning
stops the machine, and so does a jump or a call to something that is not there.
-/

namespace ThreeAddress

namespace Code

/-- The position of the instruction that a label marks. -/
def position? (code : Code) (label : Label) : Option Nat :=
  code.findIdx? fun instruction => decide (instruction.label? = some label)

/-- The position where a function is entered. -/
def entry? (code : Code) (function : String) : Option Nat :=
  code.findIdx? fun instruction => decide (instruction.operation = .enter function)

end Code

namespace Machine

/-- All storage: the world, and the temporaries that no program can name. -/
structure State (Value Input : Type) where
  /-- What the program itself acts on. -/
  world : World Value Input
  /-- The temporaries. -/
  temporaries : Temporary → Value

/-- A call that has not returned. -/
structure Frame where
  /-- The position to go on from. -/
  resume : Nat
  /-- The place of the result. -/
  destination : Storage

/-- The machine between two instructions. -/
structure Config (Value Input : Type) where
  /-- The position of the next instruction. -/
  position : Nat
  /-- The calls that have not returned, latest first. -/
  frames : List Frame
  /-- The storage. -/
  state : State Value Input

/-- What a number of steps comes to. -/
inductive Progress (Value Input : Type) where
  /-- The machine can go on. -/
  | running (config : Config Value Input)
  /-- The machine ran past the last instruction. -/
  | finished (state : State Value Input)
  /-- The outermost function returned a value. -/
  | returned (value : Value) (state : State Value Input)
  /-- The machine was stopped. -/
  | trapped (state : State Value Input)

variable {Value Input : Type}

/-- The value of an operand. -/
def State.value (meaning : Interpretation Value Input) (strings : StringPool)
    (state : State Value Input) : Storage → Value
  | .variable name => state.world.globals name
  | .parameter function name => state.world.parameters function name
  | .temporary id => state.temporaries id
  | .constant value => meaning.constant value
  | .string id => meaning.text ((strings.find? id).getD "")

/-- The storage after a place is written; a constant or a string is no place. -/
def State.write (state : State Value Input) : Storage → Value → State Value Input
  | .variable name, value => { state with world := state.world.setVariable name value }
  | .parameter function name, value =>
    { state with world := state.world.setParameter function name value }
  | .temporary id, value =>
    { state with temporaries := Function.update state.temporaries id value }
  | .constant _, _ => state
  | .string _, _ => state

namespace Config

/-- Goes on with the next instruction. -/
def advance (config : Config Value Input) (state : State Value Input) : Progress Value Input :=
  .running { config with position := config.position + 1, state := state }

/-- Goes on at a label. -/
def goto (config : Config Value Input) (code : Code) (label : Label) : Progress Value Input :=
  match code.position? label with
  | some position => .running { config with position := position }
  | none => .trapped config.state

/-- Enters a function. -/
def enter (config : Config Value Input) (code : Code) (function : String)
    (destination : Storage) : Progress Value Input :=
  match code.entry? function with
  | some position =>
    .running ⟨position, ⟨config.position + 1, destination⟩ :: config.frames, config.state⟩
  | none => .trapped config.state

/-- Goes back to the latest call with a result. -/
def leave (config : Config Value Input) (value : Value) : Progress Value Input :=
  match config.frames with
  | [] => .returned value config.state
  | frame :: rest => .running ⟨frame.resume, rest, config.state.write frame.destination value⟩

end Config

variable (meaning : Interpretation Value Input) (unit : CodeUnit)

/-- Executes an operation. -/
def execute (config : Config Value Input) : Operation → Progress Value Input
  | .nop => config.advance config.state
  | .enter _ => config.advance config.state
  | .leave => config.leave meaning.leftover
  | .jump target => config.goto unit.code target
  | .jumpIfFalse condition target =>
    if meaning.isFalse (config.state.value meaning unit.strings condition) then
      config.goto unit.code target
    else config.advance config.state
  | .copy destination source =>
    config.advance (config.state.write destination
      (config.state.value meaning unit.strings source))
  | .copyIntoArray array index source =>
    match meaning.element array (config.state.value meaning unit.strings index) with
    | some slot =>
      config.advance { config.state with
        world := config.state.world.setElement array slot
          (config.state.value meaning unit.strings source) }
    | none => .trapped config.state
  | .copyFromArray destination array index =>
    match meaning.element array (config.state.value meaning unit.strings index) with
    | some slot =>
      config.advance (config.state.write destination (config.state.world.arrays array slot))
    | none => .trapped config.state
  | .call function destination => config.enter unit.code function destination
  | .input type destination =>
    match meaning.read type config.state.world.input with
    | some (value, rest) =>
      config.advance
        (State.write { config.state with world := { config.state.world with input := rest } }
          destination value)
    | none => .trapped config.state
  | .print source =>
    config.advance { config.state with
      world := config.state.world.print (config.state.value meaning unit.strings source) }
  | .ret source => config.leave (config.state.value meaning unit.strings source)
  | .binary op destination lhs rhs =>
    match meaning.combine op (config.state.value meaning unit.strings lhs)
      (config.state.value meaning unit.strings rhs) with
    | some value => config.advance (config.state.write destination value)
    | none => .trapped config.state

/-- Executes the next instruction. -/
def step (config : Config Value Input) : Progress Value Input :=
  match unit.code[config.position]? with
  | some instruction => execute meaning unit config instruction.operation
  | none => .finished config.state

/-- Goes on from where a number of steps came to, if the machine still can. -/
def Progress.andThen (progress : Progress Value Input)
    (next : Config Value Input → Progress Value Input) : Progress Value Input :=
  match progress with
  | .running config => next config
  | .finished state => .finished state
  | .returned value state => .returned value state
  | .trapped state => .trapped state

/-- Executes a number of instructions, or fewer if the run ends before. -/
def run : Nat → Config Value Input → Progress Value Input
  | 0, config => .running config
  | count + 1, config => (step meaning unit config).andThen (run count)

/-- A run comes to some result, after any number of steps. -/
def Leads (config : Config Value Input) (progress : Progress Value Input) : Prop :=
  ∃ count, run meaning unit count config = progress

/-- A run goes on for at least a number of steps. -/
def Lasts (count : Nat) (config : Config Value Input) : Prop :=
  ∃ more config', count ≤ more ∧ run meaning unit more config = .running config'

variable {meaning : Interpretation Value Input} {unit : CodeUnit}
  {config config' : Config Value Input} {progress progress' : Progress Value Input}

/-- A step is a step, wherever the run goes afterwards. -/
theorem run_one : run meaning unit 1 config = step meaning unit config := by
  simp only [run]
  cases step meaning unit config <;> rfl

/-- A run can be cut anywhere. -/
theorem run_add (first second : Nat) (config : Config Value Input) :
    run meaning unit (first + second) config =
      (run meaning unit first config).andThen (run meaning unit second) := by
  induction first generalizing config with
  | zero => simp [run, Progress.andThen]
  | succ first ih =>
    rw [Nat.add_right_comm, run, run]
    cases step meaning unit config with
    | running config' => exact ih config'
    | finished | returned | trapped => rfl

/-- A run that has ended stays where it is. -/
theorem run_of_le {count more : Nat} (hle : count ≤ more)
    (h : run meaning unit count config = progress)
    (hended : ∀ config', progress ≠ .running config') :
    run meaning unit more config = progress := by
  obtain ⟨extra, rfl⟩ := Nat.exists_eq_add_of_le hle
  rw [run_add, h]
  cases progress with
  | running config' => exact absurd rfl (hended config')
  | finished | returned | trapped => rfl

namespace Leads

/-- A run leads to where it starts. -/
theorem refl (config : Config Value Input) : Leads meaning unit config (.running config) :=
  ⟨0, rfl⟩

/-- One step leads to what it comes to. -/
theorem of_step (h : step meaning unit config = progress) : Leads meaning unit config progress :=
  ⟨1, run_one.trans h⟩

/-- A run goes on from wherever it leads. -/
theorem trans (h : Leads meaning unit config (.running config'))
    (h' : Leads meaning unit config' progress) : Leads meaning unit config progress := by
  obtain ⟨first, hfirst⟩ := h
  obtain ⟨second, hsecond⟩ := h'
  exact ⟨first + second, by rw [run_add, hfirst]; exact hsecond⟩

/-- A run ends in one way only. -/
theorem unique (h : Leads meaning unit config progress) (h' : Leads meaning unit config progress')
    (hended : ∀ config', progress ≠ .running config')
    (hended' : ∀ config', progress' ≠ .running config') : progress = progress' := by
  obtain ⟨count, hcount⟩ := h
  obtain ⟨count', hcount'⟩ := h'
  rcases Nat.le_total count count' with hle | hle
  · exact (run_of_le hle hcount hended).symm.trans hcount'
  · exact hcount.symm.trans (run_of_le hle hcount' hended')

/-- A run that ends does not go on for ever. -/
theorem not_forever (h : Leads meaning unit config progress)
    (hended : ∀ config', progress ≠ .running config') :
    ¬ ∀ count, Lasts meaning unit count config := by
  obtain ⟨count, hcount⟩ := h
  intro hforever
  obtain ⟨more, config', hle, hmore⟩ := hforever count
  exact hended config' ((run_of_le hle hcount hended).symm.trans hmore)

end Leads

namespace Lasts

/-- A run that gets somewhere lasts as long as what follows. -/
theorem of_leads {count : Nat} (h : Leads meaning unit config (.running config'))
    (h' : Lasts meaning unit count config') : Lasts meaning unit count config := by
  obtain ⟨first, hfirst⟩ := h
  obtain ⟨more, last, hle, hmore⟩ := h'
  exact ⟨first + more, last, by omega, by rw [run_add, hfirst]; exact hmore⟩

/-- A step makes a run longer. -/
theorem of_step {count : Nat} (h : step meaning unit config = .running config')
    (h' : Lasts meaning unit count config') : Lasts meaning unit (count + 1) config := by
  obtain ⟨more, last, hle, hmore⟩ := h'
  exact ⟨more + 1, last, by omega, by rw [run, h]; exact hmore⟩

/-- A long run is a short one too. -/
theorem mono {count count' : Nat} (h : Lasts meaning unit count config) (hle : count' ≤ count) :
    Lasts meaning unit count' config := by
  obtain ⟨more, last, hmore, hrun⟩ := h
  exact ⟨more, last, by omega, hrun⟩

/-- A run that reaches a certain length was still going on at any earlier time. -/
theorem running {count : Nat} (h : Lasts meaning unit count config) :
    ∃ config', run meaning unit count config = .running config' := by
  obtain ⟨more, last, hle, hmore⟩ := h
  cases hcount : run meaning unit count config with
  | running config' => exact ⟨config', rfl⟩
  | finished | returned | trapped =>
    rw [run_of_le hle hcount (by simp)] at hmore
    contradiction

end Lasts

end Machine

end ThreeAddress
