import ThreeAddress.Assembly.Selection
import ThreeAddress.Proofs.Processor.Machine

/-!
# Lines that are executed one after the other

Most lines are followed by the next one. A processor that comes to the first of some such lines has
one way to go on, and comes to the end of them in a state that can be computed. The lines that load
and store a place are of this kind, and so are those that compare two registers.
-/

namespace ThreeAddress

namespace Processor

open Assembly

/-- The state after some lines, if each of them is followed by the next. -/
def State.after? (host : Host) : List Line → State → Option State
  | [], state => some state
  | line :: rest, state =>
    match state.executeLine host line with
    | .next next => State.after? host rest next
    | _ => none

variable {host : Host} {state final : State} {lines first second front back : List Line}

/-- Lines of two parts are executed part by part. -/
theorem State.after?_append :
    State.after? host (first ++ second) state =
      (State.after? host first state).bind (State.after? host second) := by
  induction first generalizing state with
  | nil => rfl
  | cons line rest ih =>
    simp only [List.cons_append, State.after?]
    split
    · exact ih
    · rfl

/-- A line that is followed by the next is the first of several. -/
theorem State.after?_cons {line : Line} {next : State}
    (h : state.executeLine host line = .next next) :
    State.after? host (line :: lines) state = State.after? host lines next := by
  rw [State.after?, h]

/-- A line that is followed by the next leaves only one step to take. -/
theorem Step.eq_of_next {config : Config} {line : Line} {next : State}
    (hline : lines[config.position]? = some line)
    (hnext : config.state.executeLine host line = .next next) {config' : Config}
    (h : Step host lines config config') : config' = ⟨config.position + 1, next⟩ := by
  cases h with
  | next hline' houtcome =>
    obtain rfl := Option.some.inj (hline.symm.trans hline')
    rw [Outcome.next.inj (hnext.symm.trans houtcome)]
  | jump hline' houtcome _ =>
    obtain rfl := Option.some.inj (hline.symm.trans hline')
    cases hnext.symm.trans houtcome
  | call hline' houtcome _ =>
    obtain rfl := Option.some.inj (hline.symm.trans hline')
    cases hnext.symm.trans houtcome

/-- The processor runs through lines that are executed one after the other. -/
theorem exists_runs_of_after? (h : State.after? host lines state = some final) :
    ∃ passed, passed.length = lines.length ∧
      Runs host (front ++ lines ++ back) ⟨front.length, state⟩ passed
        ⟨front.length + lines.length, final⟩ := by
  induction lines generalizing front state with
  | nil =>
    obtain rfl := Option.some.inj h
    exact ⟨[], rfl, .here _⟩
  | cons line rest ih =>
    have hline : (front ++ line :: rest ++ back)[front.length]? = some line := by simp
    rw [State.after?] at h
    split at h
    · next next hnext =>
      have hwhole : front ++ line :: rest ++ back = (front ++ [line]) ++ rest ++ back := by simp
      obtain ⟨passed, hlength, hruns⟩ := @ih next (front ++ [line]) h
      rw [← hwhole, List.length_append, List.length_singleton, Nat.add_assoc,
        Nat.add_comm 1] at hruns
      exact ⟨⟨front.length, state⟩ :: passed, congrArg Nat.succ hlength,
        .step (.next hline hnext) hruns⟩
    · contradiction

/-- As many steps as there are such lines lead to their end, and to no other state. -/
theorem eq_of_runs_of_after? (h : State.after? host lines state = some final)
    {passed : List Config} {config : Config}
    (hruns : Runs host (front ++ lines ++ back) ⟨front.length, state⟩ passed config)
    (hlength : passed.length = lines.length) :
    config = ⟨front.length + lines.length, final⟩ := by
  induction lines generalizing front state passed with
  | nil =>
    obtain rfl := List.length_eq_zero_iff.mp hlength
    cases hruns
    rw [Option.some.inj h]
    rfl
  | cons line rest ih =>
    have hline : (front ++ line :: rest ++ back)[front.length]? = some line := by simp
    rw [State.after?] at h
    split at h
    · next next hnext =>
      cases hruns with
      | here => contradiction
      | @step _ _ _ passed hstep hrest =>
        have hwhole : front ++ line :: rest ++ back = (front ++ [line]) ++ rest ++ back := by simp
        rw [hstep.eq_of_next hline hnext, hwhole] at hrest
        have hrest' : Runs host ((front ++ [line]) ++ rest ++ back)
            ⟨(front ++ [line]).length, next⟩ passed config := by
          rwa [List.length_append, List.length_singleton]
        rw [ih h hrest' (Nat.succ.inj hlength), List.length_append, List.length_singleton,
          Nat.add_assoc, Nat.add_comm 1]
        rfl
    · contradiction

/-- A register holds what is written to it. -/
@[simp] theorem State.registers_setRegister (state : State) (register : WordRegister)
    (value : Word) : (state.setRegister register value).registers register = value := by
  simp only [State.setRegister, Function.update_self]

/-- All other registers hold what they held. -/
theorem State.registers_setRegister_of_ne {register other : WordRegister} (h : other ≠ register)
    (state : State) (value : Word) :
    (state.setRegister register value).registers other = state.registers other := by
  simp only [State.setRegister, Function.update_of_ne h]

/-- All registers but some hold in one state what they hold in another. -/
def State.Keeps (written : List WordRegister) (before after : State) : Prop :=
  ∀ register ∉ written, after.registers register = before.registers register

section Keeps

variable {written : List WordRegister} {before after : State}

/-- A state keeps its own registers. -/
theorem State.Keeps.refl (written : List WordRegister) (state : State) :
    state.Keeps written state :=
  fun _ _ => rfl

/-- The registers that are kept twice are kept. -/
theorem State.Keeps.trans {middle : State} (h : before.Keeps written middle)
    (h' : middle.Keeps written after) : before.Keeps written after :=
  fun register hregister => (h' register hregister).trans (h register hregister)

/-- Of more registers, fewer are kept. -/
theorem State.Keeps.mono {written' : List WordRegister} (h : before.Keeps written after)
    (hsubset : written ⊆ written') : before.Keeps written' after :=
  fun register hregister => h register fun hmem => hregister (hsubset hmem)

/-- Writing a register keeps all others. -/
theorem State.Keeps.setRegister {register : WordRegister} (h : before.Keeps written after)
    (hregister : register ∈ written) (value : Word) :
    before.Keeps written (after.setRegister register value) := by
  intro other hother
  have hne : other ≠ register := by
    rintro rfl
    exact hother hregister
  exact (State.registers_setRegister_of_ne hne after value).trans (h other hother)

end Keeps

/-- Lines lead from one state to another and write only some registers and the flags. -/
structure State.LeadsTo (host : Host) (written : List WordRegister) (lines : List Line)
    (before after : State) : Prop where
  /-- Each line is followed by the next, up to the other state. -/
  after? : State.after? host lines before = some after
  /-- Memory is as it was. -/
  memory : after.memory = before.memory
  /-- All other registers are as they were. -/
  keeps : before.Keeps written after

section LeadsTo

variable {written : List WordRegister} {before middle after : State}

/-- Lines that follow one another lead on. -/
theorem State.LeadsTo.append (h : before.LeadsTo host written first middle)
    (h' : middle.LeadsTo host written second after) :
    before.LeadsTo host written (first ++ second) after where
  after? := by rw [State.after?_append, h.after?, Option.bind_some, h'.after?]
  memory := h'.memory.trans h.memory
  keeps := h.keeps.trans h'.keeps

/-- Lines that write some registers write only some of more. -/
theorem State.LeadsTo.mono {written' : List WordRegister}
    (h : before.LeadsTo host written lines after) (hsubset : written ⊆ written') :
    before.LeadsTo host written' lines after :=
  ⟨h.after?, h.memory, h.keeps.mono hsubset⟩

/-- A line that writes a register leads to the state with that register written. -/
theorem State.leadsTo_setRegister {line : Line} {register : WordRegister} {value : Word}
    (hline : before.executeLine host line = .next (before.setRegister register value))
    (hregister : register ∈ written) :
    before.LeadsTo host written [line] (before.setRegister register value) :=
  ⟨State.after?_cons hline, rfl, (State.Keeps.refl _ _).setRegister hregister value⟩

end LeadsTo

section Places

/-- The word that the processor finds in a place: the bits of a constant, the address of a text, and
otherwise the word in memory. -/
def State.contents (host : Host) (state : State) : Storage → Word
  | .constant value => value.word.toBitVec
  | .string id => host.address id.symbol
  | .temporary id => state.memory.word (host.address id.symbol)
  | .variable name => state.memory.word (host.address (Symbol.ofVariable name))
  | .parameter function name =>
    state.memory.word (host.address (Symbol.ofParameter function name))

/-- Only memory is looked at. -/
theorem State.contents_congr {state' : State} (h : state'.memory = state.memory)
    (place : Storage) : state'.contents host place = state.contents host place := by
  cases place <;> simp only [State.contents, h]

/-- A load puts the word of a place into a register. -/
theorem executeLine_load {register : Register} {word : WordRegister}
    (h : word? register = some word) (place : Storage) :
    state.executeLine host (load register place) =
      .next (state.setRegister word (state.contents host place)) := by
  cases place <;>
    simp [load, State.executeLine, State.execute, State.read?, State.write?, State.address?,
      State.contents, isMove, isMemory, h, Outcome.ofOption]

/-- A store puts the word of `rax` into the word of a temporary. -/
theorem executeLine_store {id : Temporary} {line : Line} (h : store (.temporary id) = .ok line) :
    state.executeLine host line =
      .next (state.setWord (host.address id.symbol) (state.registers .rax)) := by
  obtain rfl := Except.ok.inj h
  rfl

end Places

end Processor

end ThreeAddress
