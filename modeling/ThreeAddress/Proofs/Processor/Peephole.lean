import ThreeAddress.Proofs.Assembly.Kept
import ThreeAddress.Proofs.Processor.Machine

/-!
# Leaving out moves changes nothing

Between two lines, unless a label comes next, the places between which a value was moved directly
before hold the same value. This survives every step, and a jump leads to a label. So a move that
is left out would write what is there already: the processor holds the same before and after it,
and runs through the kept lines as it does through all of them.
-/

namespace ThreeAddress

namespace Processor

open Assembly Assembly.Peephole

variable {host : Host} {lines : List Line} {state after : State}

/-- The word of a symbol that was moved to or from `rax` directly before is the word in `rax`. -/
def Settled (host : Host) (moved? : Option Move) (state : State) : Prop :=
  ∀ move symbol, moved? = some move → move.IsPlain symbol →
    state.memory.word (host.address symbol) = state.registers .rax

/-- A label comes next, or what was moved directly before is settled. -/
def Config.Settled (host : Host) (lines : List Line) (config : Config) : Prop :=
  (∃ name, lines[config.position]? = some (.label name)) ∨
    Processor.Settled host (afterLines none (lines.take config.position)) config.state

/-- The same processor, at the place of its line among the kept ones. -/
def Config.placed (lines : List Line) (config : Config) : Config :=
  ⟨place lines config.position, config.state⟩

section Moves

variable {move : Move} {symbol : String}

/-- After a move between `rax` and a symbol, both hold the same word. -/
theorem word_eq_of_move (hplain : move.IsPlain symbol)
    (h : state.execute host (.mov move.source move.destination) = .next after) :
    after.memory.word (host.address symbol) = after.registers .rax := by
  rcases hplain with rfl | rfl
  · obtain rfl := Outcome.next.inj h
    exact (Function.update_self WordRegister.rax _ state.registers).symm
  · obtain rfl := Outcome.next.inj h
    exact Memory.word_setWord _ _ _

/-- A move between places that hold the same word changes nothing. -/
theorem execute_move (hplain : move.IsPlain symbol)
    (h : state.memory.word (host.address symbol) = state.registers .rax) :
    state.execute host (.mov move.source move.destination) = .next state := by
  rcases hplain with rfl | rfl
  · have hsame : state.setRegister .rax (state.memory.word (host.address symbol)) = state := by
      rw [h, State.setRegister, Function.update_eq_self]
    exact congrArg Outcome.next hsame
  · have hsame : state.setWord (host.address symbol) (state.registers .rax) = state := by
      rw [← h, State.setWord, Memory.setWord_word]
    exact congrArg Outcome.next hsame

/-- Both ends of a move between `rax` and a symbol hold the same word, if the word of the symbol
is the word in `rax`. -/
theorem read?_eq (hplain : move.IsPlain symbol)
    (h : state.memory.word (host.address symbol) = state.registers .rax) :
    state.read? host move.source = some (state.registers .rax) ∧
      state.read? host move.destination = some (state.registers .rax) := by
  have hmemory : state.read? host (.memory symbol) = some (state.registers .rax) :=
    congrArg some h
  rcases hplain with rfl | rfl
  · exact ⟨hmemory, rfl⟩
  · exact ⟨rfl, hmemory⟩

end Moves

/-- Going on with the next line leaves settled what was moved. -/
theorem Settled.next {moved? : Option Move} {line : Line} (h : Settled host moved? state)
    (houtcome : state.executeLine host line = .next after) :
    Settled host (Peephole.after moved? line) after := by
  cases line with
  | comment text =>
    obtain rfl := Outcome.next.inj houtcome
    exact h
  | label name =>
    intro move symbol hmoved
    contradiction
  | instruction content =>
    intro move symbol hmoved hplain
    cases content with
    | mov source destination =>
      obtain rfl := Option.some.inj hmoved
      exact word_eq_of_move hplain houtcome
    | _ => contradiction

/-- Directly after a call nothing has been moved. -/
theorem after_eq_none_of_call {moved? : Option Move} {line : Line} {symbol : String}
    (houtcome : state.executeLine host line = .call symbol after) :
    Peephole.after moved? line = none := by
  cases line with
  | comment | label => contradiction
  | instruction content =>
    cases content with
    | mov source destination =>
      simp only [State.executeLine, State.execute] at houtcome
      revert houtcome
      generalize (do
        guard (isMove source destination)
        let value ← state.read? host source
        state.write? host value destination) = written
      cases written <;> exact fun h => Outcome.noConfusion h
    | _ => rfl

/-- A label is found where it is. -/
theorem getElem?_of_position? {symbol : String} {target : Nat}
    (h : position? lines symbol = some target) : lines[target]? = some (.label symbol) := by
  obtain ⟨hlt, hline, -⟩ := List.findIdx?_eq_some_iff_getElem.mp h
  rw [List.getElem?_eq_getElem hlt, of_decide_eq_true hline]

/-- Among the kept lines a label is found at its place. -/
theorem position?_kept (symbol : String) :
    position? (kept none lines) symbol = (position? lines symbol).map (place lines) := by
  apply findIdx?_kept
  intro line hline
  rw [of_decide_eq_true hline]
  rfl

section Steps

variable {config next : Config}

/-- A step leaves settled what was moved. -/
theorem Config.Settled.step (hsettled : config.Settled host lines)
    (h : Step host lines config next) : next.Settled host lines := by
  cases h with
  | @next position line state after hline houtcome =>
    refine .inr ?_
    rw [afterLines_take_succ hline]
    rcases hsettled with ⟨name, hlabel⟩ | hsettled
    · obtain rfl := Option.some.inj (hline.symm.trans hlabel)
      intro move symbol hmoved
      contradiction
    · exact hsettled.next houtcome
  | jump hline houtcome htarget => exact .inl ⟨_, getElem?_of_position? htarget⟩
  | call hline houtcome hreturns =>
    refine .inr ?_
    rw [afterLines_take_succ hline, after_eq_none_of_call houtcome]
    intro move symbol hmoved
    contradiction

/-- A line that is left out is a move between places that hold the same word already. -/
theorem Config.Settled.exists_move (hsettled : config.Settled host lines)
    (hselected : ∀ line ∈ lines, line.IsSelected)
    (hkeeps : keepsAt lines config.position = false) :
    ∃ (move : Move) (symbol : String), move.IsPlain symbol ∧
      lines[config.position]? = some (.instruction (.mov move.source move.destination)) ∧
      config.state.memory.word (host.address symbol) = config.state.registers .rax := by
  obtain ⟨move, symbol, hplain, hline, hafter⟩ := exists_isPlain hselected hkeeps
  refine ⟨move, symbol, hplain, hline, ?_⟩
  rcases hsettled with ⟨name, hlabel⟩ | hsettled
  · cases hline.symm.trans hlabel
  · exact hsettled _ symbol hafter hplain.reverse

/-- At a line that is left out the processor goes on with the next line and changes nothing. -/
theorem Config.Settled.step_iff (hsettled : config.Settled host lines)
    (hselected : ∀ line ∈ lines, line.IsSelected)
    (hkeeps : keepsAt lines config.position = false) :
    Step host lines config next ↔ next = ⟨config.position + 1, config.state⟩ := by
  obtain ⟨move, symbol, hplain, hline, hword⟩ := hsettled.exists_move hselected hkeeps
  have houtcome := execute_move hplain hword
  obtain ⟨position, state⟩ := config
  constructor
  · intro h
    cases h with
    | next hline' houtcome' =>
      obtain rfl := Option.some.inj (hline.symm.trans hline')
      obtain rfl := Outcome.next.inj (houtcome.symm.trans houtcome')
      rfl
    | jump hline' houtcome' | call hline' houtcome' =>
      obtain rfl := Option.some.inj (hline.symm.trans hline')
      exact Outcome.noConfusion (houtcome.symm.trans houtcome')
  · rintro rfl
    exact .next hline houtcome

/-- The processor is at the same place before and after a line that is left out. -/
theorem Config.Settled.placed_eq (hsettled : config.Settled host lines)
    (hselected : ∀ line ∈ lines, line.IsSelected)
    (hkeeps : keepsAt lines config.position = false) :
    Config.placed lines ⟨config.position + 1, config.state⟩ = config.placed lines := by
  obtain ⟨_, _, -, hline, -⟩ := hsettled.exists_move hselected hkeeps
  exact congrArg (Config.mk · config.state) (place_succ_of_not_keepsAt hline hkeeps)

/-- A step at a kept line is a step through the kept lines. -/
theorem Step.placed (hkeeps : keepsAt lines config.position = true)
    (h : Step host lines config next) :
    Step host (kept none lines) (config.placed lines) (next.placed lines) := by
  cases h with
  | next hline houtcome =>
    rw [Config.placed, Config.placed, place_succ_of_keepsAt hline hkeeps]
    exact .next ((getElem?_place hkeeps).trans hline) houtcome
  | jump hline houtcome htarget =>
    refine .jump ((getElem?_place hkeeps).trans hline) houtcome ?_
    rw [position?_kept, htarget]
    rfl
  | call hline houtcome hreturns =>
    rw [Config.placed, Config.placed, place_succ_of_keepsAt hline hkeeps]
    exact .call ((getElem?_place hkeeps).trans hline) houtcome hreturns

/-- A step through the kept lines is a step at a kept line. -/
theorem exists_step_of_placed {next' : Config} (hkeeps : keepsAt lines config.position = true)
    (h : Step host (kept none lines) (config.placed lines) next') :
    ∃ next, Step host lines config next ∧ next' = next.placed lines := by
  obtain ⟨position, state⟩ := config
  have hsame := getElem?_place hkeeps
  cases h with
  | next hline houtcome =>
    have hline' := hsame.symm.trans hline
    refine ⟨_, .next hline' houtcome, ?_⟩
    rw [Config.placed, place_succ_of_keepsAt hline' hkeeps]
  | jump hline houtcome htarget =>
    rw [position?_kept] at htarget
    obtain ⟨target, hposition, rfl⟩ := Option.map_eq_some_iff.mp htarget
    exact ⟨_, .jump (hsame.symm.trans hline) houtcome hposition, rfl⟩
  | call hline houtcome hreturns =>
    have hline' := hsame.symm.trans hline
    refine ⟨_, .call hline' houtcome hreturns, ?_⟩
    rw [Config.placed, place_succ_of_keepsAt hline' hkeeps]

end Steps

section Runs

variable {start config last : Config} {passed : List Config}

/-- Two runs, one after the other. -/
theorem Runs.trans {behind : List Config} (h : Runs host lines start passed config)
    (h' : Runs host lines config behind last) :
    Runs host lines start (passed ++ behind) last := by
  induction h with
  | here => exact h'
  | step hstep _ ih => exact .step hstep (ih h')

/-- A run leaves settled what was moved. -/
theorem Runs.settled (h : Runs host lines start passed last)
    (hsettled : start.Settled host lines) : last.Settled host lines := by
  induction h with
  | here => exact hsettled
  | step hstep _ ih => exact ih (hsettled.step hstep)

/-- The configurations at kept lines, at their places. -/
def placedAtKept (lines : List Line) (passed : List Config) : List Config :=
  (passed.filter fun config => keepsAt lines config.position).map (Config.placed lines)

/-- The kept lines of one run come before those of the next. -/
theorem placedAtKept_append (front behind : List Config) :
    placedAtKept lines (front ++ behind) =
      placedAtKept lines front ++ placedAtKept lines behind := by
  rw [placedAtKept, List.filter_append, List.map_append]
  rfl

/-- A configuration at a kept line is counted. -/
theorem placedAtKept_cons_of_keepsAt (hkeeps : keepsAt lines config.position = true)
    (passed : List Config) :
    placedAtKept lines (config :: passed) = config.placed lines :: placedAtKept lines passed := by
  rw [placedAtKept, List.filter_cons, if_pos hkeeps, List.map_cons]
  rfl

/-- A configuration at a line that is left out is not counted. -/
theorem placedAtKept_cons_of_not_keepsAt (hkeeps : keepsAt lines config.position = false)
    (passed : List Config) : placedAtKept lines (config :: passed) = placedAtKept lines passed := by
  rw [placedAtKept, List.filter_cons, hkeeps, if_neg Bool.false_ne_true]
  rfl

/-- A run through all lines is a run through the kept ones. -/
theorem Runs.placed (h : Runs host lines start passed last)
    (hselected : ∀ line ∈ lines, line.IsSelected) (hsettled : start.Settled host lines) :
    Runs host (kept none lines) (start.placed lines) (placedAtKept lines passed)
      (last.placed lines) := by
  induction h with
  | here config => exact .here _
  | @step config next last passed hstep _ ih =>
    have hrest := ih (hsettled.step hstep)
    cases hkeeps : keepsAt lines config.position with
    | true =>
      rw [placedAtKept_cons_of_keepsAt hkeeps]
      exact .step (hstep.placed hkeeps) hrest
    | false =>
      rw [placedAtKept_cons_of_not_keepsAt hkeeps]
      rw [(hsettled.step_iff hselected hkeeps).mp hstep,
        hsettled.placed_eq hselected hkeeps] at hrest
      exact hrest

/-- The processor comes to a kept line, or to the end, and stays at its place until then. -/
theorem exists_runs_to_kept (hselected : ∀ line ∈ lines, line.IsSelected)
    (hsettled : config.Settled host lines) :
    ∃ passed last, Runs host lines config passed last ∧ placedAtKept lines passed = [] ∧
      keepsAt lines last.position = true ∧ last.placed lines = config.placed lines := by
  generalize hleft : lines.length - config.position = left
  induction left using Nat.strongRecOn generalizing config with
  | ind left ih =>
    cases hkeeps : keepsAt lines config.position with
    | true => exact ⟨[], config, .here config, rfl, hkeeps, rfl⟩
    | false =>
      obtain ⟨_, _, -, hline, -⟩ := hsettled.exists_move hselected hkeeps
      have hlt := (List.getElem?_eq_some_iff.mp hline).1
      have hstep := (hsettled.step_iff hselected hkeeps).mpr rfl
      obtain ⟨passed, last, hruns, hnone, hlast, hplaced⟩ :=
        ih (lines.length - (config.position + 1)) (by omega) (hsettled.step hstep) rfl
      refine ⟨config :: passed, last, .step hstep hruns, ?_, hlast,
        hplaced.trans (hsettled.placed_eq hselected hkeeps)⟩
      rw [placedAtKept_cons_of_not_keepsAt hkeeps, hnone]

/-- A run through the kept lines is one through all lines. -/
theorem exists_runs_of_placed {passed' : List Config} {last' : Config}
    (hselected : ∀ line ∈ lines, line.IsSelected) (hsettled : start.Settled host lines)
    (h : Runs host (kept none lines) (start.placed lines) passed' last') :
    ∃ passed last, Runs host lines start passed last ∧ passed' = placedAtKept lines passed ∧
      keepsAt lines last.position = true ∧ last' = last.placed lines := by
  generalize hstart : start.placed lines = start' at h
  induction h generalizing start with
  | here config =>
    obtain ⟨passed, last, hruns, hnone, hlast, hplaced⟩ := exists_runs_to_kept hselected hsettled
    exact ⟨passed, last, hruns, hnone.symm, hlast, hstart.symm.trans hplaced.symm⟩
  | @step config next' last' passed' hstep _ ih =>
    -- all lines are run up to the next kept one, which is where the step is
    obtain ⟨front, middle, hfront, hnone, hkeeps, hplaced⟩ :=
      exists_runs_to_kept hselected hsettled
    rw [← hstart, ← hplaced] at hstep
    obtain ⟨next, hnext, rfl⟩ := exists_step_of_placed hkeeps hstep
    obtain ⟨behind, last, hbehind, rfl, hlast, rfl⟩ :=
      ih ((hfront.settled hsettled).step hnext) rfl
    refine ⟨front ++ middle :: behind, last, hfront.trans (.step hnext hbehind), ?_, hlast, rfl⟩
    rw [placedAtKept_append, hnone, placedAtKept_cons_of_keepsAt hkeeps, hplaced, hstart]
    rfl

end Runs

/-- From a configuration on, the processor runs through fewer lines as it does through all. -/
structure Matched (host : Host) (lines fewer : List Line) (start : Config) : Prop where
  /-- A line that is kept stands at its place. -/
  line_eq : ∀ position, keepsAt lines position = true →
    fewer[place lines position]? = lines[position]?
  /-- A run through all lines is one through fewer, in the same states at the kept lines. -/
  forward : ∀ passed last, Runs host lines start passed last →
    Runs host fewer (start.placed lines) (placedAtKept lines passed) (last.placed lines)
  /-- A run through fewer lines is one through all, in the same states at the kept lines. -/
  backward : ∀ passed' last', Runs host fewer (start.placed lines) passed' last' →
    ∃ passed last, Runs host lines start passed last ∧ passed' = placedAtKept lines passed ∧
      keepsAt lines last.position = true ∧ last' = last.placed lines
  /-- At a kept line, a run goes on with both or with neither. -/
  goesOn_iff : ∀ passed last, Runs host lines start passed last →
    keepsAt lines last.position = true →
      ((∃ next, Step host lines last next) ↔
        ∃ next, Step host fewer (last.placed lines) next)
  /-- A line that is left out is a move, reached only when both its ends hold the same value. -/
  idle : ∀ passed last, Runs host lines start passed last →
    keepsAt lines last.position = false →
      ∃ (move : Move) (value : Word),
        lines[last.position]? = some (.instruction (.mov move.source move.destination)) ∧
          last.state.read? host move.source = some value ∧
          last.state.read? host move.destination = some value

/-- If all moves are selected ones, those that are left out are not missed. -/
theorem matched_kept (hselected : ∀ line ∈ lines, line.IsSelected) {start : Config}
    (hsettled : start.Settled host lines) : Matched host lines (kept none lines) start where
  line_eq _ hkeeps := getElem?_place hkeeps
  forward _ _ hruns := hruns.placed hselected hsettled
  backward _ _ hruns := exists_runs_of_placed hselected hsettled hruns
  goesOn_iff passed last hruns hkeeps := by
    constructor
    · rintro ⟨next, hstep⟩
      exact ⟨_, hstep.placed hkeeps⟩
    · rintro ⟨next', hstep⟩
      obtain ⟨next, hstep, -⟩ := exists_step_of_placed hkeeps hstep
      exact ⟨next, hstep⟩
  idle passed last hruns hkeeps := by
    obtain ⟨move, symbol, hplain, hline, hword⟩ :=
      (hruns.settled hsettled).exists_move hselected hkeeps
    obtain ⟨hsource, hdestination⟩ := read?_eq hplain hword
    exact ⟨move, _, hline, hsource, hdestination⟩

end Processor

open Assembly Processor

/-- Whatever code is assembled, from every label and in every state the processor runs through
the lines of the assembly as it would if no move were left out. -/
theorem CodeUnit.assemblyLines_matched {unit : CodeUnit} {options : Options} {lines : List Line}
    (hlines : codeLines options unit.code = .ok lines) :
    ∃ fewer, unit.assemblyLines options = .ok fewer ∧
      ∀ (host : Host) (start : Config), (∃ name, lines[start.position]? = some (.label name)) →
        Matched host lines fewer start := by
  refine ⟨Peephole.kept none lines, ?_, fun host start hstart => ?_⟩
  · rw [assemblyLines, hlines]
    rfl
  · exact matched_kept (isSelected_of_codeLines hlines) (.inl hstart)

/-- The code that copies a variable and then copies it back. -/
def copyBack : CodeUnit where
  decls := [.scalar .int "a" (.int 0), .scalar .int "b" (.int 0)]
  strings := .empty
  code :=
    [⟨none, .enter "main"⟩,
     ⟨none, .copy (.variable "b") (.variable "a")⟩,
     ⟨none, .copy (.variable "a") (.variable "b")⟩,
     ⟨none, .ret (.variable "a")⟩]

/-- All lines of the code that copies back. -/
def copyBackLines : List Line :=
  [.label "main",
   .instruction (.mov (.memory "_a") (.register .rax)),
   .instruction (.mov (.register .rax) (.memory "_b")),
   .instruction (.mov (.memory "_b") (.register .rax)),
   .instruction (.mov (.register .rax) (.memory "_a")),
   .instruction (.mov (.memory "_a") (.register .rax)),
   .instruction .ret]

/-- The lines of the code that copies back, without those that are left out. -/
def copyBackFewer : List Line :=
  [.label "main",
   .instruction (.mov (.memory "_a") (.register .rax)),
   .instruction (.mov (.register .rax) (.memory "_b")),
   .instruction (.mov (.register .rax) (.memory "_a")),
   .instruction .ret]

/-- A host where the variables lie next to each other and nothing is called. -/
def copyBackHost : Host where
  address symbol := if symbol = "_a" then 0 else 8
  undefined _ state := state.flags
  returns _ _ _ := False

/-- A processor at the entry of the code that copies back, with all else zero. -/
def copyBackStart : Config where
  position := 0
  state := ⟨fun _ => 0, ⟨false, false, false, false, false, false⟩, fun _ => 0⟩

/-- The code that copies back runs the same without two of its moves. -/
theorem copyBack_matched :
    copyBack.assemblyLines ⟨false, false⟩ = .ok copyBackFewer ∧
      Matched copyBackHost copyBackLines copyBackFewer copyBackStart := by
  have hlines : codeLines ⟨false, false⟩ copyBack.code = .ok copyBackLines := by decide
  have hfewer : copyBack.assemblyLines ⟨false, false⟩ = .ok copyBackFewer := by decide
  obtain ⟨fewer, h, hmatched⟩ := CodeUnit.assemblyLines_matched hlines
  obtain rfl := Except.ok.inj (hfewer.symm.trans h)
  exact ⟨hfewer, hmatched copyBackHost copyBackStart ⟨"main", rfl⟩⟩

end ThreeAddress
