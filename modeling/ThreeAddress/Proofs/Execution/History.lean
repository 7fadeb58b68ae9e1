import ThreeAddress.Proofs.Execution.Machine
import ThreeAddress.Proofs.Lowering.Labels

/-!
# Where a run has been

A call keeps nothing but where to go on and where to put the result, so what happened earlier has
to be read off the run itself. A frame was put there by a call, and until it is taken away the
machine is inside that call. An instruction that is neither a jump's target nor an entry can only
be reached from the instruction before it, in the same activation. And a set of positions that
control does not leave by itself is not left during a call into it.
-/

namespace ThreeAddress

namespace Code

/-- The position of a label has the label. -/
theorem label_of_position? {code : Code} {label : Label} {position : Nat}
    (h : code.position? label = some position) :
    ∃ whole, code[position]? = some whole ∧ whole.label? = some label := by
  obtain ⟨hlt, hlabel, -⟩ := List.findIdx?_eq_some_iff_getElem.mp h
  exact ⟨code[position], List.getElem?_eq_getElem hlt, by simpa using hlabel⟩

/-- The entry of a function enters it. -/
theorem enter_of_entry? {code : Code} {function : String} {position : Nat}
    (h : code.entry? function = some position) :
    ∃ whole, code[position]? = some whole ∧ whole.operation = .enter function := by
  obtain ⟨hlt, henter, -⟩ := List.findIdx?_eq_some_iff_getElem.mp h
  exact ⟨code[position], List.getElem?_eq_getElem hlt, by simpa using henter⟩

end Code

namespace Machine

variable {Value Input : Type} {meaning : Interpretation Value Input} {unit : CodeUnit}
  {config config' start : Config Value Input}

/-- The value of a place depends on the variables, the parameters and the temporaries only. -/
theorem State.value_congr {state state' : State Value Input}
    (hglobals : state'.world.globals = state.world.globals)
    (hparameters : state'.world.parameters = state.world.parameters)
    (htemporaries : state'.temporaries = state.temporaries) (strings : StringPool)
    (place : Storage) : state'.value meaning strings place = state.value meaning strings place := by
  cases place <;> simp [State.value, hglobals, hparameters, htemporaries]

/-- A write leaves every other place alone. -/
theorem State.value_write_of_ne (state : State Value Input) {written place : Storage}
    (value : Value) (strings : StringPool) (h : written ≠ place) :
    (state.write written value).value meaning strings place =
      state.value meaning strings place := by
  cases written with
  | «variable» name =>
    cases place with
    | «variable» other =>
      have hne : other ≠ name := by
        rintro rfl
        exact h rfl
      simp [State.write, State.value, World.setVariable, hne]
    | parameter | temporary | constant | string => rfl
  | parameter function name =>
    cases place with
    | parameter other otherName =>
      by_cases hfunction : other = function
      · subst hfunction
        have hname : otherName ≠ name := by
          rintro rfl
          exact h rfl
        simp [State.write, State.value, World.setParameter, hname]
      · simp [State.write, State.value, World.setParameter, hfunction]
    | «variable» | temporary | constant | string => rfl
  | temporary id =>
    cases place with
    | temporary other =>
      have hne : other ≠ id := by
        rintro rfl
        exact h rfl
      simp [State.write, State.value, hne]
    | «variable» | parameter | constant | string => rfl
  | constant | string => rfl

/-- What a step that the machine survives does to the configuration. -/
inductive Passes (unit : CodeUnit) (config config' : Config Value Input) (operation : Operation) :
    Prop
  /-- To the next position; no place but the destination may change. -/
  | onward (hleave : operation ≠ .leave)
      (hcall : ∀ function place, operation ≠ .call function place)
      (hposition : config'.position = config.position + 1)
      (hframes : config'.frames = config.frames)
      (hvalue : ∀ (meaning : Interpretation Value Input) (strings : StringPool) (place : Storage),
        operation.destination? ≠ some place →
          config'.state.value meaning strings place = config.state.value meaning strings place)
  /-- To a label. -/
  | jump (label : Label) (htarget : operation.target? = some label)
      (hposition : unit.code.position? label = some config'.position)
      (hframes : config'.frames = config.frames) (hstate : config'.state = config.state)
  /-- Into a function. -/
  | call (function : String) (destination : Storage)
      (hoperation : operation = .call function destination)
      (hposition : unit.code.entry? function = some config'.position)
      (hframes : config'.frames = ⟨config.position + 1, destination⟩ :: config.frames)
      (hstate : config'.state = config.state)
  /-- Back to the latest call. -/
  | back (frame : Frame) (value : Value)
      (hcall : ∀ function place, operation ≠ .call function place)
      (hframes : config.frames = frame :: config'.frames)
      (hposition : config'.position = frame.resume)
      (hstate : config'.state = config.state.write frame.destination value)

/-- A step that goes on passes the instruction at its position in one of four ways. -/
theorem passes_of_step (h : step meaning unit config = .running config') :
    ∃ whole, unit.code[config.position]? = some whole ∧
      Passes unit config config' whole.operation := by
  rw [step] at h
  split at h
  · next whole hwhole =>
    refine ⟨whole, hwhole, ?_⟩
    generalize whole.operation = operation at h ⊢
    have hadvance : ∀ state : State Value Input, config.advance state = .running config' →
        operation ≠ .leave → (∀ function place, operation ≠ .call function place) →
        (∀ (meaning : Interpretation Value Input) strings place,
          operation.destination? ≠ some place →
            state.value meaning strings place = config.state.value meaning strings place) →
        Passes unit config config' operation := by
      intro state hstate hleave hcall hsame
      simp only [Config.advance, Progress.running.injEq] at hstate
      subst hstate
      exact .onward hleave hcall rfl rfl hsame
    have hgoto : ∀ label, operation.target? = some label →
        config.goto unit.code label = .running config' → Passes unit config config' operation := by
      intro label htarget hstate
      unfold Config.goto at hstate
      split at hstate
      · next position hposition =>
        simp only [Progress.running.injEq] at hstate
        subst hstate
        exact .jump label htarget hposition rfl rfl
      · contradiction
    have hleave : ∀ value, config.leave value = .running config' →
        (∀ function place, operation ≠ .call function place) →
        Passes unit config config' operation := by
      intro value hstate hcall
      unfold Config.leave at hstate
      split at hstate
      · contradiction
      · next frame rest hframes =>
        simp only [Progress.running.injEq] at hstate
        subst hstate
        exact .back frame value hcall hframes rfl rfl
    have hwrite : ∀ (written : Storage) (value : Value) (meaning : Interpretation Value Input)
        strings place, operation.destination? = some written →
          operation.destination? ≠ some place →
          (config.state.write written value).value meaning strings place =
            config.state.value meaning strings place := by
      intro written value meaning strings place hwritten hne
      exact State.value_write_of_ne _ _ _ fun heq => hne (heq ▸ hwritten)
    cases operation with
    | nop | enter _ => exact hadvance _ h (by simp) (by simp) fun _ _ _ _ => rfl
    | print _ =>
      exact hadvance _ h (by simp) (by simp) fun _ _ _ _ => State.value_congr rfl rfl rfl _ _
    | leave => exact hleave _ h (by simp)
    | ret source => exact hleave _ h (by simp)
    | jump target => exact hgoto target rfl h
    | jumpIfFalse condition target =>
      rw [execute] at h
      split at h
      · exact hgoto target rfl h
      · exact hadvance _ h (by simp) (by simp) fun _ _ _ _ => rfl
    | copy destination source =>
      exact hadvance _ h (by simp) (by simp) fun _ _ _ => hwrite _ _ _ _ _ rfl
    | copyIntoArray array index source =>
      rw [execute] at h
      split at h
      · exact hadvance _ h (by simp) (by simp) fun _ _ _ _ => State.value_congr rfl rfl rfl _ _
      · contradiction
    | copyFromArray destination array index =>
      rw [execute] at h
      split at h
      · exact hadvance _ h (by simp) (by simp) fun _ _ _ => hwrite _ _ _ _ _ rfl
      · contradiction
    | call function destination =>
      rw [execute, Config.enter] at h
      split at h
      · next position hposition =>
        simp only [Progress.running.injEq] at h
        subst h
        exact .call function destination rfl hposition rfl rfl
      · contradiction
    | input type destination =>
      rw [execute] at h
      split at h
      · exact hadvance _ h (by simp) (by simp) fun _ strings place hne =>
          (State.value_write_of_ne _ _ _ fun heq => hne (congrArg some heq)).trans
            (State.value_congr rfl rfl rfl strings place)
      · contradiction
    | binary op destination lhs rhs =>
      rw [execute] at h
      split at h
      · exact hadvance _ h (by simp) (by simp) fun _ _ _ => hwrite _ _ _ _ _ rfl
      · contradiction
  · contradiction

/-- A run has come to a configuration after a number of steps. -/
def Visits (meaning : Interpretation Value Input) (unit : CodeUnit) (start : Config Value Input)
    (time : Nat) (config : Config Value Input) : Prop :=
  run meaning unit time start = .running config

namespace Visits

variable {time : Nat}

/-- At one time a run is at one place. -/
theorem unique (h : Visits meaning unit start time config)
    (h' : Visits meaning unit start time config') : config = config' :=
  Progress.running.inj (h.symm.trans h')

/-- Before the latest step a run was somewhere too. -/
theorem succ (h : Visits meaning unit start (time + 1) config') :
    ∃ config, Visits meaning unit start time config ∧
      step meaning unit config = .running config' := by
  rw [Visits, run_add] at h
  cases hrun : run meaning unit time start with
  | running config =>
    rw [hrun] at h
    exact ⟨config, hrun, run_one.symm.trans h⟩
  | finished | returned | trapped =>
    rw [hrun] at h
    contradiction

/-- A frame was put there by a call, and the machine has been inside that call ever since. -/
theorem exists_call (hstart : start.frames = []) {frame : Frame} {rest : List Frame}
    (h : Visits meaning unit start time config) (hframes : config.frames = frame :: rest) :
    ∃ earlier < time, ∃ position state whole function,
      Visits meaning unit start earlier ⟨position, rest, state⟩ ∧
      unit.code[position]? = some whole ∧ whole.operation = .call function frame.destination ∧
      frame.resume = position + 1 ∧
      ∀ between config, earlier < between → between ≤ time →
        Visits meaning unit start between config → frame :: rest <:+ config.frames := by
  induction time using Nat.strongRecOn generalizing config frame rest with
  | ind time ih =>
    match time, h with
    | 0, h =>
      obtain rfl : start = config := Progress.running.inj h
      rw [hstart] at hframes
      contradiction
    | time + 1, h =>
      obtain ⟨previous, hprevious, hstep⟩ := h.succ
      obtain ⟨whole, hwhole, hpasses⟩ := passes_of_step hstep
      -- what held up to the step before still holds, and the last configuration is the one given
      have hextend : ∀ earlier, (∀ between config, earlier < between → between ≤ time →
            Visits meaning unit start between config → frame :: rest <:+ config.frames) →
          ∀ between config, earlier < between → between ≤ time + 1 →
            Visits meaning unit start between config → frame :: rest <:+ config.frames := by
        intro earlier hbetween between other hlt hle hother
        rcases Nat.lt_or_eq_of_le hle with hle | rfl
        · exact hbetween between other hlt (Nat.le_of_lt_succ hle) hother
        · rw [hother.unique h]
          exact hframes ▸ List.suffix_refl _
      cases hpasses with
      | onward _ _ _ hsame _ =>
        obtain ⟨earlier, hlt, position, state, whole, function, hvisit, hcode, hcall, hresume,
          hbetween⟩ := ih time (Nat.lt_succ_self time) hprevious (hsame ▸ hframes)
        exact ⟨earlier, Nat.lt_succ_of_lt hlt, position, state, whole, function, hvisit, hcode,
          hcall, hresume, hextend earlier hbetween⟩
      | jump _ _ _ hsame _ =>
        obtain ⟨earlier, hlt, position, state, whole, function, hvisit, hcode, hcall, hresume,
          hbetween⟩ := ih time (Nat.lt_succ_self time) hprevious (hsame ▸ hframes)
        exact ⟨earlier, Nat.lt_succ_of_lt hlt, position, state, whole, function, hvisit, hcode,
          hcall, hresume, hextend earlier hbetween⟩
      | call function destination hoperation _ hpushed _ =>
        rw [hpushed, List.cons.injEq] at hframes
        obtain ⟨rfl, rfl⟩ := hframes
        exact ⟨time, Nat.lt_succ_self time, previous.position, previous.state, whole, function,
          hprevious, hwhole, hoperation, rfl,
          hextend time fun between _ hlt hle => absurd hlt (Nat.not_lt.mpr hle)⟩
      | back popped _ _ hpopped _ _ =>
        -- the frame below was there before the call that has just ended
        obtain ⟨middle, hmiddle, position, state, _, _, hvisit, _, _, _, hinner⟩ :=
          ih time (Nat.lt_succ_self time) hprevious hpopped
        obtain ⟨earlier, hlt, position', state', whole', function, hvisit', hcode, hcall, hresume,
          hbetween⟩ := ih middle (Nat.lt_succ_of_lt hmiddle) hvisit hframes
        refine ⟨earlier, by omega, position', state', whole', function, hvisit', hcode, hcall,
          hresume, hextend earlier fun between other hlt' hle hother => ?_⟩
        rcases Nat.lt_or_ge middle between with hafter | hbefore
        · have hsuffix := hinner between other hafter hle hother
          rw [hframes] at hsuffix
          exact (List.suffix_cons popped _).trans hsuffix
        · exact hbetween between other hlt' hbefore hother

/-- A run that is still going on was going on before. -/
theorem exists_of_le (h : Visits meaning unit start time config) {earlier : Nat}
    (hle : earlier ≤ time) : ∃ config, Visits meaning unit start earlier config :=
  Lasts.running ⟨time, config, hle, h⟩

end Visits

/-- A set of positions that control leaves only by going back to a call. -/
structure Closed (unit : CodeUnit) (region : Nat → Prop) : Prop where
  onward : ∀ {position : Nat} {whole : Instruction}, region position →
    unit.code[position]? = some whole → whole.operation ≠ .leave → region (position + 1)
  jump : ∀ {position target : Nat} {whole : Instruction} {label : Label}, region position →
    unit.code[position]? = some whole → whole.operation.target? = some label →
    unit.code.position? label = some target → region target
  call : ∀ {position entry : Nat} {whole : Instruction} {callee : String} {destination : Storage},
    region position → unit.code[position]? = some whole →
    whole.operation = .call callee destination → unit.code.entry? callee = some entry → region entry

/-- No instruction of a set of positions writes a place. -/
def Spares (unit : CodeUnit) (region : Nat → Prop) (place : Storage) : Prop :=
  ∀ (position : Nat) (whole : Instruction), region position → unit.code[position]? = some whole →
    whole.operation.destination? ≠ some place

/-- While the machine is inside a call into a closed region, it stays there, apart from the call
itself; and a place that nothing there writes keeps its value. -/
theorem Closed.stays {region : Nat → Prop} (hclosed : Closed unit region) {place : Storage}
    (hspares : Spares unit region place) {first last entry : Nat} {frame : Frame}
    {rest : List Frame} {state : State Value Input}
    (hfirst : Visits meaning unit start first ⟨entry, frame :: rest, state⟩)
    (hentry : region entry) (hle : first ≤ last)
    (hinside : ∀ between config, first ≤ between → between ≤ last →
      Visits meaning unit start between config → frame :: rest <:+ config.frames)
    (h : Visits meaning unit start last config) :
    region config.position ∧
      (∃ extra, config.frames = extra ++ frame :: rest ∧
        ∀ inner ∈ extra, region inner.resume ∧ inner.destination ≠ place) ∧
      config.state.value meaning unit.strings place = state.value meaning unit.strings place := by
  induction hle generalizing config with
  | refl =>
    rw [← hfirst.unique h]
    exact ⟨hentry, ⟨[], rfl, by simp⟩, rfl⟩
  | @step last hle ih =>
    obtain ⟨previous, hprevious, hstep⟩ := h.succ
    obtain ⟨whole, hwhole, hpasses⟩ := passes_of_step hstep
    obtain ⟨hregion, ⟨extra, hextra, hresumes⟩, hvalue⟩ :=
      ih (fun between config hfirst hlast =>
        hinside between config hfirst (Nat.le_succ_of_le hlast)) hprevious
    have hwrite := hspares _ _ hregion hwhole
    cases hpasses with
    | onward hleave _ hposition hframes hsame =>
      rw [hposition, hframes, hsame _ _ _ hwrite]
      exact ⟨hclosed.onward hregion hwhole hleave, ⟨extra, hextra, hresumes⟩, hvalue⟩
    | jump label htarget hposition hframes hstate =>
      rw [hframes, hstate]
      exact ⟨hclosed.jump hregion hwhole htarget hposition, ⟨extra, hextra, hresumes⟩, hvalue⟩
    | call callee destination hoperation hposition hframes hstate =>
      rw [hframes, hstate]
      refine ⟨hclosed.call hregion hwhole hoperation hposition,
        ⟨_ :: extra, by rw [hextra]; rfl, ?_⟩, hvalue⟩
      intro inner hinner
      rcases List.mem_cons.mp hinner with rfl | hinner
      · refine ⟨hclosed.onward hregion hwhole (by rw [hoperation]; simp), ?_⟩
        rintro rfl
        exact hwrite (by rw [hoperation]; rfl)
      · exact hresumes inner hinner
    | back popped value _ hframes hposition hstate =>
      cases extra with
      | nil =>
        -- then the machine would be out of the call already
        have hsuffix := (hinside _ _ (Nat.le_succ_of_le hle) (Nat.le_refl _) h).length_le
        have hlength := congrArg List.length (hframes.symm.trans hextra)
        simp only [List.length_cons, List.nil_append] at hsuffix hlength
        omega
      | cons inner extra =>
        rw [hframes, List.cons_append, List.cons.injEq] at hextra
        obtain ⟨rfl, hextra⟩ := hextra
        obtain ⟨hresume, hpopped⟩ := hresumes popped List.mem_cons_self
        rw [hposition, hstate, State.value_write_of_ne _ _ _ hpopped]
        exact ⟨hresume,
          ⟨extra, hextra, fun inner hinner => hresumes inner (List.mem_cons_of_mem _ hinner)⟩,
          hvalue⟩

/-- A run starts at the entry of a function, with no call to go back to. -/
structure Config.Fresh (unit : CodeUnit) (config : Config Value Input) : Prop where
  frames_eq : config.frames = []
  enters : ∃ whole function, unit.code[config.position]? = some whole ∧
    whole.operation = .enter function

/-- The first configuration inside a call is the entry of the called function. -/
theorem Visits.entry_of_call {time last position : Nat} {frames : List Frame}
    {state : State Value Input} {whole : Instruction} {callee : String} {destination : Storage}
    (h : Visits meaning unit start time ⟨position, frames, state⟩)
    (hwhole : unit.code[position]? = some whole)
    (hcall : whole.operation = .call callee destination) (hlt : time < last)
    (hlast : Visits meaning unit start last config) :
    ∃ entry, unit.code.entry? callee = some entry ∧
      Visits meaning unit start (time + 1)
        ⟨entry, ⟨position + 1, destination⟩ :: frames, state⟩ := by
  obtain ⟨next, hnext⟩ := hlast.exists_of_le hlt
  obtain ⟨previous, hprevious, hstep⟩ := hnext.succ
  obtain rfl := hprevious.unique h
  obtain ⟨whole', hwhole', hpasses⟩ := passes_of_step hstep
  obtain rfl : whole' = whole := Option.some.inj (hwhole'.symm.trans hwhole)
  cases hpasses with
  | onward _ hnot _ _ _ => exact absurd hcall (hnot _ _)
  | jump _ htarget _ _ _ => simp [hcall, Operation.target?] at htarget
  | call callee' destination' hoperation hposition hframes hstate =>
    rw [hcall, Operation.call.injEq] at hoperation
    obtain ⟨rfl, rfl⟩ := hoperation
    have heq : next = ⟨next.position, ⟨position + 1, destination⟩ :: frames, state⟩ :=
      congrArg₂ (Config.mk next.position) hframes hstate
    exact ⟨next.position, hposition, heq ▸ hnext⟩
  | back _ _ hnot _ _ _ => exact absurd hcall (hnot _ _)

/-- An instruction that no jump and no call leads to is reached from the one before it, in the
same activation. In between there is at most a call, which keeps the places that no instruction it
can come to writes. -/
theorem Visits.exists_before (hfresh : start.Fresh unit) {time position : Nat}
    {frames : List Frame} {state : State Value Input} {here : Instruction}
    (h : Visits meaning unit start time ⟨position + 1, frames, state⟩)
    (hhere : unit.code[position + 1]? = some here) (hlabel : here.label? = none)
    (henter : ∀ function, here.operation ≠ .enter function) :
    ∃ earlier < time, ∃ previous whole,
      Visits meaning unit start earlier ⟨position, frames, previous⟩ ∧
      unit.code[position]? = some whole ∧
      (∀ between config, earlier < between → between < time →
        Visits meaning unit start between config → ∃ frame, frame :: frames <:+ config.frames) ∧
      ((∀ callee destination, whole.operation ≠ .call callee destination) →
        step meaning unit ⟨position, frames, previous⟩ =
          .running ⟨position + 1, frames, state⟩) ∧
      ∀ place, whole.operation.destination? ≠ some place →
        (∀ callee destination entry, whole.operation = .call callee destination →
          unit.code.entry? callee = some entry →
            ∃ region, Closed unit region ∧ region entry ∧ Spares unit region place) →
        state.value meaning unit.strings place = previous.value meaning unit.strings place := by
  match time, h with
  | 0, h =>
    obtain rfl : start = _ := Progress.running.inj h
    obtain ⟨whole, function, hwhole, hoperation⟩ := hfresh.enters
    obtain rfl : here = whole := Option.some.inj (hhere.symm.trans hwhole)
    exact absurd hoperation (henter function)
  | time + 1, h =>
    obtain ⟨⟨position', frames', previous⟩, hprevious, hstep⟩ := h.succ
    obtain ⟨whole, hwhole, hpasses⟩ := passes_of_step hstep
    cases hpasses with
    | onward _ _ hposition hframes hsame =>
      obtain rfl : position = position' := Nat.succ.inj hposition
      obtain rfl : frames = frames' := hframes
      refine ⟨time, Nat.lt_succ_self time, previous, whole, hprevious, hwhole, ?_, fun _ => hstep,
        fun place hwrite _ => hsame _ _ place hwrite⟩
      intro between config hlt hlt'
      omega
    | jump label _ hposition _ _ =>
      obtain ⟨whole', hwhole', hmark⟩ := Code.label_of_position? hposition
      obtain rfl : here = whole' := Option.some.inj (hhere.symm.trans hwhole')
      simp [hlabel] at hmark
    | call callee _ _ hposition _ _ =>
      obtain ⟨whole', hwhole', hoperation⟩ := Code.enter_of_entry? hposition
      obtain rfl : here = whole' := Option.some.inj (hhere.symm.trans hwhole')
      exact absurd hoperation (henter callee)
    | back frame value _ hframes hposition hstate =>
      obtain ⟨earlier, hlt, position'', caller, whole', callee, hvisit, hcode, hcall, hresume,
        hbetween⟩ := hprevious.exists_call hfresh.frames_eq hframes
      obtain rfl : position = position'' := Nat.succ.inj (hposition.trans hresume)
      refine ⟨earlier, Nat.lt_succ_of_lt hlt, caller, whole', hvisit, hcode, ?_, ?_, ?_⟩
      · intro between config hafter hbefore hconfig
        exact ⟨frame, hbetween between config hafter (Nat.le_of_lt_succ hbefore) hconfig⟩
      · intro hnot
        exact absurd hcall (hnot _ _)
      · intro place hwrite hregion
        obtain ⟨entry, hentry, hfirst⟩ := hvisit.entry_of_call hcode hcall hlt hprevious
        obtain ⟨region, hclosed, hin, hspares⟩ :=
          hregion callee frame.destination entry hcall hentry
        have hframe : (⟨position + 1, frame.destination⟩ : Frame) = frame := by rw [← hresume]
        rw [hframe] at hfirst
        obtain ⟨-, -, hkept⟩ := hclosed.stays hspares hfirst hin hlt
          (fun between config hfirst hlast => hbetween between config hfirst hlast) hprevious
        have hdestination : frame.destination ≠ place := by
          rintro rfl
          exact hwrite (by rw [hcall]; rfl)
        have hwritten : state = previous.write frame.destination value := hstate
        rw [hwritten, State.value_write_of_ne _ _ _ hdestination]
        exact hkept

/-- Inside a call that was made from an activation, there are more frames than before. -/
theorem Config.deeper {frames : List Frame} (h : ∃ frame, frame :: frames <:+ config.frames) :
    frames <:+ config.frames ∧ config.frames ≠ frames := by
  obtain ⟨frame, hsuffix⟩ := h
  refine ⟨(List.suffix_cons frame frames).trans hsuffix, fun heq => ?_⟩
  have hle := hsuffix.length_le
  rw [heq, List.length_cons] at hle
  omega

/-- Along code that no jump and no call leads into, the machine has come from the first position, in
the same activation, which has not been left since; and a place still has the value that it had
there, if nothing on the way and nothing called from there writes it. -/
theorem Visits.exists_earlier (hfresh : start.Fresh unit) {time first distance : Nat}
    {frames : List Frame} {state : State Value Input} {place : Storage}
    (h : Visits meaning unit start time ⟨first + distance, frames, state⟩)
    (hplain : ∀ index < distance, ∃ here, unit.code[first + index + 1]? = some here ∧
      here.label? = none ∧ ∀ callee, here.operation ≠ .enter callee)
    (hspares : ∀ index < distance, ∀ here, unit.code[first + index]? = some here →
      here.operation.destination? ≠ some place ∧
        ∀ callee destination entry, here.operation = .call callee destination →
          unit.code.entry? callee = some entry →
            ∃ region, Closed unit region ∧ region entry ∧ Spares unit region place) :
    ∃ earlier ≤ time, ∃ previous, Visits meaning unit start earlier ⟨first, frames, previous⟩ ∧
      state.value meaning unit.strings place = previous.value meaning unit.strings place ∧
      ∀ between config, earlier ≤ between → between < time →
        Visits meaning unit start between config → frames <:+ config.frames ∧
          (config.frames = frames →
            first ≤ config.position ∧ config.position < first + distance) := by
  induction distance generalizing time state with
  | zero =>
    exact ⟨time, Nat.le_refl time, state, h, rfl,
      fun between _ hle hlt => absurd hlt (Nat.not_lt.mpr hle)⟩
  | succ distance ih =>
    obtain ⟨here, hhere, hlabel, henter⟩ := hplain distance (Nat.lt_succ_self _)
    obtain ⟨middle, hmiddle, previous, whole, hvisit, hwhole, hbetween, -, hkept⟩ :=
      h.exists_before hfresh hhere hlabel henter
    obtain ⟨hwrite, hregion⟩ := hspares distance (Nat.lt_succ_self _) whole hwhole
    obtain ⟨earlier, hearlier, start', hstart', hvalue, hinside⟩ :=
      ih hvisit (fun index hlt => hplain index (Nat.lt_succ_of_lt hlt))
        (fun index hlt => hspares index (Nat.lt_succ_of_lt hlt))
    refine ⟨earlier, Nat.le_trans hearlier (Nat.le_of_lt hmiddle), start', hstart',
      (hkept place hwrite hregion).trans hvalue, fun between config hafter hbefore hconfig => ?_⟩
    rcases Nat.lt_trichotomy between middle with hlt | rfl | hgt
    · obtain ⟨hsuffix, hrange⟩ := hinside between config hafter hlt hconfig
      exact ⟨hsuffix, fun heq => ⟨(hrange heq).1, Nat.lt_succ_of_lt (hrange heq).2⟩⟩
    · rw [hconfig.unique hvisit]
      exact ⟨List.suffix_refl _, fun _ => ⟨Nat.le_add_right _ _, Nat.lt_succ_self _⟩⟩
    · obtain ⟨hdeep, hne⟩ := Config.deeper (hbetween between config hgt hbefore hconfig)
      exact ⟨hdeep, fun heq => absurd heq hne⟩

/-- Behind a copy into a parameter, along code that no jump and no call leads into, the parameter
still has the value that was copied, as long as nothing on the way and nothing called from there
writes it. The copy was made in the same activation, which has not been left since. -/
theorem Visits.exists_copy (hfresh : start.Fresh unit) {time copy distance : Nat}
    {frames : List Frame} {state : State Value Input} {whole : Instruction}
    {function name : String} {source : Storage}
    (h : Visits meaning unit start time ⟨copy + distance + 1, frames, state⟩)
    (hcopy : unit.code[copy]? = some whole)
    (hoperation : whole.operation = .copy (.parameter function name) source)
    (hplain : ∀ index ≤ distance, ∃ here, unit.code[copy + index + 1]? = some here ∧
      here.label? = none ∧ ∀ callee, here.operation ≠ .enter callee)
    (hspares : ∀ index < distance, ∀ here, unit.code[copy + index + 1]? = some here →
      here.operation.destination? ≠ some (.parameter function name) ∧
        ∀ callee destination entry, here.operation = .call callee destination →
          unit.code.entry? callee = some entry →
            ∃ region, Closed unit region ∧ region entry ∧
              Spares unit region (.parameter function name)) :
    ∃ earlier < time, ∃ previous, Visits meaning unit start earlier ⟨copy, frames, previous⟩ ∧
      state.world.parameters function name = previous.value meaning unit.strings source ∧
      ∀ between config, earlier < between → between < time →
        Visits meaning unit start between config → frames <:+ config.frames ∧
          (config.frames = frames →
            copy < config.position ∧ config.position ≤ copy + distance) := by
  rw [Nat.add_right_comm] at h
  obtain ⟨middle, hmiddle, previous, hprevious, hvalue, hinside⟩ :=
    h.exists_earlier hfresh
      (fun index hlt => by
        rw [Nat.add_right_comm copy 1 index]
        exact hplain (index + 1) hlt)
      (fun index hlt here hhere => hspares index hlt here (by rwa [Nat.add_right_comm] at hhere))
  obtain ⟨here, hhere, hlabel, henter⟩ := hplain 0 (Nat.zero_le _)
  obtain ⟨earlier, hearlier, first, whole', hfirst, hwhole', hbetween, hstep, -⟩ :=
    hprevious.exists_before hfresh hhere hlabel henter
  obtain rfl : whole = whole' := Option.some.inj (hcopy.symm.trans hwhole')
  have hwritten := hstep (by simp [hoperation])
  simp only [step, hcopy, hoperation, execute, Config.advance, Progress.running.injEq,
    Config.mk.injEq] at hwritten
  refine ⟨earlier, Nat.lt_of_lt_of_le hearlier hmiddle, first, hfirst, hvalue.trans ?_, ?_⟩
  · rw [← hwritten.2.2]
    simp [State.value, State.write, World.setParameter]
  · intro between config hafter hbefore hconfig
    rcases Nat.lt_or_ge between middle with hlt | hge
    · obtain ⟨hdeep, hne⟩ := Config.deeper (hbetween between config hafter hlt hconfig)
      exact ⟨hdeep, fun heq => absurd heq hne⟩
    · obtain ⟨hsuffix, hrange⟩ := hinside between config hge hbefore hconfig
      exact ⟨hsuffix, fun heq => by have := hrange heq; omega⟩

end Machine

end ThreeAddress
