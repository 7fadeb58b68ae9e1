import ThreeAddress.Proofs.Execution.Located
import ThreeAddress.Proofs.Execution.Structured

/-!
# The code of an expression computes its value

From the position where the code of an expression stands, the machine runs to the position behind
it, having done to the world what evaluating the expression does, with the value at the place that
lowering named. On the way it writes only temporaries taken for this expression. So the value
stays where it is while the rest of a larger expression is computed.
-/

namespace ThreeAddress

open LowerM

/-- Whether an operand is safe from whatever is computed with temporaries taken later. -/
def Storage.Settled (before after : Supply) : Storage → Prop
  | .temporary id => before.Took after id
  | _ => True

/-- The value of an expression is at a settled place. -/
theorem settled_of_yields {env : Environment} {expr : Expr} {before after : Supply} {code : Code}
    {place : Storage} (h : (lowerExpr env expr).Yields before (code, place) after) :
    place.Settled before after := by
  have hfresh : ∀ middle : Supply, before.Drawn middle →
      (Storage.temporary (.numbered middle.temporaries)).Settled before middle.afterTemporary :=
    fun middle hdrawn =>
      ⟨middle.temporaries, hdrawn.temporaries_le, Nat.lt_succ_self _, rfl⟩
  cases expr with
  | literal value =>
    cases value with
    | string text =>
      obtain ⟨-, rfl, -⟩ := yields_string_iff.mp h
      trivial
    | int value =>
      obtain ⟨-, rfl, -⟩ := (yields_constant_iff (.int value)).mp h
      trivial
    | float value =>
      obtain ⟨-, rfl, -⟩ := (yields_constant_iff (.float value)).mp h
      trivial
    | char value =>
      obtain ⟨-, rfl, -⟩ := (yields_constant_iff (.char value)).mp h
      trivial
  | scalar name =>
    obtain ⟨-, rfl, -⟩ := yields_scalar_iff.mp h
    unfold Environment.placeOf
    split
    · split <;> trivial
    · trivial
  | element array index =>
    obtain ⟨_, _, middle, hindex, rfl, -, rfl⟩ := yields_element_iff.mp h
    exact hfresh middle (straightLine_of_yields hindex).drawn
  | call function args =>
    obtain ⟨_, _, middle, -, hargs, rfl, -, rfl⟩ := yields_call_iff.mp h
    exact hfresh middle (straightLine_of_args hargs).drawn
  | input type =>
    obtain ⟨rfl, -, rfl⟩ := yields_input_iff.mp h
    exact hfresh before .refl
  | binary op lhs rhs =>
    obtain ⟨_, _, _, _, _, last, hleft, hright, rfl, -, rfl⟩ := yields_binary_iff.mp h
    exact hfresh last ((straightLine_of_yields hleft).drawn.trans
      (straightLine_of_yields hright).drawn)

namespace Machine

variable {Value Input : Type}

/-- Only temporaries taken between two supplies have changed. -/
def State.Kept (before after : Supply) (state state' : State Value Input) : Prop :=
  ∀ id, ¬ before.Took after id → state'.temporaries id = state.temporaries id

namespace State.Kept

variable {first second third : Supply} {state state' state'' : State Value Input}

/-- Nothing has changed at all. -/
theorem refl (first second : Supply) (state : State Value Input) : Kept first second state state :=
  fun _ _ => rfl

/-- Changes of two stretches are changes of both together. -/
theorem trans (h : Kept first second state state') (h' : Kept second third state' state'')
    (hdrawn : first.Drawn second) (hdrawn' : second.Drawn third) :
    Kept first third state state'' := by
  intro id hnot
  rw [h' id fun htook => hnot (htook.mono hdrawn.temporaries_le (Nat.le_refl _)),
    h id fun htook => hnot (htook.mono (Nat.le_refl _) hdrawn'.temporaries_le)]

/-- A settled operand keeps its value while nothing but later temporaries and the input change. -/
theorem value_eq {meaning : Interpretation Value Input} {strings : StringPool} {place : Storage}
    (h : Kept second third state state') (hplace : place.Settled first second)
    (hfit : third.temporaries ≤ 2 ^ 32) (hdrawn : second.Drawn third)
    (hworld : state'.world = { state.world with input := state'.world.input }) :
    state'.value meaning strings place = state.value meaning strings place := by
  match place, hplace with
  | .variable name, _ => rw [value, hworld, value]
  | .parameter function name, _ => rw [value, hworld, value]
  | .temporary id, htook => exact h id (Supply.Took.not_later htook hfit hdrawn.temporaries_le)
  | .constant _, _ => rfl
  | .string _, _ => rfl

end State.Kept

/-- A temporary has the value that was written to it. -/
@[simp] theorem State.value_write_temporary (meaning : Interpretation Value Input)
    (strings : StringPool) (state : State Value Input) (id : Temporary) (value : Value) :
    (state.write (.temporary id) value).value meaning strings (.temporary id) = value := by
  simp [State.write, State.value]

/-- Writing the next temporary changes no other. -/
theorem State.kept_write (supply : Supply) (state : State Value Input) (value : Value) :
    State.Kept supply supply.afterTemporary state
      (state.write (.temporary (.numbered supply.temporaries)) value) := by
  intro id hnot
  refine Function.update_of_ne ?_ _ _
  rintro rfl
  exact hnot ⟨supply.temporaries, Nat.le_refl _, Nat.lt_succ_self _, rfl⟩

variable (meaning : Interpretation Value Input) (unit : CodeUnit)

/-- The machine runs to a position as an evaluation goes: it gets there with the value at a place,
or is stopped in the same world. -/
def Evaluates (before after : Supply) (config : Config Value Input) (stop : Nat)
    (place : Storage) : Except (World Value Input) (Value × World Value Input) → Prop
  | .ok (value, world) =>
    ∃ state, Leads meaning unit config (.running ⟨stop, config.frames, state⟩) ∧
      state.world = world ∧ state.value meaning unit.strings place = value ∧
      State.Kept before after config.state state
  | .error world => ∃ state, Leads meaning unit config (.trapped state) ∧ state.world = world

variable {meaning unit}

/-- A step executes the operation that stands at its position. -/
theorem step_of_operation (meaning : Interpretation Value Input) (config : Config Value Input)
    {whole : Instruction} {operation : Operation} (h : unit.code[config.position]? = some whole)
    (hoperation : whole.operation = operation) :
    step meaning unit config = execute meaning unit config operation := by
  rw [step, h, ← hoperation]

/-- A name has the value of the place it refers to. -/
theorem value_placeOf (env : Environment) (name : String) (state : State Value Input) :
    state.value meaning unit.strings (env.placeOf name) = state.world.lookup env name := by
  unfold Environment.placeOf World.lookup
  cases env.enclosing? with
  | none => rfl
  | some function =>
    simp only
    split <;> rfl

/-- An operation that writes the next temporary ends an evaluation with the value written. -/
theorem Evaluates.of_write {before middle : Supply} {config : Config Value Input} {stop : Nat}
    {state state' : State Value Input} {value : Value}
    (h : Leads meaning unit config (.running ⟨stop, config.frames, state⟩))
    (hkept : State.Kept before middle config.state state) (hdrawn : before.Drawn middle)
    (htemporaries : state'.temporaries = state.temporaries)
    (hstep : step meaning unit ⟨stop, config.frames, state⟩ =
      .running ⟨stop + 1, config.frames,
        state'.write (.temporary (.numbered middle.temporaries)) value⟩) :
    Evaluates meaning unit before middle.afterTemporary config (stop + 1)
      (.temporary (.numbered middle.temporaries)) (.ok (value, state'.world)) := by
  refine ⟨_, h.trans (.of_step hstep), rfl, State.value_write_temporary .., ?_⟩
  have hsame : State.Kept before middle config.state state' := by
    intro id hnot
    rw [htemporaries]
    exact hkept id hnot
  exact hsame.trans (State.kept_write middle state' value) hdrawn (.temporary .refl)

section LastStep

variable {before middle : Supply} {config : Config Value Input} {stop : Nat}
  {state : State Value Input} {whole : Instruction}

/-- Reading an element into the next temporary ends an evaluation. -/
theorem Evaluates.of_element
    (h : Leads meaning unit config (.running ⟨stop, config.frames, state⟩))
    (hkept : State.Kept before middle config.state state) (hdrawn : before.Drawn middle)
    (hwhole : unit.code[stop]? = some whole) {array : String} {index : Storage}
    (hoperation : whole.operation =
      .copyFromArray (.temporary (.numbered middle.temporaries)) array index) :
    Evaluates meaning unit before middle.afterTemporary config (stop + 1)
      (.temporary (.numbered middle.temporaries))
      (match meaning.element array (state.value meaning unit.strings index) with
      | some slot => .ok (state.world.arrays array slot, state.world)
      | none => .error state.world) := by
  have hstep := step_of_operation meaning ⟨stop, config.frames, state⟩ hwhole hoperation
  rw [execute] at hstep
  cases hslot : meaning.element array (state.value meaning unit.strings index) with
  | none =>
    rw [hslot] at hstep
    exact ⟨state, h.trans (.of_step hstep), rfl⟩
  | some slot =>
    rw [hslot] at hstep
    exact .of_write h hkept hdrawn rfl hstep

/-- Combining two values into the next temporary ends an evaluation. -/
theorem Evaluates.of_combine
    (h : Leads meaning unit config (.running ⟨stop, config.frames, state⟩))
    (hkept : State.Kept before middle config.state state) (hdrawn : before.Drawn middle)
    (hwhole : unit.code[stop]? = some whole) {op : BinaryOp} {left right : Storage}
    (hoperation : whole.operation =
      .binary op (.temporary (.numbered middle.temporaries)) left right) :
    Evaluates meaning unit before middle.afterTemporary config (stop + 1)
      (.temporary (.numbered middle.temporaries))
      (match meaning.combine op (state.value meaning unit.strings left)
        (state.value meaning unit.strings right) with
      | some value => .ok (value, state.world)
      | none => .error state.world) := by
  have hstep := step_of_operation meaning ⟨stop, config.frames, state⟩ hwhole hoperation
  rw [execute] at hstep
  cases hcombine : meaning.combine op (state.value meaning unit.strings left)
      (state.value meaning unit.strings right) with
  | none =>
    rw [hcombine] at hstep
    exact ⟨state, h.trans (.of_step hstep), rfl⟩
  | some value =>
    rw [hcombine] at hstep
    exact .of_write h hkept hdrawn rfl hstep

end LastStep

/-- The code of an expression without calls computes what the expression means. -/
theorem evaluates_of_yields {env : Environment} {expr : Expr} (hfree : expr.callFree = true)
    {before after : Supply} {code : Code} {place : Storage}
    (h : (lowerExpr env expr).Yields before (code, place) after)
    (hfit : after.temporaries ≤ 2 ^ 32) (hstrings : Supply.Registered unit.strings before after)
    (config : Config Value Input) (hlocated : unit.code.Located config.position code) :
    Evaluates meaning unit before after config (config.position + code.length) place
      (expr.eval meaning env config.state.world) := by
  induction expr generalizing before after code place config with
  | literal value =>
    have hconstant : ∀ constant : Immediate,
        (lowerExpr env (.literal constant.literal)).Yields before (code, place) after →
          Evaluates meaning unit before after config (config.position + code.length) place
            (.ok (meaning.constant constant, config.state.world)) := by
      intro constant h
      obtain ⟨rfl, rfl, rfl⟩ := (yields_constant_iff constant).mp h
      exact ⟨config.state, .refl _, rfl, rfl, .refl _ _ _⟩
    cases value with
    | int value => exact hconstant (.int value) h
    | float value => exact hconstant (.float value) h
    | char value => exact hconstant (.char value) h
    | string text =>
      obtain ⟨rfl, rfl, rfl⟩ := yields_string_iff.mp h
      refine ⟨config.state, .refl _, rfl, ?_, .refl _ _ _⟩
      have hfound := hstrings before.temporaries (Nat.le_refl _) (Nat.lt_succ_self _)
      rw [Supply.afterString, StringPool.find?_insert_self] at hfound
      simp [State.value, hfound, Interpretation.literal]
  | scalar name =>
    obtain ⟨rfl, rfl, rfl⟩ := yields_scalar_iff.mp h
    exact ⟨config.state, .refl _, rfl, value_placeOf env name _, .refl _ _ _⟩
  | element array index ih =>
    obtain ⟨indexCode, indexPlace, middle, hindex, rfl, rfl, rfl⟩ := yields_element_iff.mp h
    have hdrawn := (straightLine_of_yields hindex).drawn
    have hnext : middle.Drawn middle.afterTemporary := .temporary .refl
    have hpart := ih hfree hindex (Nat.le_of_succ_le hfit) (hnext.registered_left hfit hstrings)
      config hlocated.left
    simp only [Expr.eval, bind, Except.bind]
    cases heval : index.eval meaning env config.state.world with
    | error world =>
      rw [heval] at hpart
      exact hpart
    | ok result =>
      obtain ⟨value, world⟩ := result
      rw [heval] at hpart
      obtain ⟨state, hleads, rfl, hvalue, hkept⟩ := hpart
      obtain ⟨whole, hwhole, hoperation⟩ := hlocated.last
      rw [Code.length_push, ← Nat.add_assoc]
      have hends := Evaluates.of_element hleads hkept hdrawn hwhole hoperation
      rw [hvalue] at hends
      exact hends
  | call function args _ => simp [Expr.callFree] at hfree
  | input type =>
    obtain ⟨rfl, rfl, rfl⟩ := yields_input_iff.mp h
    obtain ⟨whole, hwhole, hoperation, -⟩ := hlocated 0 _ rfl
    have hstep := step_of_operation meaning config hwhole hoperation
    rw [Operation.unlabelled, execute] at hstep
    simp only [Expr.eval]
    cases hread : meaning.read type config.state.world.input with
    | none =>
      rw [hread] at hstep
      exact ⟨config.state, .of_step hstep, rfl⟩
    | some result =>
      obtain ⟨value, rest⟩ := result
      rw [hread] at hstep
      let drained : State Value Input :=
        { config.state with world := { config.state.world with input := rest } }
      exact .of_write (.refl config) (.refl _ _ _) .refl
        (rfl : drained.temporaries = config.state.temporaries) hstep
  | binary op lhs rhs ihl ihr =>
    obtain ⟨leftCode, left, middle, rightCode, right, last, hleft, hright, rfl, rfl, rfl⟩ :=
      yields_binary_iff.mp h
    have hfrees : lhs.callFree = true ∧ rhs.callFree = true := by simpa [Expr.callFree] using hfree
    have hdrawnl := (straightLine_of_yields hleft).drawn
    have hdrawnr := (straightLine_of_yields hright).drawn
    have hnext : last.Drawn last.afterTemporary := .temporary .refl
    have hfitr : last.temporaries ≤ 2 ^ 32 := Nat.le_of_succ_le hfit
    have hstringsr := hnext.registered_left hfit hstrings
    have hpartl := ihl hfrees.1 hleft (Nat.le_trans hdrawnr.temporaries_le hfitr)
      (hdrawnr.registered_left hfitr hstringsr) config hlocated.left.left
    simp only [Expr.eval, bind, Except.bind]
    cases hevall : lhs.eval meaning env config.state.world with
    | error world =>
      rw [hevall] at hpartl
      exact hpartl
    | ok resultl =>
      obtain ⟨valuel, worldl⟩ := resultl
      rw [hevall] at hpartl
      obtain ⟨statel, hleadsl, rfl, hvaluel, hkeptl⟩ := hpartl
      have hpartr := ihr hfrees.2 hright hfitr (hdrawnl.registered_right hstringsr)
        ⟨config.position + leftCode.length, config.frames, statel⟩ hlocated.left.right
      simp only
      cases hevalr : rhs.eval meaning env statel.world with
      | error world =>
        simp only [hevalr] at hpartr
        obtain ⟨state, hleads, hworld⟩ := hpartr
        exact ⟨state, hleadsl.trans hleads, hworld⟩
      | ok resultr =>
        obtain ⟨valuer, worldr⟩ := resultr
        simp only [hevalr] at hpartr
        obtain ⟨stater, hleadsr, rfl, hvaluer, hkeptr⟩ := hpartr
        have hsettled : stater.value meaning unit.strings left = valuel := by
          rw [hkeptr.value_eq (settled_of_yields hleft) hfitr hdrawnr (Expr.eval_world hevalr),
            hvaluel]
        obtain ⟨whole, hwhole, hoperation⟩ := hlocated.last
        rw [List.length_append, ← Nat.add_assoc] at hwhole
        rw [Code.length_push, List.length_append, ← Nat.add_assoc, ← Nat.add_assoc]
        have hends := Evaluates.of_combine (hleadsl.trans hleadsr)
          (hkeptl.trans hkeptr hdrawnl hdrawnr) (hdrawnl.trans hdrawnr) hwhole hoperation
        rw [hsettled, hvaluer] at hends
        exact hends

end Machine

end ThreeAddress
