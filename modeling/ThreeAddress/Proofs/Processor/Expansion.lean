import ThreeAddress.Proofs.Processor.Combination
import ThreeAddress.Proofs.Processor.Data
import ThreeAddress.Proofs.Processor.Peephole

/-!
# What the lines of an operation do

The meaning of an operation is a change of the data and the place where control goes next. The
lines of the operation, without the moves that are left out, bring this about: they write the word
that the operation means and no other word of the data, and of the registers only `rax` and `rcx`,
except that a division writes `rdx` too and that a return takes its address off the stack.
-/

namespace ThreeAddress

namespace Processor

open Assembly

/-- Where control goes after an operation. -/
inductive Exit where
  /-- The next operation follows. -/
  | next
  /-- The operation at a label follows. -/
  | jump (symbol : String)
  /-- The function returns a value. -/
  | ret (value : Word)

/-- What an operation means: the data after it, and where control goes. An operation writes a slot
that there is, an index is that of an element, and a quotient is a word. -/
inductive Means (host : Host) (words : String → Nat) (data : Data) :
    Operation → Data → Exit → Prop
  | copy {destination source : Storage} {slot : Slot} (hslot : slot? destination = some slot)
      (hwithin : slot.Within words) :
      Means host words data (.copy destination source)
        (Function.update data slot (data.contents host source)) .next
  | binary {op : BinaryOp} {destination lhs rhs : Storage} {slot : Slot} {value : Word}
      (hslot : slot? destination = some slot) (hwithin : slot.Within words)
      (hvalue : onWords? op (data.contents host lhs) (data.contents host rhs) = some value) :
      Means host words data (.binary op destination lhs rhs) (Function.update data slot value) .next
  | copyIntoArray {array : String} {index source : Storage}
      (hwithin : (elementSlot array (data.contents host index)).Within words) :
      Means host words data (.copyIntoArray array index source)
        (Function.update data (elementSlot array (data.contents host index))
          (data.contents host source)) .next
  | copyFromArray {destination : Storage} {array : String} {index : Storage} {slot : Slot}
      (hslot : slot? destination = some slot) (hwithin : slot.Within words)
      (helement : (elementSlot array (data.contents host index)).Within words) :
      Means host words data (.copyFromArray destination array index)
        (Function.update data slot (data (elementSlot array (data.contents host index)))) .next
  | goOn {condition : Storage} {target : Label} (h : data.contents host condition ≠ 0) :
      Means host words data (.jumpIfFalse condition target) data .next
  | jump {condition : Storage} {target : Label} (h : data.contents host condition = 0) :
      Means host words data (.jumpIfFalse condition target) data (.jump target.symbol)
  | ret {source : Storage} :
      Means host words data (.ret source) data (.ret (data.contents host source))

/-- The registers that the lines of an operation may write. -/
def written : Operation → List WordRegister
  | .binary .div _ _ _ => [.rax, .rcx, .rdx]
  | .ret _ => [.rax, .rcx, .rsp]
  | _ => [.rax, .rcx]

/-- All lines of operations may write `rax`. -/
theorem rax_mem_written (operation : Operation) : .rax ∈ written operation := by
  unfold written
  split <;> exact List.mem_cons_self

/-- All lines of operations may write `rcx`. -/
theorem rcx_mem_written (operation : Operation) : .rcx ∈ written operation := by
  unfold written
  split <;> exact List.mem_cons_of_mem _ List.mem_cons_self

/-- A binary operation may write what its operator writes. -/
theorem combined_subset_written (op : BinaryOp) (destination lhs rhs : Storage) :
    combined op ⊆ written (.binary op destination lhs rhs) := by
  cases op <;> simp [combined, written]

/-- What executing some lines one after the other comes to. -/
def State.executeLines (host : Host) : List Line → State → Outcome
  | [], state => .next state
  | line :: rest, state =>
    match state.executeLine host line with
    | .next next => State.executeLines host rest next
    | outcome => outcome

/-- What the lines of an operation come to in a state, if control goes somewhere. -/
def Exit.outcome (final : State) : Exit → Outcome
  | .next => .next final
  | .jump symbol => .jump symbol final
  | .ret _ => .ret final

/-- The state after an operation holds the data that is meant, and a value that is returned. -/
structure Expanded (host : Host) (words : String → Nat) (operation : Operation) (before : State)
    (after : Data) (exit : Exit) (final : State) : Prop where
  /-- Every word of the data is as it is meant to be. -/
  data : ∀ slot : Slot, slot.Within words → final.data host slot = after slot
  /-- Only some registers are written. -/
  keeps : before.Keeps (written operation) final
  /-- A value is returned in `rax`, and the return address is taken off the stack. -/
  result : ∀ value, exit = .ret value →
    final.registers .rax = value ∧ final.registers .rsp = before.registers .rsp + 8

variable {host : Host} {words : String → Nat} {state : State} {lines : List Line}

section Lines

/-- Lines that are followed by others are executed first. -/
theorem executeLines_append {first second : List Line} {middle : State}
    (h : State.after? host first state = some middle) :
    state.executeLines host (first ++ second) = middle.executeLines host second := by
  induction first generalizing state with
  | nil =>
    obtain rfl := Option.some.inj h
    rfl
  | cons line rest ih =>
    rw [State.after?] at h
    split at h
    · next next hnext =>
      rw [List.cons_append, State.executeLines, hnext]
      exact ih h
    · contradiction

/-- A move that is left out, after one between the same places, changes nothing. -/
theorem executeLine_of_not_keeps {moved? : Option Move} {line : Line} (hline : line.IsSelected)
    (hmoved : ∀ move, moved? = some move → Selected move) (hsettled : Settled host moved? state)
    (hkeeps : Peephole.keeps moved? line = false) : state.executeLine host line = .next state := by
  cases line with
  | label | comment => contradiction
  | instruction content =>
    cases content with
    | mov source destination =>
      have hreverse : moved? = some (Move.reverse ⟨source, destination⟩) := by
        simpa [Peephole.keeps, Line.move?] using hkeeps
      obtain ⟨symbol, hplain⟩ := (hline ⟨source, destination⟩ rfl).isPlain (hmoved _ hreverse)
      exact execute_move hplain (hsettled _ symbol hreverse hplain.reverse)
    | _ => contradiction

/-- The move made before the line that follows selected ones is a selected one. -/
theorem selected_after {moved? : Option Move} {line : Line} (hline : line.IsSelected)
    (hmoved : ∀ move, moved? = some move → Selected move) :
    ∀ move, Peephole.after moved? line = some move → Selected move := by
  cases line with
  | comment => exact hmoved
  | label | instruction => exact hline

/-- Where all moves are selected ones, nothing comes of leaving some out. -/
theorem executeLines_kept {moved? : Option Move} (hselected : ∀ line ∈ lines, line.IsSelected)
    (hmoved : ∀ move, moved? = some move → Selected move) (hsettled : Settled host moved? state) :
    state.executeLines host (Peephole.kept moved? lines) = state.executeLines host lines := by
  induction lines generalizing moved? state with
  | nil => rfl
  | cons line rest ih =>
    obtain ⟨hline, hrest⟩ := List.forall_mem_cons.mp hselected
    have hmoved' := selected_after hline hmoved
    rw [Peephole.kept]
    split
    · rw [State.executeLines, State.executeLines]
      split
      · next next hnext => exact ih hrest hmoved' (hsettled.next hnext)
      · rfl
    · next hkeeps =>
      have hidle := executeLine_of_not_keeps hline hmoved hsettled (Bool.not_eq_true _ ▸ hkeeps)
      rw [State.executeLines, hidle]
      exact ih hrest hmoved' (hsettled.next hidle)

/-- The label and the comment of an operation do nothing, and the moves that are left out of its
lines are not missed. -/
theorem executeLines_instructionLines {operation : Operation}
    (h : operationLines operation = .ok lines) (options : Options) (label? : Option Label) :
    ∃ whole, instructionLines options ⟨label?, operation⟩ = .ok whole ∧
      ∀ (host : Host) (state : State),
        state.executeLines host (Peephole.kept none whole) = state.executeLines host lines := by
  have hwhole : instructionLines options ⟨label?, operation⟩ =
      .ok (labelLines label? ++ annotationLines options operation ++ lines) := by
    rw [instructionLines, h]
    rfl
  have hcode : codeLines options [⟨label?, operation⟩] =
      .ok (labelLines label? ++ annotationLines options operation ++ lines ++ []) := by
    rw [codeLines, hwhole]
    rfl
  refine ⟨_, hwhole, fun host state => ?_⟩
  have hselected := isSelected_of_codeLines hcode
  rw [List.append_nil] at hselected
  have hfront := @after?_labelled host state [] options ⟨label?, operation⟩
  rw [List.append_nil] at hfront
  have hnothing : Settled host none state := by
    intro move symbol hmove
    contradiction
  rw [executeLines_kept hselected (by simp) hnothing]
  exact executeLines_append hfront

end Lines

section Operations

variable {registers : List WordRegister} {operation : Operation} {middle : State} {slot : Slot}
  {value : Word}

/-- A load leads to the state with the word of a place in a register. -/
theorem leadsTo_load {register : Register} {word : WordRegister}
    (hword : word? register = some word) (hmem : word ∈ registers) (place : Storage) :
    state.LeadsTo host registers [load register place]
      (state.setRegister word ((state.data host).contents host place)) :=
  State.leadsTo_setRegister (State.contents_eq host state place ▸ executeLine_load hword place) hmem

/-- The state with the index of an element in `rcx` and the address of its array in `rax`. -/
def State.atElement (host : Host) (state : State) (array : String) (index : Storage) : State :=
  (state.setRegister .rcx ((state.data host).contents host index)).setRegister .rax
    (host.address (Symbol.ofVariable array))

/-- The lines that load an index and the address of an array lead there. -/
theorem leadsTo_atElement (hrax : .rax ∈ registers) (hrcx : .rcx ∈ registers) (array : String)
    (index : Storage) :
    state.LeadsTo host registers ([load .rcx index] ++ [loadArray array])
      (state.atElement host array index) :=
  (leadsTo_load rfl hrcx index).append (State.leadsTo_setRegister rfl hrax)

/-- The index and the address of the array make the address of the element. -/
theorem address_atElement (array : String) (index : Storage) :
    (state.atElement host array index).registers .rax +
        8 * (state.atElement host array index).registers .rcx =
      host.slotAddress (elementSlot array ((state.data host).contents host index)) := by
  rw [State.atElement, State.registers_setRegister,
    State.registers_setRegister_of_ne (by decide), State.registers_setRegister,
    Host.slotAddress_element]

/-- A write to one slot brings about what is meant, if nothing else has been written to memory. -/
theorem Expanded.of_setWord (hlayout : host.LaysOut words) (hwithin : slot.Within words)
    (hleads : state.LeadsTo host (written operation) lines middle) :
    Expanded host words operation state (Function.update (state.data host) slot value) .next
      (middle.setWord (host.slotAddress slot) value) where
  data other hother := by
    have hdata : middle.data host = state.data host := by
      funext other
      exact congrArg (Memory.word · (host.slotAddress other)) hleads.memory
    rw [State.data_setWord hlayout hwithin hother, hdata]
  keeps := hleads.keeps
  result _ hexit := nomatch hexit

/-- An operation has lines, and these do what is meant. -/
def CarriedOut (host : Host) (words : String → Nat) (operation : Operation) (state : State)
    (after : Data) (exit : Exit) : Prop :=
  ∃ lines, operationLines operation = .ok lines ∧
    ∃ final, state.executeLines host lines = exit.outcome final ∧
      Expanded host words operation state after exit final

/-- An operation whose lines leave a word in `rax` and store it at the end writes the word to the
slot of its destination. -/
theorem carriedOut_of_store (hlayout : host.LaysOut words) {destination : Storage}
    (hslot : slot? destination = some slot) (hwithin : slot.Within words)
    (hlines : operationLines operation = do return lines ++ [← store destination])
    (hleads : state.LeadsTo host (written operation) lines middle)
    (hrax : middle.registers .rax = value) :
    CarriedOut host words operation state (Function.update (state.data host) slot value) .next := by
  obtain ⟨line, hline, hstore⟩ := exists_store_of_slot? hslot
  refine ⟨lines ++ [line], ?_, _, ?_, .of_setWord hlayout hwithin hleads⟩
  · rw [hlines, hline]
    rfl
  · rw [executeLines_append hleads.after?, State.executeLines, hstore, hrax]
    rfl

/-- A copy writes what it copies. -/
theorem carriedOut_copy (hlayout : host.LaysOut words) {destination : Storage}
    (hslot : slot? destination = some slot) (hwithin : slot.Within words) (source : Storage) :
    CarriedOut host words (.copy destination source) state
      (Function.update (state.data host) slot ((state.data host).contents host source)) .next :=
  carriedOut_of_store hlayout hslot hwithin rfl
    (leadsTo_load rfl (rax_mem_written (.copy destination source)) source)
    (State.registers_setRegister state .rax _)

/-- An operator writes what it makes of its operands. -/
theorem carriedOut_binary (hlayout : host.LaysOut words) {op : BinaryOp}
    {destination lhs rhs : Storage} (hslot : slot? destination = some slot)
    (hwithin : slot.Within words)
    (hvalue : onWords? op ((state.data host).contents host lhs)
      ((state.data host).contents host rhs) = some value) :
    CarriedOut host words (.binary op destination lhs rhs) state
      (Function.update (state.data host) slot value) .next := by
  have hrax := rax_mem_written (.binary op destination lhs rhs)
  have hrcx := rcx_mem_written (.binary op destination lhs rhs)
  have hloads : state.LeadsTo host (written (.binary op destination lhs rhs))
      ([load .rax lhs] ++ [load .rcx rhs])
      ((state.setRegister .rax ((state.data host).contents host lhs)).setRegister .rcx
        ((state.data host).contents host rhs)) :=
    (leadsTo_load rfl hrax lhs).append (leadsTo_load rfl hrcx rhs)
  obtain ⟨combined, hcombined, hresult⟩ := @exists_leadsTo_combine host
    ((state.setRegister .rax ((state.data host).contents host lhs)).setRegister .rcx
      ((state.data host).contents host rhs)) op value hvalue
  exact carriedOut_of_store hlayout hslot hwithin rfl
    (hloads.append (hcombined.mono (combined_subset_written op destination lhs rhs))) hresult

/-- A copy from an array writes the element. -/
theorem carriedOut_copyFromArray (hlayout : host.LaysOut words) {destination : Storage}
    (hslot : slot? destination = some slot) (hwithin : slot.Within words) (array : String)
    (index : Storage) :
    CarriedOut host words (.copyFromArray destination array index) state
      (Function.update (state.data host) slot
        (state.data host (elementSlot array ((state.data host).contents host index)))) .next := by
  have hrax := rax_mem_written (.copyFromArray destination array index)
  have hrcx := rcx_mem_written (.copyFromArray destination array index)
  have hread : (state.atElement host array index).LeadsTo host
      (written (.copyFromArray destination array index))
      [.instruction (.mov (.indexed .rax .rcx) (.register .rax))]
      ((state.atElement host array index).setRegister .rax
        (state.data host (elementSlot array ((state.data host).contents host index)))) :=
    State.leadsTo_setRegister (by rw [State.data, ← address_atElement]; rfl) hrax
  exact carriedOut_of_store hlayout hslot hwithin rfl
    ((leadsTo_atElement hrax hrcx array index).append hread)
    (State.registers_setRegister _ .rax _)

/-- A copy into an array writes the element. -/
theorem carriedOut_copyIntoArray (hlayout : host.LaysOut words) {array : String} {index : Storage}
    (hwithin : (elementSlot array ((state.data host).contents host index)).Within words)
    (source : Storage) :
    CarriedOut host words (.copyIntoArray array index source) state
      (Function.update (state.data host)
        (elementSlot array ((state.data host).contents host index))
        ((state.data host).contents host source)) .next := by
  have hrax := rax_mem_written (.copyIntoArray array index source)
  have hrcx := rcx_mem_written (.copyIntoArray array index source)
  -- the address of the element is made before the source is loaded over that of the array
  have haddress : (state.atElement host array index).LeadsTo host
      (written (.copyIntoArray array index source)) [.instruction (.lea (.indexed .rax .rcx) .rcx)]
      ((state.atElement host array index).setRegister .rcx
        (host.slotAddress (elementSlot array ((state.data host).contents host index)))) :=
    State.leadsTo_setRegister (address_atElement array index ▸ rfl) hrcx
  have hleads := ((leadsTo_atElement hrax hrcx array index).append haddress).append
    (leadsTo_load (rfl : word? .rax = _) hrax source)
  exact ⟨_, rfl, _, executeLines_append hleads.after?, .of_setWord hlayout hwithin hleads⟩

/-- The comparison of `rax` with zero and the jump behind it lead to a label if `rax` is zero. -/
theorem executeLines_jumpIfEqual (target : String) :
    state.executeLines host [.instruction (.compare (.immediate 0) .rax),
        .instruction (.jumpIfEqual target)] =
      (if state.registers .rax = 0 then Exit.jump target else .next).outcome
        { state with flags := .difference (state.registers .rax) 0 } := by
  have hcompare : state.executeLine host (.instruction (.compare (.immediate 0) .rax)) =
      .next { state with flags := .difference (state.registers .rax) 0 } := rfl
  have hzero : (Flags.difference (state.registers .rax) 0).zero = true ↔
      state.registers .rax = 0 := by
    rw [zero_difference_iff, BitVec.toInt_inj]
  rw [State.executeLines, hcompare]
  simp only [State.executeLines, State.executeLine, State.execute, hzero]
  by_cases h : state.registers .rax = 0
  · rw [if_pos h, if_pos h, Exit.outcome]
  · rw [if_neg h, if_neg h, Exit.outcome]

/-- A conditional jump leads to its label if the word of the condition is zero. -/
theorem carriedOut_jumpIfFalse (condition : Storage) (target : Label) :
    CarriedOut host words (.jumpIfFalse condition target) state (state.data host)
      (if (state.data host).contents host condition = 0 then .jump target.symbol else .next) := by
  have hload := @leadsTo_load host state _ _ _ (rfl : word? .rax = _)
    (rax_mem_written (.jumpIfFalse condition target)) condition
  have houtcome := (executeLines_append hload.after?).trans
    (executeLines_jumpIfEqual target.symbol)
  rw [State.registers_setRegister] at houtcome
  refine ⟨_, rfl, _, houtcome, fun _ _ => rfl, hload.keeps, fun value hexit => ?_⟩
  split at hexit <;> contradiction

/-- A return leaves its value in `rax`. -/
theorem carriedOut_ret (source : Storage) :
    CarriedOut host words (.ret source) state (state.data host)
      (.ret ((state.data host).contents host source)) := by
  have hload := @leadsTo_load host state _ _ _ (rfl : word? .rax = _)
    (rax_mem_written (.ret source)) source
  refine ⟨_, rfl, _, executeLines_append hload.after?, fun _ _ => rfl,
    hload.keeps.setRegister (by simp [written]) _, ?_⟩
  rintro value ⟨⟩
  exact ⟨State.registers_setRegister state .rax _, State.registers_setRegister _ .rsp _⟩

/-- An operation that has a meaning is carried out. -/
theorem Means.carriedOut {after : Data} {exit : Exit}
    (hmeans : Means host words (state.data host) operation after exit)
    (hlayout : host.LaysOut words) : CarriedOut host words operation state after exit := by
  cases hmeans with
  | copy hslot hwithin => exact carriedOut_copy hlayout hslot hwithin _
  | binary hslot hwithin hvalue => exact carriedOut_binary hlayout hslot hwithin hvalue
  | copyIntoArray hwithin => exact carriedOut_copyIntoArray hlayout hwithin _
  | copyFromArray hslot hwithin _ => exact carriedOut_copyFromArray hlayout hslot hwithin _ _
  | @goOn condition target h =>
    have hjump := @carriedOut_jumpIfFalse host words state condition target
    rwa [if_neg h] at hjump
  | @jump condition target h =>
    have hjump := @carriedOut_jumpIfFalse host words state condition target
    rwa [if_pos h] at hjump
  | ret => exact carriedOut_ret _

/-- A constant that is not wide is what becomes of its lower half when the sign is extended. -/
theorem signExtend_of_not_isWide {value : Int64} (h : (Operand.immediate value).isWide = false) :
    (value.toBitVec.setWidth 32).signExtend 64 = value.toBitVec := by
  have hrange : Int32.minValue.toInt ≤ value.toInt ∧ value.toInt ≤ Int32.maxValue.toInt := by
    rwa [Operand.isWide, Bool.not_eq_false', decide_eq_true_iff] at h
  have hmin : Int32.minValue.toInt = -2 ^ 31 := rfl
  have hmax : Int32.maxValue.toInt = 2 ^ 31 - 1 := rfl
  have hword : value.toInt = value.toBitVec.toInt := rfl
  have hlt := value.toBitVec.isLt
  rw [hmin, hmax, hword, BitVec.toInt_eq_toNat_cond] at hrange
  apply BitVec.eq_of_toInt_eq
  rw [BitVec.toInt_signExtend_of_le (by decide), BitVec.toInt_setWidth, Int.bmod_def,
    BitVec.toInt_eq_toNat_cond]
  split at hrange <;> split <;> omega

/-- The lines of an operation that has a meaning, without the moves that are left out, do what it
means. They write no other word of the data, and no registers but `rax`, `rcx`, for a division `rdx`
and for a return the stack pointer. A constant whose lower half is moved is extended to itself. -/
theorem operation_carried_out (hlayout : host.LaysOut words) {after : Data} {exit : Exit}
    (hmeans : Means host words (state.data host) operation after exit) (options : Options)
    (label? : Option Label) :
    ∃ lines, instructionLines options ⟨label?, operation⟩ = .ok lines ∧
      (∀ value destination, .instruction (.mov (.immediate value) destination) ∈ lines →
        (Operand.immediate value).isWide = true ∨
          (value.toBitVec.setWidth 32).signExtend 64 = value.toBitVec) ∧
      ∃ final, state.executeLines host (Peephole.kept none lines) = exit.outcome final ∧
        Expanded host words operation state after exit final := by
  obtain ⟨own, hown, final, houtcome, hexpanded⟩ := hmeans.carriedOut hlayout
  obtain ⟨lines, hlines, hexecuted⟩ := executeLines_instructionLines hown options label?
  refine ⟨lines, hlines, fun value destination _ => ?_, final, ?_, hexpanded⟩
  · exact (Bool.eq_false_or_eq_true _).imp_right signExtend_of_not_isWide
  · rw [hexecuted, houtcome]

end Operations

section Samples

/-- A host where an array of three words lies before a variable. -/
def arrayHost : Host where
  address symbol := if symbol = "_a" then 0 else 24
  undefined _ state := state.flags
  returns _ _ _ := False

/-- The words of the array and the variable. -/
def arrayWords (symbol : String) : Nat :=
  if symbol = "_a" then 3 else if symbol = "_i" then 1 else 0

/-- A processor with the index `2` in the variable and zero in the array. -/
def arrayState : State where
  registers _ := 5
  flags := ⟨false, false, false, false, false, false⟩
  memory place := if place = 24 then 2 else 0

/-- The array and the variable are apart. -/
theorem laysOut_arrayHost : arrayHost.LaysOut arrayWords where
  fits symbol := by
    unfold arrayWords
    split
    · decide
    · split <;> decide
  apart first second hfirst hsecond hne := by
    have hslot : ∀ slot : Slot, slot.Within arrayWords →
        slot.symbol = "_a" ∧ slot.index < 3 ∨ slot.symbol = "_i" ∧ slot.index < 1 := by
      intro slot hslot
      unfold Slot.Within arrayWords at hslot
      split at hslot
      · next h => exact .inl ⟨h, hslot⟩
      · split at hslot
        · next h => exact .inr ⟨h, hslot⟩
        · exact absurd hslot (Nat.not_lt_zero _)
    have ha : ∀ slot : Slot, slot.symbol = "_a" →
        arrayHost.slotAddress slot = 0 + 8 * BitVec.ofNat 64 slot.index := by
      intro slot h
      rw [Host.slotAddress, h]
      rfl
    have hi : ∀ slot : Slot, slot.symbol = "_i" → slot.index < 1 →
        arrayHost.slotAddress slot = 0 + 8 * BitVec.ofNat 64 3 := by
      intro slot h hindex
      rw [Host.slotAddress, h, Nat.lt_one_iff.mp hindex]
      rfl
    rcases hslot first hfirst with ⟨hfirst, hindex⟩ | ⟨hfirst, hindex⟩ <;>
      rcases hslot second hsecond with ⟨hsecond, hindex'⟩ | ⟨hsecond, hindex'⟩
    · exact absurd (hfirst.trans hsecond.symm) hne
    · rw [ha _ hfirst, hi _ hsecond hindex']
      exact Memory.apart_of_index_ne (by omega) (by omega) (by omega)
    · rw [hi _ hfirst hindex, ha _ hsecond]
      exact Memory.apart_of_index_ne (by omega) (by omega) (by omega)
    · exact absurd (hfirst.trans hsecond.symm) hne

/-- The code for `a[i] = 5000000000` writes the last element. -/
theorem element_carried_out :
    arrayHost.LaysOut arrayWords ∧
      Means arrayHost arrayWords (arrayState.data arrayHost)
        (.copyIntoArray "a" (.variable "i") (.constant (.int 5000000000)))
        (Function.update (arrayState.data arrayHost) ⟨"_a", 2⟩ 5000000000) .next ∧
      ∃ lines, instructionLines ⟨true, false⟩
          ⟨none, .copyIntoArray "a" (.variable "i") (.constant (.int 5000000000))⟩ = .ok lines ∧
        (∀ value destination, .instruction (.mov (.immediate value) destination) ∈ lines →
          (Operand.immediate value).isWide = true ∨
            (value.toBitVec.setWidth 32).signExtend 64 = value.toBitVec) ∧
        ∃ final, arrayState.executeLines arrayHost (Peephole.kept none lines) =
            Exit.next.outcome final ∧
          Expanded arrayHost arrayWords
            (.copyIntoArray "a" (.variable "i") (.constant (.int 5000000000))) arrayState
            (Function.update (arrayState.data arrayHost) ⟨"_a", 2⟩ 5000000000) .next final := by
  have helement : elementSlot "a" ((arrayState.data arrayHost).contents arrayHost (.variable "i")) =
      ⟨"_a", 2⟩ := by decide
  have hmeans : Means arrayHost arrayWords (arrayState.data arrayHost)
      (.copyIntoArray "a" (.variable "i") (.constant (.int 5000000000)))
      (Function.update (arrayState.data arrayHost) ⟨"_a", 2⟩ 5000000000) .next := by
    rw [← helement]
    exact .copyIntoArray (by rw [helement]; decide)
  exact ⟨laysOut_arrayHost, hmeans,
    operation_carried_out laysOut_arrayHost hmeans ⟨true, false⟩ none⟩

/-- The code for `i = 7 / 2` leaves the remainder in `rdx`, and the code that returns `i` moves the
stack pointer; both registers held another word before. -/
theorem division_and_return_write_more :
    arrayHost.LaysOut arrayWords ∧
      (∀ register, arrayState.registers register = 5) ∧
      (Means arrayHost arrayWords (arrayState.data arrayHost)
          (.binary .div (.variable "i") (.constant (.int 7)) (.constant (.int 2)))
          (Function.update (arrayState.data arrayHost) ⟨"_i", 0⟩ 3) .next ∧
        ∃ lines final, instructionLines ⟨false, false⟩
              ⟨none, .binary .div (.variable "i") (.constant (.int 7)) (.constant (.int 2))⟩ =
            .ok lines ∧
          arrayState.executeLines arrayHost (Peephole.kept none lines) = .next final ∧
          final.registers .rdx = 1) ∧
      Means arrayHost arrayWords (arrayState.data arrayHost) (.ret (.variable "i"))
        (arrayState.data arrayHost) (.ret 2) ∧
      ∃ lines final, instructionLines ⟨false, false⟩ ⟨none, .ret (.variable "i")⟩ = .ok lines ∧
        arrayState.executeLines arrayHost (Peephole.kept none lines) = .ret final ∧
        final.registers .rsp = 13 := by
  refine ⟨laysOut_arrayHost, fun _ => rfl, ⟨.binary rfl (by decide) (by decide), ?_⟩, ?_, ?_⟩
  · exact ⟨_, _, rfl, rfl, rfl⟩
  · exact Means.ret
  · exact ⟨_, _, rfl, rfl, rfl⟩

end Samples

end Processor

end ThreeAddress
