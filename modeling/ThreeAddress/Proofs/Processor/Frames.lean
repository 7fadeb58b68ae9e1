import ThreeAddress.Proofs.Assembly.Brackets
import ThreeAddress.Proofs.Processor.Data
import Mathlib.Data.BitVec

/-!
# Memory on the stack

The stack is a region of memory. What lies there from the stack pointer on belongs to functions that
wait for others: the words of their brackets, and the addresses at which they go on. Each line
leaves this part of memory as it is. A line that puts a word on the stack writes below it, and other
lines write the word of a symbol or of an element of an array. The first have their place elsewhere,
and so have the second unless the index leads out of the array and onto the stack.
-/

namespace ThreeAddress

namespace Processor

open Assembly

/-- A region of memory for the stack. -/
structure Stack where
  /-- The lowest address. -/
  low : Word
  /-- How many bytes there are. -/
  size : Nat
  /-- There is memory besides the stack, a word at least. -/
  size_lt : size + 8 < 2 ^ 64

namespace Stack

variable {stack : Stack} {top address value : Word} {before after memory : Memory}

/-- How far an address lies from the lowest one. -/
def offset (stack : Stack) (place : Word) : Nat := (place - stack.low).toNat

/-- The word at an address lies on the stack. -/
def Holds (stack : Stack) (address : Word) : Prop := stack.offset address + 8 ≤ stack.size

/-- Whether a word lies on the stack is decided by how far it lies from the lowest address. -/
instance (stack : Stack) (address : Word) : Decidable (stack.Holds address) :=
  inferInstanceAs (Decidable (stack.offset address + 8 ≤ stack.size))

/-- The word at an address has no byte in common with the stack. -/
def IsApart (stack : Stack) (address : Word) : Prop :=
  ∀ place, stack.offset place < stack.size → 8 ≤ (place - address).toNat

/-- From an address on, the stack is in one memory as in another. -/
def Keeps (stack : Stack) (top : Word) (before after : Memory) : Prop :=
  ∀ place, stack.offset top ≤ stack.offset place → stack.offset place < stack.size →
    after place = before place

/-- A word on the stack does not lie higher than the address one or two words behind it. -/
theorem offset_sub_le {count : Nat} (hcount : count ≤ 16)
    (h : stack.Holds (address - BitVec.ofNat 64 count)) :
    stack.offset (address - BitVec.ofNat 64 count) ≤ stack.offset address := by
  have hsize := stack.size_lt
  unfold Holds offset at *
  bv_omega

/-- A word on the stack that is not below the address is kept. -/
theorem Keeps.word (h : stack.Keeps top before after) (hholds : stack.Holds address)
    (hle : stack.offset top ≤ stack.offset address) : after.word address = before.word address := by
  refine @eq_of_byteOf_eq 8 _ _ fun index hindex => ?_
  have hsize := stack.size_lt
  have hoffset : stack.offset (address + BitVec.ofNat 64 index) = stack.offset address + index := by
    unfold Holds offset at *
    bv_omega
  unfold Holds at hholds
  rw [Memory.word, Memory.word, Memory.byteOf_bytes hindex, Memory.byteOf_bytes hindex]
  exact h _ (by omega) (by omega)

/-- What is written apart from the stack does not change it. -/
theorem keeps_setWord_of_apart (h : stack.IsApart address) :
    stack.Keeps top memory (memory.setWord address value) := by
  intro place _ hplace
  exact if_neg (Nat.not_lt_of_le (h place hplace))

/-- What is put on the stack does not change what is there. -/
theorem keeps_setWord_below : stack.Keeps top memory (memory.setWord (top - 8) value) := by
  intro place hle hplace
  have hsize := stack.size_lt
  refine if_neg (Nat.not_lt_of_le ?_)
  unfold offset at *
  bv_omega

end Stack

/-- The state after a word is put on the stack. -/
def State.pushWord (state : State) (value : Word) : State :=
  (state.setRegister .rsp (state.registers .rsp - 8)).setWord (state.registers .rsp - 8) value

/-- The word that is put on the stack lies below all others. -/
@[simp] theorem rsp_pushWord (state : State) (value : Word) :
    (state.pushWord value).registers .rsp = state.registers .rsp - 8 :=
  State.registers_setRegister state .rsp (state.registers .rsp - 8)

section Outcomes

variable {host : Host} {state after : State} {line : Line} {outcome : Outcome}

/-- A state that may be missing is one to go on with, or none. -/
@[simp] theorem Outcome.ofOption_eq_next_iff {state? : Option State} :
    Outcome.ofOption state? = .next after ↔ state? = some after := by
  cases state? <;> simp [Outcome.ofOption]

/-- What a line is that another than the next one follows, and what it changes. -/
def Outcome.ExitOf (state : State) (line : Line) : Outcome → Prop
  | .jump symbol after =>
    (line = .instruction (.jump symbol) ∨ line = .instruction (.jumpIfEqual symbol)) ∧ after = state
  | .call symbol before => line = .instruction (.call symbol) ∧ before = state
  | .ret after =>
    line = .instruction .ret ∧ after = state.setRegister .rsp (state.registers .rsp + 8)
  | .next _ | .fault => True

/-- A state that may be missing is followed by the next line at most. -/
theorem Outcome.exitOf_ofOption {state? : Option State} :
    (Outcome.ofOption state?).ExitOf state line := by
  cases state? <;> trivial

/-- Other lines than the next one follow jumps, calls and returns alone. Jumps and calls change
nothing, and returns take the address off the stack. -/
theorem exitOf_executeLine (h : state.executeLine host line = outcome) :
    outcome.ExitOf state line := by
  subst h
  cases line with
  | label | comment => trivial
  | instruction content =>
    cases content with
    | jump symbol => exact ⟨.inl rfl, rfl⟩
    | jumpIfEqual symbol =>
      rw [State.executeLine, State.execute]
      split
      · exact ⟨.inr rfl, rfl⟩
      · trivial
    | call symbol | ret => exact ⟨rfl, rfl⟩
    | extendSign | verbatim => trivial
    | _ => exact Outcome.exitOf_ofOption

/-- No name means the stack pointer. -/
theorem ne_rsp_of_word? {register : Register} {word : WordRegister}
    (h : word? register = some word) : word ≠ .rsp := by
  rintro rfl
  cases register <;> simp [word?] at h

/-- A name of a part of a register means a part of `rax`. -/
theorem eq_rax_of_part {register : Register} {word : WordRegister}
    (h : half? register = some word ∨ byte? register = some word) : word = .rax := by
  cases register <;> simp_all [half?, byte?]

/-- Writing a register leaves the stack pointer and memory as they were. -/
theorem same_of_write? {value : Word} {name : Register}
    (h : state.write? host value (.register name) = some after) :
    after.registers .rsp = state.registers .rsp ∧ after.memory = state.memory := by
  obtain ⟨word, hword, rfl⟩ := Option.map_eq_some_iff.mp h
  exact ⟨State.registers_setRegister_of_ne (ne_rsp_of_word? hword).symm state value, rfl⟩

/-- What a line that the next one follows does to the stack pointer and to memory. -/
inductive Effect (host : Host) (state : State) : Line → State → Prop
  /-- Most lines do nothing to them. -/
  | none {line : Line} {after : State} (hpushes : line.pushes = 0)
      (hrsp : after.registers .rsp = state.registers .rsp) (hmemory : after.memory = state.memory) :
      Effect host state line after
  | push (source : Register) (value : Word) :
      Effect host state (.instruction (.push source)) (state.pushWord value)
  | pop {destination : Register} {after : State}
      (hrsp : after.registers .rsp = state.registers .rsp + 8)
      (hmemory : after.memory = state.memory) :
      Effect host state (.instruction (.pop destination)) after
  | store {source destination : Operand} {address : Word}
      (haddress : state.address? host destination = some address) (value : Word) :
      Effect host state (.instruction (.mov source destination)) (state.setWord address value)

/-- A line that the next one follows has one of these effects. -/
theorem effect_of_next (h : state.executeLine host line = .next after) :
    Effect host state line after := by
  cases line with
  | label | comment =>
    obtain rfl := Outcome.next.inj h
    exact .none rfl rfl rfl
  | instruction content =>
    cases content <;>
      simp only [State.executeLine, State.execute, Outcome.ofOption_eq_next_iff, bind, pure,
        Option.bind_eq_some_iff, Option.some.injEq, Outcome.next.injEq, reduceCtorEq] at h
    case mov source destination =>
      obtain ⟨_, -, value, -, hwrite⟩ := h
      cases destination with
      | register name =>
        obtain ⟨hrsp, hmemory⟩ := same_of_write? hwrite
        exact .none rfl hrsp hmemory
      | immediate => contradiction
      | memory | indexed | indirect =>
        simp only [State.write?] at hwrite
        obtain ⟨address, haddress, rfl⟩ := Option.map_eq_some_iff.mp hwrite
        exact .store haddress value
    case lea =>
      obtain ⟨address, -, hwrite⟩ := h
      obtain ⟨hrsp, hmemory⟩ := same_of_write? hwrite
      exact .none rfl hrsp hmemory
    case push source =>
      obtain ⟨value, -, rfl⟩ := h
      exact .push source value
    case pop =>
      obtain ⟨hrsp, hmemory⟩ := same_of_write? h
      exact .pop (hrsp.trans (State.registers_setRegister ..)) hmemory
    case word =>
      obtain ⟨left, -, right, -, written, hwrite, rfl⟩ := h
      obtain ⟨hrsp, hmemory⟩ := same_of_write? hwrite
      exact .none rfl hrsp hmemory
    case extendSign =>
      subst h
      exact .none rfl (State.registers_setRegister_of_ne (by decide) _ _) rfl
    case divide =>
      obtain ⟨divisor, -, ⟨quotient, remainder⟩, -, rfl⟩ := h
      have hrax := State.registers_setRegister_of_ne (by decide : WordRegister.rsp ≠ .rax) state
        quotient
      have hrdx := State.registers_setRegister_of_ne (by decide : WordRegister.rsp ≠ .rdx)
        (state.setRegister .rax quotient) remainder
      exact .none rfl (hrdx.trans hrax) rfl
    case compare =>
      obtain ⟨_, -, left, -, right, -, rfl⟩ := h
      exact .none rfl rfl rfl
    case set =>
      obtain ⟨register, hbyte, rfl⟩ := h
      obtain rfl := eq_rax_of_part (.inr hbyte)
      have hne : WordRegister.rsp ≠ .rax := by decide
      exact .none rfl (State.registers_setRegister_of_ne hne _ _) rfl
    case extendZero =>
      obtain ⟨register, -, hwrite⟩ := h
      obtain ⟨hrsp, hmemory⟩ := same_of_write? hwrite
      exact .none rfl hrsp hmemory
    case clear =>
      obtain ⟨register, hhalf, rfl⟩ := h
      obtain rfl := eq_rax_of_part (.inl hhalf)
      have hne : WordRegister.rsp ≠ .rax := by decide
      exact .none rfl (State.registers_setRegister_of_ne hne state 0) rfl
    case jumpIfEqual =>
      split at h
      · contradiction
      · obtain rfl := Outcome.next.inj h
        exact .none rfl rfl rfl

/-- A line that the next one follows lowers the stack by what it puts on it. -/
theorem rsp_of_next (h : state.executeLine host line = .next after) :
    after.registers .rsp = state.registers .rsp - BitVec.ofInt 64 line.pushes := by
  cases effect_of_next h with
  | none hpushes hrsp hmemory =>
    rw [hpushes, hrsp]
    exact (BitVec.sub_zero _).symm
  | push source value => exact rsp_pushWord state value
  | pop hrsp hmemory =>
    rw [hrsp]
    exact (BitVec.sub_neg ..).symm
  | store haddress value => exact (BitVec.sub_zero _).symm

/-- A line that the next one follows leaves the stack from `rsp` on as it was, if the words of
symbols are apart from the stack and what is stored into an array is, too. -/
theorem keeps_of_next {stack : Stack} (hdata : ∀ symbol, stack.IsApart (host.address symbol))
    (hselected : line.IsSelected)
    (hstore : line = .instruction (.mov (.register .rax) (.indirect .rcx)) →
      stack.IsApart (state.registers .rcx))
    (h : state.executeLine host line = .next after) :
    stack.Keeps (state.registers .rsp) state.memory after.memory := by
  cases effect_of_next h with
  | none hpushes hrsp hmemory | pop hrsp hmemory => exact fun place _ _ => by rw [hmemory]
  | push source value => exact Stack.keeps_setWord_below
  | store haddress value =>
    refine Stack.keeps_setWord_of_apart ?_
    cases hselected _ rfl with
    | load | constant | fromElement => contradiction
    | store symbol =>
      obtain rfl := Option.some.inj haddress
      exact hdata symbol
    | intoElement =>
      obtain rfl := Option.some.inj haddress
      exact hstore rfl

/-- A line that the next one follows leaves an address of a symbol in `rsi` if it sees to it, given
whether there is one already. -/
theorem rsi_of_next {aimed : Bool} (haims : line.aims aimed = true)
    (h : state.executeLine host line = .next after) :
    (∃ symbol, after.registers .rsi = host.address symbol) ∨
      aimed = true ∧ after.registers .rsi = state.registers .rsi := by
  unfold Line.aims at haims
  split at haims
  · next symbol =>
    obtain rfl := Outcome.next.inj h
    exact .inl ⟨symbol, State.registers_setRegister ..⟩
  · simp only [State.executeLine, State.execute, Outcome.ofOption_eq_next_iff, bind, pure,
      Option.bind_eq_some_iff, Option.some.injEq] at h
    obtain ⟨register, hhalf, rfl⟩ := h
    obtain rfl := eq_rax_of_part (.inl hhalf)
    have hne : WordRegister.rsi ≠ .rax := by decide
    exact .inr ⟨haims, State.registers_setRegister_of_ne hne state 0⟩
  · simp only [State.executeLine, State.execute, Outcome.ofOption_eq_next_iff, bind, pure,
      Option.bind_eq_some_iff, Option.some.injEq] at h
    obtain ⟨value, -, rfl⟩ := h
    have hrsi := State.registers_setRegister_of_ne (by decide : WordRegister.rsi ≠ .rsp) state
      (state.registers .rsp - 8)
    exact .inr ⟨haims, hrsi⟩
  · contradiction

end Outcomes
end Processor

end ThreeAddress
