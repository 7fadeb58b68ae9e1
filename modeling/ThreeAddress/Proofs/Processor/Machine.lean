import ThreeAddress.Assembly.Basic
import ThreeAddress.Proofs.Processor.Memory
import Mathlib.Logic.Function.Basic

/-!
# Running assembly lines

A processor executes lines one after the other. It has registers, status flags and a memory in
which every symbol has an address. A comment and a label do nothing; an instruction without a
meaning, such as a division whose quotient is no word, is a fault and ends the run, and so does a
return. What is called is not looked into: it may change registers, flags and memory in any way,
and may never come back.
-/

namespace ThreeAddress

namespace Processor

open Assembly

/-- The registers that hold a word. -/
inductive WordRegister where
  | rax
  | rcx
  | rdx
  | rsi
  | rdi
  | rbp
  | rsp
  deriving DecidableEq

/-- The status flags. -/
structure Flags where
  carry : Bool
  parity : Bool
  adjust : Bool
  zero : Bool
  sign : Bool
  overflow : Bool

/-- What a processor holds. -/
structure State where
  /-- The registers. -/
  registers : WordRegister → Word
  /-- The status flags. -/
  flags : Flags
  /-- The memory. -/
  memory : Memory

/-- What lines alone do not determine. -/
structure Host where
  /-- The address of a symbol. -/
  address : String → Word
  /-- The flags after an instruction that leaves some of them undefined. -/
  undefined : Instruction → State → Flags
  /-- The states in which a call can come back. -/
  returns : String → State → State → Prop

/-- What executing a line comes to. -/
inductive Outcome where
  /-- The next line follows. -/
  | next (state : State)
  /-- The line of a label follows. -/
  | jump (symbol : String) (state : State)
  /-- Something is called, and the next line follows when it comes back. -/
  | call (symbol : String) (state : State)
  /-- The function returns. -/
  | ret (state : State)
  /-- The line can not be executed. -/
  | fault

/-- What comes of a state that may be missing. -/
def Outcome.ofOption : Option State → Outcome
  | some state => .next state
  | none => .fault

namespace Flags

/-- The flags of a result, given those that depend on how it came about. -/
def ofResult (result : Word) (carry adjust overflow : Bool) : Flags where
  carry := carry
  parity := decide ((List.range 8).countP result.getLsbD % 2 = 0)
  adjust := adjust
  zero := decide (result = 0)
  sign := result.msb
  overflow := overflow

/-- The flags of a sum. -/
def sum (left right : Word) : Flags :=
  ofResult (left + right) (left.uaddOverflow right)
    ((left ^^^ right ^^^ (left + right)).getLsbD 4) (left.saddOverflow right)

/-- The flags of a difference. -/
def difference (left right : Word) : Flags :=
  ofResult (left - right) (left.usubOverflow right)
    ((left ^^^ right ^^^ (left - right)).getLsbD 4) (left.ssubOverflow right)

/-- The flags of a result that was combined bit by bit. -/
def bitwise (result : Word) (undefined : Flags) : Flags :=
  ofResult result false undefined.adjust false

/-- The flags of a product. -/
def product (left right : Word) (undefined : Flags) : Flags :=
  { undefined with
    carry := left.smulOverflow right
    overflow := left.smulOverflow right }

end Flags

/-- The word that an operation makes of its destination and its source. -/
def resultOf : WordOp → Word → Word → Word
  | .add, left, right => left + right
  | .sub, left, right => left - right
  | .imul, left, right => left * right
  | .and, left, right => left &&& right
  | .or, left, right => left ||| right
  | .xor, left, right => left ^^^ right

/-- The flags that an operation leaves behind. -/
def flagsOf (undefined : Flags) : WordOp → Word → Word → Flags
  | .add, left, right => .sum left right
  | .sub, left, right => .difference left right
  | .imul, left, right => .product left right undefined
  | .and, left, right => .bitwise (left &&& right) undefined
  | .or, left, right => .bitwise (left ||| right) undefined
  | .xor, left, right => .bitwise (left ^^^ right) undefined

/-- Whether a condition holds. -/
def holds (flags : Flags) : Condition → Bool
  | .less => flags.sign != flags.overflow
  | .greater => !flags.zero && flags.sign == flags.overflow
  | .lessOrEqual => flags.zero || flags.sign != flags.overflow
  | .greaterOrEqual => flags.sign == flags.overflow
  | .equal => flags.zero
  | .notEqual => !flags.zero

/-- The quotient and the remainder of a double word, truncated towards zero; none if the quotient
is no word. -/
def divided? (high low divisor : Word) : Option (Word × Word) :=
  let dividend := (high ++ low).toInt
  let quotient := dividend.tdiv divisor.toInt
  if divisor = 0 ∨ quotient < -2 ^ 63 ∨ 2 ^ 63 ≤ quotient then none
  else some (.ofInt 64 quotient, .ofInt 64 (dividend.tmod divisor.toInt))

/-- The register of a word that a name means. -/
def word? : Register → Option WordRegister
  | .rax => some .rax
  | .rcx => some .rcx
  | .rsi => some .rsi
  | .rdi => some .rdi
  | .rbp => some .rbp
  | .eax | .al => none

/-- The register whose low half a name means. -/
def half? : Register → Option WordRegister
  | .eax => some .rax
  | _ => none

/-- The register whose lowest byte a name means. -/
def byte? : Register → Option WordRegister
  | .al => some .rax
  | _ => none

/-- Whether an operand is in memory. -/
def isMemory : Operand → Bool
  | .register _ | .immediate _ => false
  | .memory _ | .indexed .. | .indirect _ => true

/-- Whether a move exists: one to memory takes a register or a constant of thirty-two bits. -/
def isMove (source destination : Operand) : Bool :=
  !(isMemory destination && (isMemory source || source.isWide))

namespace State

/-- The state after a register is written. -/
def setRegister (state : State) (register : WordRegister) (value : Word) : State :=
  { state with registers := Function.update state.registers register value }

/-- The state after a word in memory is written. -/
def setWord (state : State) (address value : Word) : State :=
  { state with memory := state.memory.setWord address value }

variable (host : Host) (state : State)

/-- The address of an operand in memory. -/
def address? : Operand → Option Word
  | .memory symbol => some (host.address symbol)
  | .indexed base index => do
    return state.registers (← word? base) + 8 * state.registers (← word? index)
  | .indirect base => (word? base).map state.registers
  | .register _ | .immediate _ => none

/-- The value of an operand. -/
def read? : Operand → Option Word
  | .register name => (word? name).map state.registers
  | .immediate value => some value.toBitVec
  | operand => (state.address? host operand).map state.memory.word

/-- The state after an operand is written. -/
def write? (value : Word) : Operand → Option State
  | .register name => (word? name).map fun register => state.setRegister register value
  | .immediate _ => none
  | operand => (state.address? host operand).map fun address => state.setWord address value

/-- Executes an instruction. -/
def execute (instruction : Instruction) : Outcome :=
  match instruction with
  | .mov source destination => .ofOption do
    guard (isMove source destination)
    let value ← state.read? host source
    state.write? host value destination
  | .lea source destination => .ofOption do
    let address ← state.address? host source
    state.write? host address (.register destination)
  | .push source => .ofOption do
    let value ← state.read? host (.register source)
    let top := state.registers .rsp - 8
    return (state.setRegister .rsp top).setWord top value
  | .pop destination => .ofOption do
    let top := state.registers .rsp
    (state.setRegister .rsp (top + 8)).write? host (state.memory.word top) (.register destination)
  | .call symbol => .call symbol state
  | .ret => .ret (state.setRegister .rsp (state.registers .rsp + 8))
  | .word op source destination => .ofOption do
    let left ← state.read? host (.register destination)
    let right ← state.read? host (.register source)
    let after ← state.write? host (resultOf op left right) (.register destination)
    return { after with flags := flagsOf (host.undefined instruction state) op left right }
  | .extendSign =>
    .next (state.setRegister .rdx (if (state.registers .rax).msb then BitVec.allOnes 64 else 0))
  | .divide divisor => .ofOption do
    let divisor ← state.read? host (.register divisor)
    let (quotient, remainder) ←
      divided? (state.registers .rdx) (state.registers .rax) divisor
    let after := (state.setRegister .rax quotient).setRegister .rdx remainder
    return { after with flags := host.undefined instruction state }
  | .compare source destination => .ofOption do
    guard (!source.isWide)
    let left ← state.read? host (.register destination)
    let right ← state.read? host source
    return { state with flags := .difference left right }
  | .set condition destination => .ofOption do
    let register ← byte? destination
    let high := (state.registers register).extractLsb' 8 56
    let low := (BitVec.ofBool (holds state.flags condition)).zeroExtend 8
    return state.setRegister register (high ++ low)
  | .extendZero source destination => .ofOption do
    let register ← byte? source
    let low := (state.registers register).setWidth 8
    state.write? host (low.zeroExtend 64) (.register destination)
  | .clear destination => .ofOption do
    let register ← half? destination
    return { state.setRegister register 0 with
      flags := .bitwise 0 (host.undefined instruction state) }
  | .jump symbol => .jump symbol state
  | .jumpIfEqual symbol => if state.flags.zero then .jump symbol state else .next state
  | .verbatim _ => .fault

/-- Executes a line. -/
def executeLine : Line → Outcome
  | .instruction content => state.execute host content
  | .label _ | .comment _ => .next state

end State

/-- The position of a label among lines. -/
def position? (lines : List Line) (symbol : String) : Option Nat :=
  lines.findIdx? fun line => decide (line = .label symbol)

/-- A processor between two lines. -/
structure Config where
  /-- The position of the next line. -/
  position : Nat
  /-- What the processor holds. -/
  state : State

/-- The processor executes a line and goes on. -/
inductive Step (host : Host) (lines : List Line) : Config → Config → Prop
  | next {position : Nat} {line : Line} {state after : State}
      (hline : lines[position]? = some line)
      (houtcome : state.executeLine host line = .next after) :
      Step host lines ⟨position, state⟩ ⟨position + 1, after⟩
  | jump {position target : Nat} {line : Line} {symbol : String} {state after : State}
      (hline : lines[position]? = some line)
      (houtcome : state.executeLine host line = .jump symbol after)
      (htarget : position? lines symbol = some target) :
      Step host lines ⟨position, state⟩ ⟨target, after⟩
  | call {position : Nat} {line : Line} {symbol : String} {state before after : State}
      (hline : lines[position]? = some line)
      (houtcome : state.executeLine host line = .call symbol before)
      (hreturns : host.returns symbol before after) :
      Step host lines ⟨position, state⟩ ⟨position + 1, after⟩

/-- The processor goes from one configuration to another and passes some on the way, the first
one included. -/
inductive Runs (host : Host) (lines : List Line) : Config → List Config → Config → Prop
  | here (config : Config) : Runs host lines config [] config
  | step {config next last : Config} {passed : List Config} (hstep : Step host lines config next)
      (hrest : Runs host lines next passed last) :
      Runs host lines config (config :: passed) last

end Processor

end ThreeAddress
