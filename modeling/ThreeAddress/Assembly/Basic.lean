/-!
# Assembly lines

The part of x86-64 assembly that is written here: instructions between registers, memory and
constants, labels and comments, in the notation that puts the source before the destination.
Memory is addressed by symbol, through an element's index, or through a register.
-/

namespace ThreeAddress

namespace Assembly

/-- The registers in use; `eax` and `al` are the low parts of `rax`. -/
inductive Register where
  | rax
  | rcx
  | rsi
  | rdi
  | rbp
  | eax
  | al
  deriving DecidableEq

/-- The name of a register. -/
def Register.text : Register → String
  | .rax => "%rax"
  | .rcx => "%rcx"
  | .rsi => "%rsi"
  | .rdi => "%rdi"
  | .rbp => "%rbp"
  | .eax => "%eax"
  | .al => "%al"

/-- What a move reads or writes. -/
inductive Operand where
  | register (name : Register)
  | immediate (value : Int64)
  /-- The word at a symbol. -/
  | memory (symbol : String)
  /-- The word at `base + 8 * index`. -/
  | indexed (base index : Register)
  /-- The word at the address in a register. -/
  | indirect (base : Register)
  deriving DecidableEq

/-- The text of an operand; a symbol is addressed relative to the instruction. -/
def Operand.text : Operand → String
  | .register name => name.text
  | .immediate value => "$" ++ toString value
  | .memory symbol => symbol ++ "(%rip)"
  | .indexed base index => "(" ++ base.text ++ "," ++ index.text ++ ",8)"
  | .indirect base => "(" ++ base.text ++ ")"

/-- Whether an operand is a constant that does not fit into thirty-two bits. -/
def Operand.isWide : Operand → Bool
  | .immediate value =>
    !decide (Int32.minValue.toInt ≤ value.toInt ∧ value.toInt ≤ Int32.maxValue.toInt)
  | _ => false

/-- The operations that combine two words into the second. -/
inductive WordOp where
  | add
  | sub
  | imul
  | and
  | or
  | xor
  deriving DecidableEq

/-- The mnemonic of an operation on words. -/
def WordOp.text : WordOp → String
  | .add => "addq"
  | .sub => "subq"
  | .imul => "imulq"
  | .and => "andq"
  | .or => "orq"
  | .xor => "xorq"

/-- The signed conditions that a comparison leaves behind. -/
inductive Condition where
  | less
  | greater
  | lessOrEqual
  | greaterOrEqual
  | equal
  | notEqual
  deriving DecidableEq

/-- The mnemonic that stores a condition. -/
def Condition.text : Condition → String
  | .less => "setl"
  | .greater => "setg"
  | .lessOrEqual => "setle"
  | .greaterOrEqual => "setge"
  | .equal => "sete"
  | .notEqual => "setne"

/-- A machine instruction. -/
inductive Instruction where
  | mov (source destination : Operand)
  /-- Loads the address of an operand. -/
  | lea (source : Operand) (destination : Register)
  | push (source : Register)
  | pop (destination : Register)
  | call (symbol : String)
  | ret
  | word (op : WordOp) (source destination : Register)
  /-- Extends the sign of `rax` into `rdx`. -/
  | extendSign
  /-- Divides `rdx` and `rax` by a register, leaving the quotient in `rax`. -/
  | divide (divisor : Register)
  /-- Compares the second operand with the first. -/
  | compare (source : Operand) (destination : Register)
  /-- Stores a condition as `0` or `1`. -/
  | set (condition : Condition) (destination : Register)
  /-- Widens a byte to a word. -/
  | extendZero (source destination : Register)
  /-- Clears a register of thirty-two bits. -/
  | clear (destination : Register)
  | jump (symbol : String)
  | jumpIfEqual (symbol : String)
  /-- An instruction given by its text. -/
  | verbatim (text : String)
  deriving DecidableEq

/-- The text of an instruction. -/
def Instruction.text : Instruction → String
  | .mov source destination =>
    (if source.isWide then "movabsq " else "movq ") ++ source.text ++ ", " ++ destination.text
  | .lea source destination => "leaq " ++ source.text ++ ", " ++ destination.text
  | .push source => "pushq " ++ source.text
  | .pop destination => "popq " ++ destination.text
  | .call symbol => "call " ++ symbol
  | .ret => "ret"
  | .word op source destination => op.text ++ " " ++ source.text ++ ", " ++ destination.text
  | .extendSign => "cqto"
  | .divide divisor => "idivq " ++ divisor.text
  | .compare source destination => "cmpq " ++ source.text ++ ", " ++ destination.text
  | .set condition destination => condition.text ++ " " ++ destination.text
  | .extendZero source destination => "movzbq " ++ source.text ++ ", " ++ destination.text
  | .clear destination => "xorl " ++ destination.text ++ ", " ++ destination.text
  | .jump symbol => "jmp " ++ symbol
  | .jumpIfEqual symbol => "je " ++ symbol
  | .verbatim text => text

/-- A line of assembly text. -/
inductive Line where
  | instruction (content : Instruction)
  | label (name : String)
  | comment (text : String)
  deriving DecidableEq

/-- The text of a line, with its line end. -/
def Line.text : Line → String
  | .instruction content => "    " ++ content.text ++ "\n"
  | .label name => name ++ ":\n"
  | .comment text => "    # " ++ text ++ "\n"

/-- The text of a sequence of lines. -/
def linesText (lines : List Line) : String :=
  String.join (lines.map Line.text)

end Assembly

end ThreeAddress
