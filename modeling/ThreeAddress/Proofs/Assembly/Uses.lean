import ThreeAddress.Proofs.Assembly.Kept
import ThreeAddress.Proofs.Assembly.Symbols

/-!
# The symbols that assembly uses

The lines of an operation use the symbols of its places, of the array, the label or the function
that it names, and of the formats; besides there are the two library functions. So every symbol
that is used stands for something that the code names.
-/

namespace ThreeAddress

namespace Assembly

/-- The symbols that occur in the operands of an instruction, or as what it jumps to or calls. One
that is given by its text may use any. -/
def Instruction.Uses : Instruction → String → Prop
  | .mov source destination, symbol => source = .memory symbol ∨ destination = .memory symbol
  | .lea source _, symbol => source = .memory symbol
  | .compare source _, symbol => source = .memory symbol
  | .call target, symbol => target = symbol
  | .jump target, symbol => target = symbol
  | .jumpIfEqual target, symbol => target = symbol
  | .verbatim _, _ => True
  | _, _ => False

/-- The symbols that a line uses are those of its instruction. -/
def Line.Uses : Line → String → Prop
  | .instruction content, symbol => content.Uses symbol
  | _, _ => False

end Assembly

/-- What the symbol of a place stands for; a constant has none. -/
def Storage.referents : Storage → List Referent
  | .variable name => [.variable name]
  | .parameter function name => [.parameter function name]
  | .temporary id | .string id => [.number id]
  | .constant _ => []

/-- What an operation names. -/
def Operation.referents : Operation → List Referent
  | .nop | .enter _ | .leave => []
  | .jump target => [.mark target]
  | .jumpIfFalse condition target => .mark target :: condition.referents
  | .copy destination source => destination.referents ++ source.referents
  | .copyIntoArray array index source => .variable array :: (index.referents ++ source.referents)
  | .copyFromArray destination array index =>
    .variable array :: (destination.referents ++ index.referents)
  | .call function destination => .entry function :: destination.referents
  | .input type destination => .format type :: destination.referents
  | .print source => .printFormat :: source.referents
  | .ret source => source.referents
  | .binary _ destination lhs rhs => destination.referents ++ (lhs.referents ++ rhs.referents)

namespace Assembly

/-- A line uses no symbols but those of some things and those of the library. -/
def Line.UsesOnly (line : Line) (referents : List Referent) : Prop :=
  ∀ symbol, line.Uses symbol →
    symbol = Symbol.printer ∨ symbol = Symbol.reader ∨
      ∃ referent ∈ referents, referent.symbol = symbol

section Uses

variable {line : Line} {lines : List Line} {referents : List Referent} {place : Storage}

/-- Most lines use no symbols. -/
theorem usesOnly_of_not_uses (h : ∀ symbol, ¬ line.Uses symbol) : line.UsesOnly referents :=
  fun symbol huses => absurd huses (h symbol)

/-- What a line uses is among more things as well. -/
theorem Line.UsesOnly.mono {more : List Referent} (h : line.UsesOnly referents)
    (hsub : referents ⊆ more) : line.UsesOnly more := by
  intro symbol huses
  refine (h symbol huses).imp_right (Or.imp_right ?_)
  rintro ⟨referent, hmem, rfl⟩
  exact ⟨referent, hsub hmem, rfl⟩

/-- Taking the address of something uses its symbol. -/
theorem usesOnly_lea (referent : Referent) (register : Register) :
    (Line.instruction (.lea (.memory referent.symbol) register)).UsesOnly (referent :: referents) :=
  fun _ huses => .inr (.inr ⟨referent, List.mem_cons_self, Operand.memory.inj huses⟩)

/-- Moving the word of something into a register uses its symbol. -/
theorem usesOnly_mov_from (referent : Referent) (register : Register) :
    (Line.instruction (.mov (.memory referent.symbol) (.register register))).UsesOnly
      (referent :: referents) := by
  rintro symbol (huses | huses)
  · exact .inr (.inr ⟨referent, List.mem_cons_self, Operand.memory.inj huses⟩)
  · contradiction

/-- Moving a register into the word of something uses its symbol. -/
theorem usesOnly_mov_to (referent : Referent) (register : Register) :
    (Line.instruction (.mov (.register register) (.memory referent.symbol))).UsesOnly
      (referent :: referents) := by
  rintro symbol (huses | huses)
  · contradiction
  · exact .inr (.inr ⟨referent, List.mem_cons_self, Operand.memory.inj huses⟩)

/-- Loading uses the symbol of the place. -/
theorem usesOnly_load (register : Register) (place : Storage) :
    (load register place).UsesOnly place.referents := by
  cases place with
  | constant value =>
    rintro symbol (huses | huses) <;> contradiction
  | string id => exact usesOnly_lea (.number id) register
  | temporary id => exact usesOnly_mov_from (.number id) register
  | «variable» name => exact usesOnly_mov_from (.variable name) register
  | parameter function name => exact usesOnly_mov_from (.parameter function name) register

/-- Storing uses the symbol of the place. -/
theorem usesOnly_of_store (h : store place = .ok line) : line.UsesOnly place.referents := by
  cases place with
  | constant value | string id => contradiction
  | temporary id =>
    obtain rfl := Except.ok.inj h
    exact usesOnly_mov_to (.number id) .rax
  | «variable» name =>
    obtain rfl := Except.ok.inj h
    exact usesOnly_mov_to (.variable name) .rax
  | parameter function name =>
    obtain rfl := Except.ok.inj h
    exact usesOnly_mov_to (.parameter function name) .rax

/-- The address of the word of a place uses the symbol of the place. -/
theorem usesOnly_of_wordOf {word : Operand} (h : wordOf place = .ok word) (register : Register) :
    (Line.instruction (.lea word register)).UsesOnly place.referents := by
  cases place with
  | constant value => contradiction
  | string id | temporary id =>
    obtain rfl := Except.ok.inj h
    exact usesOnly_lea (.number id) register
  | «variable» name =>
    obtain rfl := Except.ok.inj h
    exact usesOnly_lea (.variable name) register
  | parameter function name =>
    obtain rfl := Except.ok.inj h
    exact usesOnly_lea (.parameter function name) register

/-- Combining words uses no symbols. -/
theorem usesOnly_of_combine {op : BinaryOp} : ∀ line ∈ combine op, line.UsesOnly referents := by
  intro line hline
  refine usesOnly_of_not_uses fun symbol => ?_
  revert line
  cases op <;> simp [combine, comparison, Line.Uses, Instruction.Uses]

/-- A call of the library uses the symbol of the library. -/
theorem usesOnly_of_libraryCall {function : String}
    (h : function = Symbol.printer ∨ function = Symbol.reader) :
    ∀ line ∈ libraryCall function, line.UsesOnly referents := by
  simp only [libraryCall, callLines, List.append_nil, List.cons_append, List.nil_append,
    List.forall_mem_cons, List.not_mem_nil, false_imp_iff, implies_true, and_true]
  refine ⟨usesOnly_of_not_uses fun _ => not_false, usesOnly_of_not_uses fun _ => not_false, ?_,
    usesOnly_of_not_uses fun _ => not_false⟩
  rintro symbol rfl
  exact h.imp_right .inl

/-- The lines of an operation use the symbols of what it names. -/
theorem usesOnly_of_operationLines {operation : Operation}
    (h : operationLines operation = .ok lines) :
    ∀ line ∈ lines, line.UsesOnly operation.referents := by
  have hnone : ∀ {line : Line} {referents : List Referent}, (∀ symbol, ¬ line.Uses symbol) →
      line.UsesOnly referents := usesOnly_of_not_uses
  cases operation with
  | nop =>
    obtain rfl := Except.ok.inj h
    exact fun _ hmem => absurd hmem List.not_mem_nil
  | enter function | leave =>
    obtain rfl := Except.ok.inj h
    exact List.forall_mem_singleton.mpr (hnone fun _ => not_false)
  | jump target =>
    obtain rfl := Except.ok.inj h
    refine List.forall_mem_singleton.mpr fun symbol huses => ?_
    exact .inr (.inr ⟨.mark target, List.mem_cons_self, huses⟩)
  | jumpIfFalse condition target =>
    obtain rfl := Except.ok.inj h
    simp only [List.forall_mem_cons, List.not_mem_nil, false_imp_iff, implies_true, and_true]
    refine ⟨(usesOnly_load _ _).mono (List.subset_cons_self _ _), hnone ?_, fun symbol huses => ?_⟩
    · simp [Line.Uses, Instruction.Uses]
    · exact .inr (.inr ⟨.mark target, List.mem_cons_self, huses⟩)
  | copy destination source =>
    obtain ⟨stored, hstore, h⟩ := exists_of_bind_eq_ok h
    obtain rfl := Except.ok.inj h
    simp only [List.forall_mem_cons, List.not_mem_nil, false_imp_iff, implies_true, and_true]
    exact ⟨(usesOnly_load _ _).mono (List.subset_append_right _ _),
      (usesOnly_of_store hstore).mono (List.subset_append_left _ _)⟩
  | copyIntoArray array index source =>
    obtain rfl := Except.ok.inj h
    simp only [List.forall_mem_cons, List.not_mem_nil, false_imp_iff, implies_true, and_true]
    refine ⟨(usesOnly_load _ _).mono ?_, usesOnly_lea (.variable array) .rax, hnone ?_,
      (usesOnly_load _ _).mono ?_, hnone ?_⟩
    · exact List.subset_cons_of_subset _ (List.subset_append_left _ _)
    · simp [Line.Uses, Instruction.Uses]
    · exact List.subset_cons_of_subset _ (List.subset_append_right _ _)
    · simp [Line.Uses, Instruction.Uses]
  | copyFromArray destination array index =>
    obtain ⟨stored, hstore, h⟩ := exists_of_bind_eq_ok h
    obtain rfl := Except.ok.inj h
    simp only [List.forall_mem_cons, List.not_mem_nil, false_imp_iff, implies_true, and_true]
    refine ⟨(usesOnly_load _ _).mono ?_, usesOnly_lea (.variable array) .rax, hnone ?_,
      (usesOnly_of_store hstore).mono ?_⟩
    · exact List.subset_cons_of_subset _ (List.subset_append_right _ _)
    · simp [Line.Uses, Instruction.Uses]
    · exact List.subset_cons_of_subset _ (List.subset_append_left _ _)
  | call function destination =>
    obtain ⟨stored, hstore, h⟩ := exists_of_bind_eq_ok h
    obtain rfl := Except.ok.inj h
    simp only [callLines, List.cons_append, List.nil_append, List.forall_mem_cons,
      List.not_mem_nil, false_imp_iff, implies_true, and_true]
    refine ⟨hnone fun _ => not_false, fun symbol huses => ?_,
      (usesOnly_of_store hstore).mono (List.subset_cons_self _ _), hnone fun _ => not_false⟩
    exact .inr (.inr ⟨.entry function, List.mem_cons_self, huses⟩)
  | input type destination =>
    obtain ⟨word, hword, h⟩ := exists_of_bind_eq_ok h
    obtain rfl := Except.ok.inj h
    simp only [List.cons_append, List.nil_append, List.forall_mem_cons]
    exact ⟨usesOnly_lea (.format type) .rdi,
      (usesOnly_of_wordOf hword .rsi).mono (List.subset_cons_self _ _),
      usesOnly_of_libraryCall (.inr rfl)⟩
  | print source =>
    obtain rfl := Except.ok.inj h
    simp only [List.cons_append, List.nil_append, List.forall_mem_cons]
    exact ⟨usesOnly_lea .printFormat .rdi, (usesOnly_load _ _).mono (List.subset_cons_self _ _),
      usesOnly_of_libraryCall (.inl rfl)⟩
  | ret source =>
    obtain rfl := Except.ok.inj h
    simp only [List.forall_mem_cons, List.not_mem_nil, false_imp_iff, implies_true, and_true]
    exact ⟨usesOnly_load _ _, hnone fun _ => not_false⟩
  | binary op destination lhs rhs =>
    obtain ⟨stored, hstore, h⟩ := exists_of_bind_eq_ok h
    obtain rfl := Except.ok.inj h
    simp only [List.cons_append, List.nil_append, List.forall_mem_cons, List.forall_mem_append,
      List.not_mem_nil, false_imp_iff, implies_true, and_true]
    refine ⟨(usesOnly_load _ _).mono ?_, (usesOnly_load _ _).mono ?_, usesOnly_of_combine,
      (usesOnly_of_store hstore).mono (List.subset_append_left _ _)⟩
    · exact List.subset_append_of_subset_right _ (List.subset_append_left _ _)
    · exact List.subset_append_of_subset_right _ (List.subset_append_right _ _)

/-- The lines of some code use the symbols of what its operations name. -/
theorem exists_referent_of_codeLines {options : Options} {code : Code}
    (h : codeLines options code = .ok lines) (hline : line ∈ lines) {symbol : String}
    (huses : line.Uses symbol) :
    symbol = Symbol.printer ∨ symbol = Symbol.reader ∨
      ∃ instruction ∈ code, ∃ referent ∈ instruction.operation.referents,
        referent.symbol = symbol := by
  obtain ⟨instruction, hmem, hcases⟩ := mem_codeLines_cases h hline
  rcases hcases with hlabel | hcomment | ⟨expanded, hexpanded, hmem'⟩
  · cases hlabel? : instruction.label? with
    | none =>
      rw [hlabel?] at hlabel
      exact absurd hlabel List.not_mem_nil
    | some label =>
      rw [hlabel?] at hlabel
      obtain rfl := List.mem_singleton.mp hlabel
      contradiction
  · rw [eq_of_annotates hcomment] at huses
    contradiction
  · refine (usesOnly_of_operationLines hexpanded line hmem' symbol huses).imp_right
      (Or.imp_right ?_)
    rintro ⟨referent, hreferent, heq⟩
    exact ⟨instruction, hmem, referent, hreferent, heq⟩

end Uses

end Assembly

end ThreeAddress
