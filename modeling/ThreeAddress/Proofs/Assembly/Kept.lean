import ThreeAddress.Assembly.Unit
import Mathlib.Data.List.Basic

/-!
# The moves that are left out

Among the moves that are selected for three-address code there are few that another one could
undo: only those between `rax` and the word of a symbol go both ways. So a move that is left out is
one of these, and the line before it, but for comments, is its reverse.

The lines that are kept are numbered anew. A label is always kept, and it is found where it was,
in the new numbers.
-/

namespace ThreeAddress

namespace Assembly

/-- The moves that are selected. -/
inductive Selected : Move → Prop
  | load (symbol : String) (register : Register) :
      Selected ⟨.memory symbol, .register register⟩
  | constant (value : Int64) (register : Register) :
      Selected ⟨.immediate value, .register register⟩
  | store (symbol : String) : Selected ⟨.register .rax, .memory symbol⟩
  | fromElement : Selected ⟨.indexed .rax .rcx, .register .rax⟩
  | intoElement : Selected ⟨.register .rax, .indirect .rcx⟩

/-- A move between `rax` and the word of a symbol. -/
def Move.IsPlain (move : Move) (symbol : String) : Prop :=
  move = ⟨.memory symbol, .register .rax⟩ ∨ move = ⟨.register .rax, .memory symbol⟩

/-- The reverse of such a move is one too. -/
theorem Move.IsPlain.reverse {move : Move} {symbol : String} (h : move.IsPlain symbol) :
    move.reverse.IsPlain symbol := by
  rcases h with rfl | rfl
  · exact .inr rfl
  · exact .inl rfl

/-- Only moves between `rax` and the word of a symbol are selected in both directions. -/
theorem Selected.isPlain {move : Move} (h : Selected move) (hreverse : Selected move.reverse) :
    ∃ symbol, move.IsPlain symbol := by
  cases h with
  | load symbol register =>
    cases hreverse with
    | store => exact ⟨symbol, .inl rfl⟩
  | constant value register => cases hreverse
  | store symbol => exact ⟨symbol, .inr rfl⟩
  | fromElement => cases hreverse
  | intoElement => cases hreverse

/-- A line that is a selected move, if it is a move at all. -/
def Line.IsSelected (line : Line) : Prop := ∀ move, line.move? = some move → Selected move

/-- A line that is no move is no wrong one. -/
theorem Line.isSelected_of_move?_eq_none {line : Line} (h : line.move? = none) :
    line.IsSelected := by
  intro move hmove
  rw [h] at hmove
  contradiction

/-- Loading is a selected move, or none. -/
theorem isSelected_load (register : Register) (place : Storage) :
    (load register place).IsSelected := by
  intro move h
  cases place with
  | constant value =>
    obtain rfl := Option.some.inj h
    exact .constant _ _
  | string id => contradiction
  | temporary | «variable» | parameter =>
    obtain rfl := Option.some.inj h
    exact .load _ _

/-- Storing is a selected move. -/
theorem isSelected_of_store {place : Storage} {line : Line} (h : store place = .ok line) :
    line.IsSelected := by
  cases place with
  | constant value | string id => contradiction
  | temporary | «variable» | parameter =>
    obtain rfl := Except.ok.inj h
    intro move hmove
    obtain rfl := Option.some.inj hmove
    exact .store _

/-- A sequence without a fault goes through its first step. -/
theorem exists_of_bind_eq_ok {first : Except Fault α} {second : α → Except Fault β} {value : β}
    (h : first >>= second = .ok value) :
    ∃ middle, first = .ok middle ∧ second middle = .ok value := by
  cases first with
  | error fault => contradiction
  | ok middle => exact ⟨middle, rfl, h⟩

/-- Combining words moves nothing. -/
theorem isSelected_of_combine {op : BinaryOp} : ∀ line ∈ combine op, line.IsSelected := by
  intro line hline
  apply Line.isSelected_of_move?_eq_none
  revert line
  cases op <;> simp [combine, comparison, Line.move?]

/-- All moves of an operation are selected ones. -/
theorem isSelected_of_operationLines {operation : Operation} {lines : List Line}
    (h : operationLines operation = .ok lines) : ∀ line ∈ lines, line.IsSelected := by
  have hother : ∀ {line : Line}, line.move? = none → line.IsSelected :=
    Line.isSelected_of_move?_eq_none
  have hlibrary : ∀ function, ∀ line ∈ libraryCall function, line.IsSelected := by
    intro function line hline
    simp only [libraryCall, callLines, List.append_nil, List.cons_append, List.nil_append,
      List.mem_cons, List.not_mem_nil, or_false] at hline
    rcases hline with rfl | rfl | rfl | rfl <;> exact hother rfl
  cases operation with
  | nop =>
    obtain rfl := Except.ok.inj h
    exact fun _ hmem => absurd hmem List.not_mem_nil
  | enter function | leave | jump target =>
    obtain rfl := Except.ok.inj h
    exact List.forall_mem_singleton.mpr (hother rfl)
  | jumpIfFalse condition target =>
    obtain rfl := Except.ok.inj h
    simp only [List.forall_mem_cons, List.not_mem_nil, false_imp_iff, implies_true,
      and_true]
    exact ⟨isSelected_load _ _, hother rfl, hother rfl⟩
  | copy destination source =>
    obtain ⟨stored, hstore, h⟩ := exists_of_bind_eq_ok h
    obtain rfl := Except.ok.inj h
    simp only [List.forall_mem_cons, List.not_mem_nil, false_imp_iff, implies_true,
      and_true]
    exact ⟨isSelected_load _ _, isSelected_of_store hstore⟩
  | copyIntoArray array index source =>
    obtain rfl := Except.ok.inj h
    simp only [List.forall_mem_cons, List.not_mem_nil, false_imp_iff, implies_true,
      and_true]
    refine ⟨isSelected_load _ _, hother rfl, hother rfl, isSelected_load _ _, ?_⟩
    intro move hmove
    obtain rfl := Option.some.inj hmove
    exact .intoElement
  | copyFromArray destination array index =>
    obtain ⟨stored, hstore, h⟩ := exists_of_bind_eq_ok h
    obtain rfl := Except.ok.inj h
    simp only [List.forall_mem_cons, List.not_mem_nil, false_imp_iff, implies_true,
      and_true]
    refine ⟨isSelected_load _ _, hother rfl, ?_, isSelected_of_store hstore⟩
    intro move hmove
    obtain rfl := Option.some.inj hmove
    exact .fromElement
  | call function destination =>
    obtain ⟨stored, hstore, h⟩ := exists_of_bind_eq_ok h
    obtain rfl := Except.ok.inj h
    simp only [callLines, List.cons_append, List.nil_append, List.forall_mem_cons,
      List.not_mem_nil, false_imp_iff, implies_true,
      and_true]
    exact ⟨hother rfl, hother rfl, isSelected_of_store hstore, hother rfl⟩
  | input type destination =>
    obtain ⟨word, -, h⟩ := exists_of_bind_eq_ok h
    obtain rfl := Except.ok.inj h
    simp only [List.cons_append, List.nil_append, List.forall_mem_cons]
    exact ⟨hother rfl, hother rfl, hlibrary _⟩
  | print source =>
    obtain rfl := Except.ok.inj h
    simp only [List.cons_append, List.nil_append, List.forall_mem_cons]
    exact ⟨hother rfl, isSelected_load _ _, hlibrary _⟩
  | ret source =>
    obtain rfl := Except.ok.inj h
    simp only [List.forall_mem_cons, List.not_mem_nil, false_imp_iff, implies_true,
      and_true]
    exact ⟨isSelected_load _ _, hother rfl⟩
  | binary op destination lhs rhs =>
    obtain ⟨stored, hstore, h⟩ := exists_of_bind_eq_ok h
    obtain rfl := Except.ok.inj h
    simp only [List.cons_append, List.nil_append, List.forall_mem_cons, List.forall_mem_append,
      List.not_mem_nil, false_imp_iff, implies_true,
      and_true]
    exact ⟨isSelected_load _ _, isSelected_load _ _, isSelected_of_combine,
      isSelected_of_store hstore⟩

/-- Whether a line is an instruction. -/
def Line.isInstruction : Line → Bool
  | .instruction _ => true
  | _ => false

/-- Instructions are instructions, whatever they are. -/
@[simp] theorem isInstruction_instruction (content : Instruction) :
    (Line.instruction content).isInstruction = true := rfl

/-- Loading is an instruction. -/
@[simp] theorem isInstruction_load (register : Register) (place : Storage) :
    (load register place).isInstruction = true := by
  cases place <;> rfl

/-- Storing is an instruction. -/
theorem isInstruction_of_store {place : Storage} {line : Line} (h : store place = .ok line) :
    line.isInstruction = true := by
  cases place with
  | constant value | string id => contradiction
  | temporary | «variable» | parameter =>
    obtain rfl := Except.ok.inj h
    rfl

/-- An operation is expanded to instructions, but for the entry of a function, which is a label. -/
theorem operationLines_cases {operation : Operation} {lines : List Line}
    (h : operationLines operation = .ok lines) :
    (∃ function, operation = .enter function ∧ lines = [.label (Symbol.ofFunction function)]) ∨
      (∀ function, operation ≠ .enter function) ∧ ∀ line ∈ lines, line.isInstruction = true := by
  cases operation with
  | enter function =>
    obtain rfl := Except.ok.inj h
    exact .inl ⟨function, rfl, rfl⟩
  | nop | leave | jump | jumpIfFalse | copyIntoArray | print | ret =>
    obtain rfl := Except.ok.inj h
    simp [loadArray, libraryCall, callLines]
  | copy | copyFromArray | call =>
    obtain ⟨stored, hstore, h⟩ := exists_of_bind_eq_ok h
    obtain rfl := Except.ok.inj h
    simp [isInstruction_of_store hstore, loadArray, callLines]
  | input =>
    obtain ⟨word, -, h⟩ := exists_of_bind_eq_ok h
    obtain rfl := Except.ok.inj h
    simp [libraryCall, callLines]
  | binary op =>
    obtain ⟨stored, hstore, h⟩ := exists_of_bind_eq_ok h
    obtain rfl := Except.ok.inj h
    have hcombine : ∀ line ∈ combine op, line.isInstruction = true := by
      cases op <;> simp [combine, comparison]
    simp +contextual [isInstruction_of_store hstore, or_imp, hcombine]

/-- The line of a label is no move. -/
theorem move?_eq_none_of_labelLines {label? : Option Label} {line : Line}
    (h : line ∈ labelLines label?) : line.move? = none := by
  cases label? with
  | none => exact absurd h List.not_mem_nil
  | some label =>
    obtain rfl := List.mem_singleton.mp h
    rfl

/-- What stands above the lines of an operation is its listing, as a comment. -/
theorem eq_of_annotates {options : Options} {operation : Operation} {line : Line}
    (h : line ∈ annotationLines options operation) :
    line = .comment (Terminal.withoutControls
      (Styled.render options.colour (Listing.operation operation))) := by
  unfold annotationLines at h
  split at h
  · exact absurd h List.not_mem_nil
  · split at h
    · exact List.mem_singleton.mp h
    · exact absurd h List.not_mem_nil

/-- A comment is no move. -/
theorem move?_eq_none_of_annotationLines {options : Options} {operation : Operation} {line : Line}
    (h : line ∈ annotationLines options operation) : line.move? = none := by
  rw [eq_of_annotates h]
  rfl

/-- A line of some code is a label, a comment or a line of one of its operations. -/
theorem mem_codeLines_cases {options : Options} {code : Code} {lines : List Line}
    (h : codeLines options code = .ok lines) {line : Line} (hline : line ∈ lines) :
    ∃ instruction ∈ code, line ∈ labelLines instruction.label? ∨
      line ∈ annotationLines options instruction.operation ∨
      ∃ expanded, operationLines instruction.operation = .ok expanded ∧ line ∈ expanded := by
  induction code generalizing lines with
  | nil =>
    obtain rfl := Except.ok.inj h
    exact absurd hline List.not_mem_nil
  | cons instruction rest ih =>
    obtain ⟨own, hown, h⟩ := exists_of_bind_eq_ok h
    obtain ⟨others, hothers, h⟩ := exists_of_bind_eq_ok h
    obtain rfl := Except.ok.inj h
    obtain ⟨expanded, hexpanded, hown⟩ := exists_of_bind_eq_ok hown
    obtain rfl := Except.ok.inj hown
    rcases List.mem_append.mp hline with hline | hline
    · refine ⟨instruction, List.mem_cons_self, ?_⟩
      rcases List.mem_append.mp hline with hline | hline
      · exact (List.mem_append.mp hline).imp_right .inl
      · exact .inr (.inr ⟨expanded, hexpanded, hline⟩)
    · obtain ⟨found, hfound, hcases⟩ := ih hothers hline
      exact ⟨found, List.mem_cons_of_mem _ hfound, hcases⟩

/-- All moves of some code are selected ones. -/
theorem isSelected_of_codeLines {options : Options} {code : Code} {lines : List Line}
    (h : codeLines options code = .ok lines) : ∀ line ∈ lines, line.IsSelected := by
  intro line hline
  obtain ⟨instruction, -, hlabel | hannotation | ⟨expanded, hexpanded, hmem⟩⟩ :=
    mem_codeLines_cases h hline
  · exact Line.isSelected_of_move?_eq_none (move?_eq_none_of_labelLines hlabel)
  · apply Line.isSelected_of_move?_eq_none
    exact move?_eq_none_of_annotationLines hannotation
  · exact isSelected_of_operationLines hexpanded line hmem

namespace Peephole

/-- Whether the line at a position is kept; behind the last line nothing is left out. -/
def keepsAt (lines : List Line) (position : Nat) : Bool :=
  match lines[position]? with
  | some line => keeps (afterLines none (lines.take position)) line
  | none => true

/-- The position, among the lines that are kept, of the line at a position or, if that is left
out, of the next one that is kept. -/
def place (lines : List Line) (position : Nat) : Nat := (kept none (lines.take position)).length

variable {lines : List Line} {position : Nat} {line : Line} {moved? : Option Move}

/-- Only lines of the code are kept. -/
theorem mem_of_mem_kept (h : line ∈ kept moved? lines) : line ∈ lines := by
  induction lines generalizing moved? with
  | nil => exact h
  | cons head rest ih =>
    rw [kept] at h
    split at h
    · rcases List.mem_cons.mp h with rfl | h
      · exact List.mem_cons_self
      · exact List.mem_cons_of_mem head (ih h)
    · exact List.mem_cons_of_mem head (ih h)

/-- The move that was made directly before is one of the lines. -/
theorem mem_of_afterLines {move : Move} (h : afterLines moved? lines = some move) :
    moved? = some move ∨ ∃ line ∈ lines, line.move? = some move := by
  induction lines generalizing moved? with
  | nil => exact .inl h
  | cons line rest ih =>
    rcases ih h with hafter | ⟨other, hmem, hmove⟩
    · cases line with
      | comment text => exact .inl hafter
      | label name => contradiction
      | instruction content => exact .inr ⟨_, List.mem_cons_self, hafter⟩
    · exact .inr ⟨other, List.mem_cons_of_mem line hmem, hmove⟩

/-- One line more decides which move was made directly before. -/
theorem afterLines_take_succ (h : lines[position]? = some line) :
    afterLines none (lines.take (position + 1)) =
      after (afterLines none (lines.take position)) line := by
  rw [List.take_add_one, h, afterLines, List.foldl_append]
  rfl

/-- The lines that are kept, up to a position and behind it. -/
theorem kept_take_succ (h : lines[position]? = some line) :
    kept none (lines.take (position + 1)) =
      kept none (lines.take position) ++ if keepsAt lines position then [line] else [] := by
  rw [List.take_add_one, h, kept_append, keepsAt, h]
  rfl

/-- A line that is kept takes a place. -/
theorem place_succ_of_keepsAt (hline : lines[position]? = some line)
    (hkeeps : keepsAt lines position = true) :
    place lines (position + 1) = place lines position + 1 := by
  rw [place, kept_take_succ hline, if_pos hkeeps, List.length_append]
  rfl

/-- A line that is left out takes no place. -/
theorem place_succ_of_not_keepsAt (hline : lines[position]? = some line)
    (hkeeps : keepsAt lines position = false) :
    place lines (position + 1) = place lines position := by
  rw [place, kept_take_succ hline, hkeeps, if_neg Bool.false_ne_true, List.append_nil, place]

/-- A line that is kept stands at its place. -/
theorem getElem?_place (hkeeps : keepsAt lines position = true) :
    (kept none lines)[place lines position]? = lines[position]? := by
  have hsplit : kept none lines = kept none (lines.take position) ++
      kept (afterLines none (lines.take position)) (lines.drop position) := by
    rw [← kept_append, List.take_append_drop]
  rw [hsplit, place, List.getElem?_append_right (Nat.le_refl _), Nat.sub_self]
  cases hline : lines[position]? with
  | none =>
    rw [List.getElem?_eq_none_iff] at hline
    rw [List.drop_eq_nil_of_le hline]
    rfl
  | some line =>
    obtain ⟨hlt, hget⟩ := List.getElem?_eq_some_iff.mp hline
    rw [keepsAt, hline] at hkeeps
    rw [List.drop_eq_getElem_cons hlt, hget, kept, if_pos hkeeps]
    rfl

/-- A line that is left out is a move, and its reverse was made directly before. -/
theorem exists_of_not_keepsAt (hkeeps : keepsAt lines position = false) :
    ∃ move : Move, lines[position]? = some (.instruction (.mov move.source move.destination)) ∧
      afterLines none (lines.take position) = some move.reverse := by
  unfold keepsAt at hkeeps
  split at hkeeps
  · next line hline =>
    unfold keeps at hkeeps
    split at hkeeps
    · next move hmove =>
      refine ⟨move, ?_, by simpa using hkeeps⟩
      rw [hline]
      cases line with
      | label | comment => contradiction
      | instruction content =>
        cases content <;> first | contradiction | exact (Option.some.inj hmove) ▸ rfl
    · contradiction
  · contradiction

/-- A selected line that is left out is a move between `rax` and the word of a symbol. -/
theorem exists_isPlain (hselected : ∀ line ∈ lines, line.IsSelected)
    (hkeeps : keepsAt lines position = false) :
    ∃ (move : Move) (symbol : String), move.IsPlain symbol ∧
      lines[position]? = some (.instruction (.mov move.source move.destination)) ∧
      afterLines none (lines.take position) = some move.reverse := by
  obtain ⟨move, hline, hafter⟩ := exists_of_not_keepsAt hkeeps
  have hmove : Selected move := hselected _ (List.mem_of_getElem? hline) move rfl
  rcases mem_of_afterLines hafter with hnone | ⟨line, hmem, hreverse⟩
  · contradiction
  · have hselected' := hselected line (List.mem_of_mem_take hmem) _ hreverse
    obtain ⟨symbol, hplain⟩ := hmove.isPlain hselected'
    exact ⟨move, symbol, hplain, hline, hafter⟩

/-- A line that is no move is found at its place among the lines that are kept. -/
theorem findIdx?_kept {wanted : Line → Bool}
    (hwanted : ∀ line, wanted line = true → line.move? = none) :
    (kept moved? lines).findIdx? wanted =
      (lines.findIdx? wanted).map fun position => (kept moved? (lines.take position)).length := by
  induction lines generalizing moved? with
  | nil => rfl
  | cons line rest ih =>
    rw [List.findIdx?_cons]
    by_cases hline : wanted line = true
    · have hkeeps := keeps_of_move?_eq_none (hwanted line hline) moved?
      rw [kept, if_pos hkeeps, List.findIdx?_cons, hline]
      rfl
    · rw [Bool.not_eq_true] at hline
      rw [hline, kept]
      split
      · next hkeeps =>
        rw [List.findIdx?_cons, hline, ih]
        simp [Function.comp_def, kept, hkeeps]
      · next hkeeps =>
        rw [ih]
        simp [Function.comp_def, kept, hkeeps]

end Peephole

end Assembly

end ThreeAddress
