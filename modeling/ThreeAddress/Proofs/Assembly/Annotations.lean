import ThreeAddress.Proofs.Assembly.Kept

/-!
# Comments among assembly lines

Every instruction that has an effect gets its listing as a comment, if comments are asked for. The
other lines are the same with and without comments, and so are the moves among them that are left
out, because a comment neither is a move nor stands between two.
-/

namespace ThreeAddress

namespace Assembly

/-- Whether a line is a comment. -/
def Line.isComment : Line → Bool
  | .comment _ => true
  | _ => false

/-- The lines that are no comments. -/
def bare (lines : List Line) : List Line := lines.filter fun line => !line.isComment

/-- A line that is no comment stays. -/
theorem bare_cons {line : Line} (h : line.isComment = false) (rest : List Line) :
    bare (line :: rest) = line :: bare rest :=
  List.filter_cons_of_pos (by rw [h]; rfl)

section Selection

variable {options : Options} {code : Code} {lines : List Line}

/-- Instructions are no comments. -/
theorem isComment_of_isInstruction {line : Line} (h : line.isInstruction = true) :
    line.isComment = false := by
  cases line with
  | instruction content => rfl
  | label | comment => contradiction

/-- The lines of an operation are no comments. -/
theorem isComment_of_operationLines {operation : Operation}
    (h : operationLines operation = .ok lines) : ∀ line ∈ lines, line.isComment = false := by
  obtain ⟨function, -, rfl⟩ | ⟨-, hlines⟩ := operationLines_cases h
  · exact List.forall_mem_singleton.mpr rfl
  · exact fun line hline => isComment_of_isInstruction (hlines line hline)

/-- The line of a label is no comment. -/
theorem isComment_of_labelLines {label? : Option Label} :
    ∀ line ∈ labelLines label?, line.isComment = false := by
  cases label? <;> simp [labelLines, Line.isComment]

/-- What stands above the lines of an operation is a comment. -/
theorem isComment_of_annotates {operation : Operation} :
    ∀ line ∈ annotationLines options operation, line.isComment = true := by
  intro line hline
  rw [eq_of_annotates hline]
  rfl

/-- There are no comments unless they are asked for. -/
theorem annotationLines_eq_nil (colour : Bool) (operation : Operation) :
    annotationLines ⟨false, colour⟩ operation = [] := by
  unfold annotationLines
  split <;> rfl

/-- Every operation that has an effect has a comment, if comments are asked for. -/
theorem annotationLines_eq_singleton {operation : Operation} (h : operation ≠ .nop) (colour : Bool) :
    annotationLines ⟨true, colour⟩ operation = [.comment (Terminal.withoutControls
      (Styled.render colour (Listing.operation operation)))] := by
  cases operation with
  | nop => contradiction
  | _ => rfl

/-- Among the lines of an instruction, its comment is the only one. -/
theorem comments_instructionLines {instruction : ThreeAddress.Instruction}
    (h : instructionLines options instruction = .ok lines) :
    lines.filter Line.isComment = annotationLines options instruction.operation := by
  obtain ⟨expanded, hexpanded, h⟩ := exists_of_bind_eq_ok h
  obtain rfl := Except.ok.inj h
  have hlabel : (labelLines instruction.label?).filter Line.isComment = [] :=
    List.filter_eq_nil_iff.mpr fun line hline => by simp [isComment_of_labelLines line hline]
  have hoperation : expanded.filter Line.isComment = [] :=
    List.filter_eq_nil_iff.mpr fun line hline => by
      simp [isComment_of_operationLines hexpanded line hline]
  rw [List.filter_append, List.filter_append, hlabel, hoperation,
    List.filter_eq_self.mpr isComment_of_annotates, List.append_nil, List.nil_append]

/-- The comments of some code are those above its operations. -/
theorem comments_codeLines (h : codeLines options code = .ok lines) :
    lines.filter Line.isComment =
      code.flatMap fun instruction => annotationLines options instruction.operation := by
  induction code generalizing lines with
  | nil =>
    obtain rfl := Except.ok.inj h
    rfl
  | cons instruction rest ih =>
    obtain ⟨own, hown, h⟩ := exists_of_bind_eq_ok h
    obtain ⟨others, hothers, h⟩ := exists_of_bind_eq_ok h
    obtain rfl := Except.ok.inj h
    rw [List.filter_append, comments_instructionLines hown, ih hothers, List.flatMap_cons]

/-- Above the operations of some code, there is one comment for each that has an effect. -/
theorem flatMap_annotationLines_eq_map (colour : Bool) (code : Code) :
    (code.flatMap fun instruction => annotationLines ⟨true, colour⟩ instruction.operation) =
      (code.filter fun instruction => instruction.operation ≠ .nop).map fun instruction =>
        .comment (Terminal.withoutControls
          (Styled.render colour (Listing.operation instruction.operation))) := by
  induction code with
  | nil => rfl
  | cons instruction rest ih =>
    rw [List.flatMap_cons, ih]
    by_cases hnop : instruction.operation = .nop
    · rw [List.filter_cons_of_neg (by simp [hnop]), hnop]
      rfl
    · rw [List.filter_cons_of_pos (by simp [hnop]), annotationLines_eq_singleton hnop]
      rfl

/-- The lines of an instruction are the same with and without its comment. -/
theorem instructionLines_bare (options : Options) (colour : Bool)
    (instruction : ThreeAddress.Instruction) :
    instructionLines ⟨false, colour⟩ instruction =
      (instructionLines options instruction).map bare := by
  unfold instructionLines
  cases hexpanded : operationLines instruction.operation with
  | error fault => rfl
  | ok expanded =>
    have hlabel : bare (labelLines instruction.label?) = labelLines instruction.label? :=
      List.filter_eq_self.mpr fun line hline => by simp [isComment_of_labelLines line hline]
    have hcomment : bare (annotationLines options instruction.operation) = [] :=
      List.filter_eq_nil_iff.mpr fun line hline => by simp [isComment_of_annotates line hline]
    have hoperation : bare expanded = expanded :=
      List.filter_eq_self.mpr fun line hline => by
        simp [isComment_of_operationLines hexpanded line hline]
    change Except.ok _ = Except.ok (bare _)
    rw [annotationLines_eq_nil, bare, List.filter_append, List.filter_append, ← bare, ← bare, ← bare,
      hlabel, hcomment, hoperation]

/-- The lines of some code are the same with and without comments. -/
theorem codeLines_bare (options : Options) (colour : Bool) (code : Code) :
    codeLines ⟨false, colour⟩ code = (codeLines options code).map bare := by
  induction code with
  | nil => rfl
  | cons instruction rest ih =>
    unfold codeLines
    rw [instructionLines_bare options, ih]
    cases instructionLines options instruction with
    | error fault => rfl
    | ok own =>
      cases codeLines options rest with
      | error fault => rfl
      | ok others => exact congrArg Except.ok (List.filter_append _ _).symm

end Selection

namespace Peephole

/-- Comments are kept, and they change nothing about what follows. -/
theorem kept_comment (moved? : Option Move) (text : String) (rest : List Line) :
    kept moved? (.comment text :: rest) = .comment text :: kept moved? rest := rfl

/-- The same moves are left out with and without comments. -/
theorem kept_bare (moved? : Option Move) (lines : List Line) :
    kept moved? (bare lines) = bare (kept moved? lines) := by
  induction lines generalizing moved? with
  | nil => rfl
  | cons line rest ih =>
    cases line with
    | comment text => exact ih moved?
    | instruction | label =>
      rw [bare_cons rfl, kept, kept]
      split
      · rw [bare_cons rfl, ih]
      · exact ih _

/-- All comments are kept. -/
theorem comments_kept (moved? : Option Move) (lines : List Line) :
    (kept moved? lines).filter Line.isComment = lines.filter Line.isComment := by
  induction lines generalizing moved? with
  | nil => rfl
  | cons line rest ih =>
    cases line with
    | comment text => rw [kept_comment, List.filter_cons_of_pos rfl, ih, List.filter_cons_of_pos rfl]
    | instruction | label =>
      rw [kept, List.filter_cons_of_neg Bool.false_ne_true]
      split
      · rw [List.filter_cons_of_neg Bool.false_ne_true, ih]
      · exact ih _

end Peephole

end Assembly

namespace CodeUnit

/-- The lines of a unit are the same with and without comments. -/
theorem assemblyLines_bare (unit : CodeUnit) (options : Assembly.Options) (colour : Bool) :
    unit.assemblyLines ⟨false, colour⟩ = (unit.assemblyLines options).map Assembly.bare := by
  unfold assemblyLines
  rw [Assembly.codeLines_bare options]
  cases Assembly.codeLines options unit.code with
  | error fault => rfl
  | ok lines => exact congrArg Except.ok (Assembly.Peephole.kept_bare none lines)

end CodeUnit

end ThreeAddress
