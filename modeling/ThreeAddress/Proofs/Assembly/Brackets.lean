import ThreeAddress.Proofs.Assembly.Kept

/-!
# Brackets on the stack

A call stands in a bracket: a word is put on the stack in front of it and taken off again behind it.
How much is on the stack at a line can be told from the lines in front of it, whatever way control
takes, because all that control can come to from elsewhere stands outside the brackets, and so do
the jumps and returns that it takes to go there.

The function that reads writes where `rsi` points. Right in front of its calls `rsi` is loaded with
the address of a symbol, which can be told from the lines in front as well. Leaving out moves
changes nothing about any of this.
-/

namespace ThreeAddress

namespace Assembly

/-- How many bytes a line puts on the stack, which are less than none if it takes some off. -/
def Line.pushes : Line → Int
  | .instruction (.push _) => 8
  | .instruction (.pop _) => -8
  | _ => 0

/-- How many bytes some lines put on the stack. -/
def pushed : List Line → Int
  | [] => 0
  | line :: rest => line.pushes + pushed rest

/-- How many bytes the lines in front of a position put on the stack. -/
def depthAt (lines : List Line) (position : Nat) : Int := pushed (lines.take position)

/-- Whether `rsi` is known to hold the address of a symbol behind a line, given whether it is in
front of it. -/
def Line.aims (aimed : Bool) : Line → Bool
  | .instruction (.lea (.memory _) .rsi) => true
  | .instruction (.clear _) | .instruction (.push _) => aimed
  | _ => false

/-- Whether `rsi` is known to hold the address of a symbol behind some lines. -/
def aimedBehind (aimed : Bool) (lines : List Line) : Bool := lines.foldl Line.aims aimed

/-- Whether `rsi` is known to hold the address of a symbol from the lines in front of a position. -/
def aimedAt (lines : List Line) (position : Nat) : Bool := aimedBehind false (lines.take position)

/-- A line may stand where some bytes are on the stack: a label, a comment, a jump, a return and
where a bracket opens outside all brackets, a call and where a bracket closes inside one, and most
other instructions anywhere. A call of the function that reads also needs an address in `rsi`. -/
def Line.Fits (depth : Int) (aimed : Bool) : Line → Prop
  | .label _ | .comment _ => depth = 0
  | .instruction (.push _) => depth = 0
  | .instruction (.call symbol) => depth = 8 ∧ (symbol = Symbol.reader → aimed = true)
  | .instruction (.pop _) => depth = 8
  | .instruction .ret | .instruction (.jump _) | .instruction (.jumpIfEqual _) => depth = 0
  | .instruction (.verbatim _) => False
  | .instruction _ => True

/-- A line that may stand anywhere and puts nothing on the stack. -/
def Line.IsFlat (line : Line) : Prop := line.pushes = 0 ∧ ∀ depth aimed, line.Fits depth aimed

/-- Lines stand where they may, given what is known in front of the first of them. -/
def FitFrom : Int → Bool → List Line → Prop
  | _, _, [] => True
  | depth, aimed, line :: rest =>
    line.Fits depth aimed ∧ FitFrom (depth + line.pushes) (line.aims aimed) rest

/-- Lines stand where they may, whatever `rsi` holds in front of them, and leave the stack as it
was. -/
structure Bracketed (lines : List Line) : Prop where
  fits : ∀ aimed, FitFrom 0 aimed lines
  pushed_eq : pushed lines = 0

section Lists

variable {depth : Int} {aimed : Bool} {lines first second : List Line}

/-- A line in front adds what it puts on the stack. -/
@[simp] theorem pushed_cons (line : Line) (rest : List Line) :
    pushed (line :: rest) = line.pushes + pushed rest := rfl

/-- Lines of two parts put on the stack what the parts do. -/
@[simp] theorem pushed_append (first second : List Line) :
    pushed (first ++ second) = pushed first + pushed second := by
  induction first with
  | nil => exact (Int.zero_add _).symm
  | cons line rest ih => rw [List.cons_append, pushed_cons, pushed_cons, ih, Int.add_assoc]

/-- Behind a line, the stack is as the line leaves it. -/
theorem depthAt_succ {position : Nat} {line : Line} (h : lines[position]? = some line) :
    depthAt lines (position + 1) = depthAt lines position + line.pushes := by
  rw [depthAt, List.take_add_one, h, pushed_append]
  exact congrArg (_ + ·) (Int.add_zero _)

/-- Behind a line, `rsi` is known to hold an address if the line sees to it. -/
theorem aimedAt_succ {position : Nat} {line : Line} (h : lines[position]? = some line) :
    aimedAt lines (position + 1) = line.aims (aimedAt lines position) := by
  rw [aimedAt, List.take_add_one, h, aimedBehind, List.foldl_append]
  rfl

/-- Lines of two parts stand where they may if both parts do. -/
theorem fitFrom_append :
    FitFrom depth aimed (first ++ second) ↔
      FitFrom depth aimed first ∧
        FitFrom (depth + pushed first) (aimedBehind aimed first) second := by
  induction first generalizing depth aimed with
  | nil => simp [FitFrom, pushed, aimedBehind]
  | cons line rest ih =>
    simp only [List.cons_append, FitFrom, ih, pushed_cons, aimedBehind, List.foldl_cons, and_assoc,
      Int.add_assoc]

/-- Every line stands where it may. -/
theorem FitFrom.fits {position : Nat} {line : Line} (h : FitFrom depth aimed lines)
    (hline : lines[position]? = some line) :
    line.Fits (depth + depthAt lines position) (aimedBehind aimed (lines.take position)) := by
  obtain ⟨hlt, hget⟩ := List.getElem?_eq_some_iff.mp hline
  have hsplit : lines = lines.take position ++ line :: lines.drop (position + 1) := by
    rw [← hget, List.getElem_cons_drop, List.take_append_drop]
  rw [hsplit] at h
  exact (fitFrom_append.mp h).2.1

/-- Behind a line, too, a bracket is open or none is. -/
theorem Line.Fits.depth_behind {line : Line} (h : line.Fits depth aimed)
    (hdepth : depth = 0 ∨ depth = 8) : depth + line.pushes = 0 ∨ depth + line.pushes = 8 := by
  have hsame : line.pushes = 0 → depth + line.pushes = 0 ∨ depth + line.pushes = 8 := by
    intro hpushes
    rwa [hpushes, Int.add_zero]
  cases line with
  | label | comment => exact hsame rfl
  | instruction content =>
    cases content with
    | push =>
      obtain rfl : depth = 0 := h
      exact .inr rfl
    | pop =>
      obtain rfl : depth = 8 := h
      exact .inl rfl
    | _ => exact hsame rfl

/-- Flat lines fit anywhere. -/
theorem fitFrom_of_flat (h : ∀ line ∈ lines, line.IsFlat) (depth : Int) (aimed : Bool) :
    FitFrom depth aimed lines := by
  induction lines generalizing depth aimed with
  | nil => trivial
  | cons line rest ih =>
    obtain ⟨hline, hrest⟩ := List.forall_mem_cons.mp h
    exact ⟨hline.2 depth aimed, ih hrest _ _⟩

/-- Flat lines put nothing on the stack. -/
theorem pushed_of_flat (h : ∀ line ∈ lines, line.IsFlat) : pushed lines = 0 := by
  induction lines with
  | nil => rfl
  | cons line rest ih =>
    obtain ⟨hline, hrest⟩ := List.forall_mem_cons.mp h
    rw [pushed_cons, hline.1, ih hrest, Int.zero_add]

end Lists

namespace Bracketed

variable {lines first second : List Line}

/-- Flat lines leave the stack as it was. -/
theorem of_flat (h : ∀ line ∈ lines, line.IsFlat) : Bracketed lines :=
  ⟨fitFrom_of_flat h 0, pushed_of_flat h⟩

/-- A line outside all brackets, which puts nothing on the stack. -/
theorem singleton {line : Line} (hfits : ∀ aimed, line.Fits 0 aimed) (hpushes : line.pushes = 0) :
    Bracketed [line] :=
  ⟨fun aimed => ⟨hfits aimed, trivial⟩, by rw [pushed_cons, hpushes]; rfl⟩

/-- What leaves the stack as it was can be followed by more that does. -/
theorem append (h : Bracketed first) (h' : Bracketed second) : Bracketed (first ++ second) := by
  refine ⟨fun aimed => fitFrom_append.mpr ⟨h.fits aimed, ?_⟩, ?_⟩
  · rw [h.pushed_eq]
    exact h'.fits _
  · rw [pushed_append, h.pushed_eq, h'.pushed_eq]
    rfl

/-- Every line stands where it may. -/
theorem fits_at (h : Bracketed lines) {position : Nat} {line : Line}
    (hline : lines[position]? = some line) :
    line.Fits (depthAt lines position) (aimedAt lines position) := by
  have hfits := (h.fits false).fits hline
  rwa [Int.zero_add] at hfits

/-- A position is outside all brackets or inside one. -/
theorem depthAt_eq (h : Bracketed lines) (position : Nat) :
    depthAt lines position = 0 ∨ depthAt lines position = 8 := by
  induction position with
  | zero => exact .inl rfl
  | succ position ih =>
    cases hline : lines[position]? with
    | none =>
      have htake : lines.take (position + 1) = lines.take position := by
        rw [List.take_add_one, hline, Option.toList_none, List.append_nil]
      rwa [depthAt, htake]
    | some line =>
      rw [depthAt_succ hline]
      exact (h.fits_at hline).depth_behind ih

/-- Inside a bracket there is an instruction. -/
theorem exists_instruction (h : Bracketed lines) {position : Nat}
    (hdepth : depthAt lines position = 8) :
    ∃ content, lines[position]? = some (.instruction content) := by
  cases hline : lines[position]? with
  | none =>
    have htake : lines.take position = lines :=
      List.take_of_length_le (List.getElem?_eq_none_iff.mp hline)
    rw [depthAt, htake, h.pushed_eq] at hdepth
    contradiction
  | some line =>
    have hfits := h.fits_at hline
    rw [hdepth] at hfits
    cases line with
    | instruction content => exact ⟨content, rfl⟩
    | label | comment => exact absurd hfits (by simp [Line.Fits])

end Bracketed

/-- No function of a program is called as the one that reads is. -/
theorem ofFunction_ne_reader (name : String) : Symbol.ofFunction name ≠ Symbol.reader := by
  unfold Symbol.ofFunction
  split
  · next hmain => rw [hmain]; decide
  · intro heq
    have hchars := congrArg String.toList heq
    rw [String.toList_append] at hchars
    exact absurd (List.cons_eq_cons.mp hchars).1 (by decide)

section Selection

variable {options : Options} {aimed : Bool} {lines : List Line}

/-- A move is flat. -/
@[simp] theorem isFlat_mov (source destination : Operand) :
    (Line.instruction (.mov source destination)).IsFlat := ⟨rfl, fun _ _ => trivial⟩

/-- Loading an address is flat. -/
@[simp] theorem isFlat_lea (source : Operand) (destination : Register) :
    (Line.instruction (.lea source destination)).IsFlat := ⟨rfl, fun _ _ => trivial⟩

/-- A comparison is flat. -/
@[simp] theorem isFlat_compare (source : Operand) (destination : Register) :
    (Line.instruction (.compare source destination)).IsFlat := ⟨rfl, fun _ _ => trivial⟩

/-- Clearing a register is flat. -/
@[simp] theorem isFlat_clear (destination : Register) :
    (Line.instruction (.clear destination)).IsFlat := ⟨rfl, fun _ _ => trivial⟩

/-- Loading is flat. -/
@[simp] theorem isFlat_load (register : Register) (place : Storage) :
    (load register place).IsFlat := by
  cases place <;> exact ⟨rfl, fun _ _ => trivial⟩

/-- Storing is flat. -/
theorem isFlat_of_store {place : Storage} {line : Line} (h : store place = .ok line) :
    line.IsFlat := by
  cases place with
  | constant value | string id => contradiction
  | temporary | «variable» | parameter =>
    obtain rfl := Except.ok.inj h
    exact isFlat_mov _ _

/-- Combining is flat. -/
theorem isFlat_of_combine {op : BinaryOp} : ∀ line ∈ combine op, line.IsFlat := by
  cases op <;> simp [combine, comparison, Line.IsFlat, Line.pushes, Line.Fits]

/-- A call is a bracket around what is done before the word is taken off the stack. -/
theorem fitFrom_callLines {function : String} (haimed : function = Symbol.reader → aimed = true)
    (h : ∀ line ∈ lines, line.IsFlat) : FitFrom 0 aimed (callLines function lines) := by
  have hopen : FitFrom 0 aimed [.instruction (.push .rbp), .instruction (.call function)] :=
    ⟨rfl, ⟨rfl, haimed⟩, trivial⟩
  refine fitFrom_append.mpr ⟨fitFrom_append.mpr ⟨hopen, fitFrom_of_flat h _ _⟩, ?_, trivial⟩
  rw [pushed_append, pushed_of_flat h]
  rfl

/-- A call takes off the stack what it has put there. -/
theorem pushed_callLines (function : String) (h : ∀ line ∈ lines, line.IsFlat) :
    pushed (callLines function lines) = 0 := by
  rw [callLines, pushed_append, pushed_append, pushed_of_flat h]
  rfl

/-- A call of another function than the one that reads needs nothing in `rsi`. -/
theorem bracketed_callLines {function : String} (hfunction : function ≠ Symbol.reader)
    (h : ∀ line ∈ lines, line.IsFlat) : Bracketed (callLines function lines) :=
  ⟨fun _ => fitFrom_callLines (fun heq => absurd heq hfunction) h, pushed_callLines function h⟩

/-- Reading into the word of a symbol loads its address first. -/
theorem bracketed_reading (format symbol : String) :
    Bracketed ([.instruction (.lea (.memory format) .rdi),
      .instruction (.lea (.memory symbol) .rsi)] ++ libraryCall Symbol.reader) where
  fits aimed := by
    have hfront : ∀ line ∈ [Line.instruction (.lea (.memory format) .rdi),
        .instruction (.lea (.memory symbol) .rsi), .instruction (.clear .eax)], line.IsFlat := by
      simp
    exact (@fitFrom_append 0 aimed [_, _, _] _).mpr
      ⟨fitFrom_of_flat hfront 0 aimed, fitFrom_callLines (fun _ => rfl) (List.forall_mem_nil _)⟩
  pushed_eq := pushed_callLines Symbol.reader (List.forall_mem_nil _)

/-- A word that is read into is that of a symbol. -/
theorem exists_symbol_of_wordOf {place : Storage} {word : Operand} (h : wordOf place = .ok word) :
    ∃ symbol, word = .memory symbol := by
  cases place with
  | constant => contradiction
  | temporary | string | «variable» | parameter => exact ⟨_, (Except.ok.inj h).symm⟩

/-- The lines of an operation leave the stack as it was. -/
theorem bracketed_operationLines {operation : Operation}
    (h : operationLines operation = .ok lines) : Bracketed lines := by
  cases operation with
  | nop =>
    obtain rfl := Except.ok.inj h
    exact .of_flat (List.forall_mem_nil _)
  | enter function | leave | jump target =>
    obtain rfl := Except.ok.inj h
    exact .singleton (fun _ => rfl) rfl
  | jumpIfFalse condition target =>
    obtain rfl := Except.ok.inj h
    exact @Bracketed.append [_, _] _ (.of_flat (by simp)) (.singleton (fun _ => rfl) rfl)
  | copy destination source =>
    obtain ⟨stored, hstore, h⟩ := exists_of_bind_eq_ok h
    obtain rfl := Except.ok.inj h
    exact .of_flat (by simp [isFlat_of_store hstore])
  | copyIntoArray array index source =>
    obtain rfl := Except.ok.inj h
    exact .of_flat (by simp [loadArray])
  | copyFromArray destination array index =>
    obtain ⟨stored, hstore, h⟩ := exists_of_bind_eq_ok h
    obtain rfl := Except.ok.inj h
    exact .of_flat (by simp [loadArray, isFlat_of_store hstore])
  | call function destination =>
    obtain ⟨stored, hstore, h⟩ := exists_of_bind_eq_ok h
    obtain rfl := Except.ok.inj h
    exact bracketed_callLines (ofFunction_ne_reader function)
      (List.forall_mem_singleton.mpr (isFlat_of_store hstore))
  | input type destination =>
    obtain ⟨word, hword, h⟩ := exists_of_bind_eq_ok h
    obtain rfl := Except.ok.inj h
    obtain ⟨symbol, rfl⟩ := exists_symbol_of_wordOf hword
    exact bracketed_reading _ symbol
  | print source =>
    obtain rfl := Except.ok.inj h
    exact @Bracketed.append [_, _, _] _ (.of_flat (by simp))
      (bracketed_callLines (by decide) (List.forall_mem_nil _))
  | ret source =>
    obtain rfl := Except.ok.inj h
    exact @Bracketed.append [_] _ (.of_flat (by simp)) (.singleton (fun _ => rfl) rfl)
  | binary op destination lhs rhs =>
    obtain ⟨stored, hstore, h⟩ := exists_of_bind_eq_ok h
    obtain rfl := Except.ok.inj h
    refine .append (.append (.of_flat (by simp)) (.of_flat isFlat_of_combine)) (.of_flat ?_)
    exact List.forall_mem_singleton.mpr (isFlat_of_store hstore)

/-- The lines of an instruction leave the stack as it was. -/
theorem bracketed_instructionLines {instruction : ThreeAddress.Instruction}
    (h : instructionLines options instruction = .ok lines) : Bracketed lines := by
  obtain ⟨expanded, hexpanded, h⟩ := exists_of_bind_eq_ok h
  obtain rfl := Except.ok.inj h
  have hlabel : Bracketed (labelLines instruction.label?) := by
    cases instruction.label? with
    | none => exact .of_flat (List.forall_mem_nil _)
    | some label => exact .singleton (fun _ => rfl) rfl
  have hcomment : Bracketed (annotationLines options instruction.operation) := by
    unfold annotationLines
    split
    · exact .of_flat (List.forall_mem_nil _)
    · split
      · exact .singleton (fun _ => rfl) rfl
      · exact .of_flat (List.forall_mem_nil _)
  exact (hlabel.append hcomment).append (bracketed_operationLines hexpanded)

/-- The lines of some code leave the stack as it was. -/
theorem bracketed_codeLines {code : Code} (h : codeLines options code = .ok lines) :
    Bracketed lines := by
  induction code generalizing lines with
  | nil =>
    obtain rfl := Except.ok.inj h
    exact .of_flat (List.forall_mem_nil _)
  | cons instruction rest ih =>
    obtain ⟨own, hown, h⟩ := exists_of_bind_eq_ok h
    obtain ⟨others, hothers, h⟩ := exists_of_bind_eq_ok h
    obtain rfl := Except.ok.inj h
    exact (bracketed_instructionLines hown).append (ih hothers)

end Selection

namespace Peephole

/-- A line that is left out puts nothing on the stack, and does not see to `rsi`. -/
theorem pushes_of_not_keeps {moved? : Option Move} {line : Line} (h : keeps moved? line = false)
    (aimed : Bool) : line.pushes = 0 ∧ line.aims aimed = false := by
  cases hmove : line.move? with
  | none => exact absurd (keeps_of_move?_eq_none hmove moved?) (by simp [h])
  | some move =>
    unfold Line.move? at hmove
    split at hmove
    · exact ⟨rfl, rfl⟩
    · contradiction

/-- More may be known about `rsi` than a line asks for. -/
theorem fits_mono {depth : Int} {aimed aimed' : Bool} (hle : aimed = true → aimed' = true)
    {line : Line} (h : line.Fits depth aimed) : line.Fits depth aimed' := by
  cases line with
  | label | comment => exact h
  | instruction content =>
    cases content with
    | call symbol => exact ⟨h.1, fun hsymbol => hle (h.2 hsymbol)⟩
    | _ => exact h

/-- What is known about `rsi` in front of a line is known behind it, if the line leaves it alone. -/
theorem aims_mono {aimed aimed' : Bool} (hle : aimed = true → aimed' = true) {line : Line}
    (h : line.aims aimed = true) : line.aims aimed' = true := by
  unfold Line.aims at h ⊢
  split at h
  · rfl
  · exact hle h
  · exact hle h
  · contradiction

/-- The lines that are kept stand where they may, if all do, and leave the stack as all do. What is
known about `rsi` does not get less by leaving out moves. -/
theorem fitFrom_kept (moved? : Option Move) {depth : Int} {aimed aimed' : Bool} {lines : List Line}
    (hle : aimed = true → aimed' = true) (h : FitFrom depth aimed lines) :
    FitFrom depth aimed' (kept moved? lines) ∧ pushed (kept moved? lines) = pushed lines := by
  induction lines generalizing moved? depth aimed aimed' with
  | nil => exact ⟨trivial, rfl⟩
  | cons line rest ih =>
    rw [kept]
    split
    · obtain ⟨hrest, hpushed⟩ := ih (after moved? line) (aims_mono hle) h.2
      exact ⟨⟨fits_mono hle h.1, hrest⟩, by rw [pushed_cons, pushed_cons, hpushed]⟩
    · next hkeeps =>
      obtain ⟨hnone, haims⟩ := pushes_of_not_keeps (Bool.not_eq_true _ ▸ hkeeps) aimed
      have hrest := h.2
      rw [hnone, Int.add_zero, haims] at hrest
      rw [pushed_cons, hnone, Int.zero_add]
      exact ih (after moved? line) (fun hfalse => absurd hfalse Bool.false_ne_true) hrest

end Peephole

end Assembly

/-- The lines of a unit leave the stack as it was. -/
theorem CodeUnit.bracketed_assemblyLines {unit : CodeUnit} {options : Assembly.Options}
    {lines : List Assembly.Line} (h : unit.assemblyLines options = .ok lines) :
    Assembly.Bracketed lines := by
  obtain ⟨all, hall, h⟩ := Assembly.exists_of_bind_eq_ok h
  obtain rfl := Except.ok.inj h
  have hbracketed := Assembly.bracketed_codeLines hall
  have hkept := fun aimed => Assembly.Peephole.fitFrom_kept none id (hbracketed.fits aimed)
  exact ⟨fun aimed => (hkept aimed).1, (hkept false).2.trans hbracketed.pushed_eq⟩

/-- All moves of a unit are selected ones. -/
theorem CodeUnit.isSelected_of_assemblyLines {unit : CodeUnit} {options : Assembly.Options}
    {lines : List Assembly.Line} (h : unit.assemblyLines options = .ok lines) :
    ∀ line ∈ lines, line.IsSelected := by
  obtain ⟨all, hall, h⟩ := Assembly.exists_of_bind_eq_ok h
  obtain rfl := Except.ok.inj h
  exact fun line hline =>
    Assembly.isSelected_of_codeLines hall line (Assembly.Peephole.mem_of_mem_kept hline)

end ThreeAddress
