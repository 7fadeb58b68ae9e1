import ThreeAddress.Proofs.Assembly.Annotations
import ThreeAddress.Proofs.Assembly.Defined
import ThreeAddress.Proofs.Processor.Peephole
import ThreeAddress.Proofs.Text.Lines

/-!
# Assembly text line by line

The assembly text of a unit is a list of lines: a head, a line for every definition of the data
section, a line for every line of the code, and a tail. If the names of the unit have no line feeds,
none of them is broken, and comments are told apart from the other lines by how they begin. So the
comments can be taken out of the text again, and what is left is the text without comments.
-/

namespace ThreeAddress

/-- The names of the program that an operation names. -/
def Operation.names (operation : Operation) : List String :=
  ((operation.entered?.map Referent.entry).toList ++ operation.referents).flatMap Referent.names

/-- The names of the program that a unit is made from, those that it declares and those that its
code names. -/
def CodeUnit.names (unit : CodeUnit) : List String :=
  unit.decls.flatMap Decl.names ++
    unit.code.flatMap fun instruction => instruction.operation.names

/-- The text of a line, without its line end. -/
def Assembly.Line.content : Line → String
  | .instruction content => "    " ++ content.text
  | .label name => name ++ ":"
  | .comment text => "    # " ++ text

/-- The lines of an assembly text. -/
def CodeUnit.textLines (unit : CodeUnit) (lines : List Assembly.Line) : List String :=
  [".global main", "", ".data"] ++ unit.data.map Datum.line ++ ["", ".text"] ++
    (lines.map Assembly.Line.content ++ [""]) ++ [".section .note.GNU-stack,\"\",@progbits", ""]

/-- The text of code is that of its lines. -/
theorem linesText_eq (lines : List Assembly.Line) :
    Assembly.linesText lines = Text.ofLines (lines.map Assembly.Line.content ++ [""]) := by
  have htext : ∀ line : Assembly.Line, line.text = line.content ++ "\n" := by
    intro line
    cases line <;> simp [Assembly.Line.text, Assembly.Line.content, String.append_assoc]
  rw [← Text.join_eq_ofLines, List.map_map, Assembly.linesText]
  exact congrArg String.join (List.map_congr_left fun line _ => htext line)

/-- The assembly text of a unit is made up of its lines. -/
theorem CodeUnit.assemble_eq (unit : CodeUnit) (options : Assembly.Options) :
    unit.assemble options =
      (unit.assemblyLines options).map fun lines => Text.ofLines (unit.textLines lines) := by
  have hdata : unit.data.map Datum.line ≠ [] := by simp [data, formatData]
  have htext : ∀ lines, ".global main\n\n.data\n" ++ unit.dataText ++ "\n\n.text\n" ++
      Assembly.linesText lines ++ "\n.section .note.GNU-stack,\"\",@progbits\n" =
        Text.ofLines (unit.textLines lines) := by
    intro lines
    rw [textLines, Text.ofLines_append (by simp) (by simp), Text.ofLines_append (by simp) (by simp),
      Text.ofLines_append (by simp) (by simp), Text.ofLines_append (by simp) hdata, dataText,
      linesText_eq, ← String.toList_inj]
    simp [Text.ofLines]
  rw [assemble]
  cases unit.assemblyLines options with
  | error fault => rfl
  | ok lines => exact congrArg Except.ok (htext lines)

section Symbols

variable {referent : Referent}

/-- The symbol of a temporary shows. -/
theorem Temporary.shows_symbol (id : Temporary) : Text.Shows id.symbol :=
  Text.all_append.mpr ⟨by decide, Text.shows_nat _⟩

/-- The symbol of a label shows. -/
theorem Label.shows_symbol (label : Label) : Text.Shows label.symbol :=
  Text.all_append.mpr ⟨by decide, Text.shows_nat _⟩

/-- The characters that symbols have besides those of names. -/
def Symbol.IsCharacter (c : Char) : Prop := c.isAlphanum = true ∨ c = '_' ∨ c = '.'

instance : DecidablePred Symbol.IsCharacter := fun c =>
  inferInstanceAs (Decidable (c.isAlphanum = true ∨ c = '_' ∨ c = '.'))

/-- The digits of a number are such characters. -/
theorem Symbol.all_isCharacter_nat (number : Nat) :
    Text.All Symbol.IsCharacter (toString number) := by
  rw [Nat.toString_eq_ofList_toDigits, Text.all_ofList]
  intro c hc
  have hdigit := Nat.isDigit_of_mem_toDigits (by decide) (by decide) hc
  exact .inl (by simp [Char.isAlphanum, hdigit])

/-- The symbol of something has the characters of its names, and such characters. -/
theorem Referent.all_symbol {P : Char → Prop} (hfixed : ∀ c, Symbol.IsCharacter c → P c)
    (h : ∀ name ∈ referent.names, Text.All P name) : Text.All P referent.symbol := by
  have htext : ∀ {text : String}, Text.All Symbol.IsCharacter text → Text.All P text :=
    fun hall => hall.mono hfixed
  cases referent with
  | «variable» name =>
    exact Text.all_append.mpr ⟨htext (by decide), h name List.mem_cons_self⟩
  | parameter function name =>
    obtain ⟨hfunction, hname⟩ := List.forall_mem_cons.mp h
    rw [List.forall_mem_singleton] at hname
    exact Text.all_append.mpr ⟨Text.all_append.mpr ⟨Text.all_append.mpr ⟨htext (by decide),
      hfunction⟩, htext (by decide)⟩, hname⟩
  | number id =>
    exact Text.all_append.mpr ⟨htext (by decide), htext (Symbol.all_isCharacter_nat _)⟩
  | format type => cases type <;> exact htext (by decide)
  | printFormat => exact htext (by decide)
  | entry function =>
    have hfunction := h function List.mem_cons_self
    rw [symbol, Symbol.ofFunction]
    split
    · exact hfunction
    · exact Text.all_append.mpr ⟨htext (by decide), hfunction⟩
  | mark target =>
    exact Text.all_append.mpr ⟨htext (by decide), htext (Symbol.all_isCharacter_nat _)⟩

/-- The symbol of something is on one line if its names are. -/
theorem Referent.isLine_symbol (h : ∀ name ∈ referent.names, Text.IsLine name) :
    Text.IsLine referent.symbol := by
  refine Referent.all_symbol (fun c hc => ?_) h
  rintro rfl
  exact absurd hc (by decide)

/-- A line that begins with a symbol is no comment. -/
theorem Referent.isComment_symbol (referent : Referent) (rest : String) :
    Text.isComment (referent.symbol ++ rest) = false := by
  apply Text.isComment_eq_false
  cases referent with
  | «variable» | parameter | number | mark =>
    simp [symbol, Symbol.ofVariable, Symbol.ofParameter, Temporary.symbol, Label.symbol]
  | format type => cases type <;> simp [symbol, Symbol.ofFormat]
  | printFormat => simp [symbol, Symbol.printFormat]
  | entry function =>
    rw [symbol, Symbol.ofFunction]
    split
    · next heq => simp [heq]
    · simp

end Symbols

section Data

variable {unit : CodeUnit}

/-- The line of a definition begins with its symbol and a colon, and what follows shows. -/
theorem Datum.exists_line_eq (datum : Datum) :
    ∃ rest, Text.Shows rest ∧ datum.line = datum.symbol ++ ":" ++ rest := by
  have hdirective : ∀ type : ScalarType, Text.Shows type.directive := by
    intro type
    cases type <;> decide
  have hword : ∀ (type : ScalarType) (value : Literal), Text.Shows (value.wordText type) := by
    intro type value
    cases type with
    | int | char => exact Text.shows_int _
    | float => exact Text.shows_float (by decide) _
  cases datum with
  | words symbol type values =>
    cases values with
    | nil => exact ⟨"", by decide, (String.append_empty).symm⟩
    | cons value rest =>
      have hvalues : ∀ text ∈ (value :: rest).map (Literal.wordText type), Text.Shows text :=
        List.forall_mem_map.mpr fun value _ => hword type value
      refine ⟨" " ++ type.directive ++ " " ++
        ", ".intercalate ((value :: rest).map (Literal.wordText type)), ?_, ?_⟩
      · simp only [Text.all_append]
        exact ⟨⟨⟨by decide, hdirective type⟩, by decide⟩,
          Text.all_intercalate (by decide) hvalues⟩
      · apply String.toList_inj.mp
        simp [line, Datum.symbol]
  | text symbol content =>
    refine ⟨" .asciz \"" ++ Asciz.escape content ++ "\"", ?_, ?_⟩
    · simp only [Text.all_append]
      exact ⟨⟨by decide, Text.shows_asciz content⟩, by decide⟩
    · apply String.toList_inj.mp
      simp [line, Datum.symbol]

/-- Every definition is written on one line, and none is a comment. -/
theorem CodeUnit.isLine_of_mem_data (hnames : ∀ name ∈ unit.names, Text.IsLine name) {line : String}
    (h : line ∈ unit.data.map Datum.line) : Text.IsLine line ∧ Text.isComment line = false := by
  obtain ⟨datum, hdatum, rfl⟩ := List.mem_map.mp h
  obtain ⟨referent, hreferent, hsymbol⟩ : ∃ referent ∈ unit.reserved,
      referent.symbol = datum.symbol := by
    rw [← List.mem_map, ← symbols_data]
    exact List.mem_map_of_mem hdatum
  obtain ⟨rest, hrest, hline⟩ := datum.exists_line_eq
  rw [hline, ← hsymbol, String.append_assoc]
  have hbehind : Text.IsLine (":" ++ rest) := Text.all_append.mpr ⟨by decide, hrest.isLine⟩
  refine ⟨Text.all_append.mpr ⟨Referent.isLine_symbol fun name hname => ?_, hbehind⟩,
    referent.isComment_symbol (":" ++ rest)⟩
  obtain ⟨decl, hdecl, hmem⟩ := exists_decl_of_mem_reserved hreferent hname
  exact hnames name (List.mem_append_left _ (List.mem_flatMap.mpr ⟨decl, hdecl, hmem⟩))

end Data

namespace Assembly

/-- The name of a register shows. -/
theorem Register.shows_text (register : Register) : Text.Shows register.text := by
  cases register <;> decide

/-- An operand is written on one line if the symbol in it is. -/
theorem Operand.isLine_text {operand : Operand}
    (h : ∀ symbol, operand = .memory symbol → Text.IsLine symbol) : Text.IsLine operand.text := by
  have hregister := fun register : Register => register.shows_text.isLine
  cases operand with
  | memory symbol => exact Text.all_append.mpr ⟨h symbol rfl, by decide⟩
  | register name => exact hregister name
  | immediate value => exact Text.all_append.mpr ⟨by decide, (Text.shows_int _).isLine⟩
  | indexed base index =>
    simp only [text, Text.all_append]
    exact ⟨⟨⟨⟨by decide, hregister base⟩, by decide⟩, hregister index⟩, by decide⟩
  | indirect base =>
    simp only [text, Text.all_append]
    exact ⟨⟨by decide, hregister base⟩, by decide⟩

/-- An instruction is written on one line if the symbols that it uses are. -/
theorem Instruction.isLine_text {content : Instruction}
    (h : ∀ symbol, content.Uses symbol → Text.IsLine symbol) : Text.IsLine content.text := by
  have hregister := fun register : Register => register.shows_text.isLine
  cases content with
  | mov source destination =>
    simp only [text, Text.all_append]
    refine ⟨⟨⟨?_, Operand.isLine_text fun symbol heq => h symbol (.inl heq)⟩, by decide⟩,
      Operand.isLine_text fun symbol heq => h symbol (.inr heq)⟩
    split <;> decide
  | lea source destination | compare source destination =>
    simp only [text, Text.all_append]
    exact ⟨⟨⟨by decide, Operand.isLine_text h⟩, by decide⟩, hregister destination⟩
  | call symbol | jump symbol | jumpIfEqual symbol =>
    exact Text.all_append.mpr ⟨by decide, h symbol rfl⟩
  | push register | pop register | divide register =>
    exact Text.all_append.mpr ⟨by decide, hregister register⟩
  | ret | extendSign => decide
  | word op source destination =>
    simp only [text, Text.all_append]
    refine ⟨⟨⟨⟨?_, by decide⟩, hregister source⟩, by decide⟩, hregister destination⟩
    cases op <;> decide
  | set condition destination =>
    simp only [text, Text.all_append]
    refine ⟨⟨?_, by decide⟩, hregister destination⟩
    cases condition <;> decide
  | extendZero source destination =>
    simp only [text, Text.all_append]
    exact ⟨⟨⟨by decide, hregister source⟩, by decide⟩, hregister destination⟩
  | clear destination =>
    simp only [text, Text.all_append]
    exact ⟨⟨⟨by decide, hregister destination⟩, by decide⟩, hregister destination⟩
  | verbatim text => exact h text trivial

/-- An instruction that does not use every symbol is no comment. -/
theorem Instruction.isComment_text {content : Instruction} {symbol : String}
    (h : ¬ content.Uses symbol) : Text.isComment ("    " ++ content.text) = false := by
  cases content with
  | mov source destination =>
    simp only [text]
    split <;> simp [Text.isComment, List.isPrefixOf]
  | word op => cases op <;> simp [text, WordOp.text, Text.isComment, List.isPrefixOf]
  | set condition => cases condition <;> simp [text, Condition.text, Text.isComment, List.isPrefixOf]
  | verbatim text => exact absurd trivial h
  | lea | compare | call | jump | jumpIfEqual | push | pop | divide | ret | extendSign | extendZero
  | clear => simp [text, Text.isComment, List.isPrefixOf]

end Assembly

section Listing

variable {P : Char → Prop}

/-- A place is listed in characters that show and in those of its names. -/
theorem Listing.all_storage (hgraphic : ∀ c, isGraphic c = true → P c) {place : Storage}
    (h : ∀ name ∈ place.referents.flatMap Referent.names, Text.All P name) :
    ∀ span ∈ Listing.storage place, Text.All P span.text := by
  cases place with
  | «variable» name => exact List.forall_mem_singleton.mpr (h name List.mem_cons_self)
  | parameter function name =>
    have hpoint : Text.Shows "." := by decide
    obtain ⟨hfunction, hname⟩ := List.forall_mem_cons.mp h
    exact List.forall_mem_singleton.mpr (Text.all_append.mpr ⟨Text.all_append.mpr
      ⟨hfunction, hpoint.mono hgraphic⟩, List.forall_mem_singleton.mp hname⟩)
  | temporary id | string id =>
    exact List.forall_mem_singleton.mpr (id.shows_symbol.mono hgraphic)
  | constant value =>
    refine List.forall_mem_singleton.mpr (Text.All.mono ?_ hgraphic)
    cases value with
    | int value => exact Text.shows_int _
    | float value => exact Text.shows_float (by decide) value
    | char value => exact Text.shows_quoted value

/-- An array element is listed in characters that show and in those of the names in it. -/
theorem Listing.all_element (hgraphic : ∀ c, isGraphic c = true → P c) {array : String}
    {index : Storage} (harray : Text.All P array)
    (hindex : ∀ name ∈ index.referents.flatMap Referent.names, Text.All P name) :
    ∀ span ∈ Listing.element array index, Text.All P span.text := by
  have hopen : Text.Shows "[" := by decide
  have hclose : Text.Shows "]" := by decide
  exact List.forall_mem_cons.mpr ⟨harray, List.forall_mem_cons.mpr ⟨hopen.mono hgraphic,
    List.forall_mem_append.mpr ⟨all_storage hgraphic hindex,
      List.forall_mem_singleton.mpr (hclose.mono hgraphic)⟩⟩⟩

/-- An operation is listed in characters that show and in those of the names in it. -/
theorem Listing.all_operation (hgraphic : ∀ c, isGraphic c = true → P c) {operation : Operation}
    (h : ∀ name ∈ operation.names, Text.All P name) :
    ∀ span ∈ Listing.operation operation, Text.All P span.text := by
  have hfixed : ∀ {spans : Styled}, (∀ span ∈ spans, Text.Shows span.text) →
      ∀ span ∈ spans, Text.All P span.text :=
    fun hspans span hspan => (hspans span hspan).mono hgraphic
  have hequals : ∀ span ∈ Listing.equals, Text.All P span.text := hfixed (by decide)
  have hstorage : ∀ {place : Storage},
      (∀ name ∈ place.referents.flatMap Referent.names, Text.All P name) →
        ∀ span ∈ Listing.storage place, Text.All P span.text := all_storage hgraphic
  simp only [Operation.names, List.flatMap_append, List.forall_mem_append] at h
  obtain ⟨hentered, h⟩ := h
  cases operation with
  | nop | leave => exact hfixed (by decide)
  | enter function =>
    have hword : Text.Shows "fn" := by decide
    have hblank : Text.Shows " " := by decide
    exact List.forall_mem_cons.mpr ⟨hword.mono hgraphic, List.forall_mem_cons.mpr
      ⟨hblank.mono hgraphic, List.forall_mem_cons.mpr
        ⟨hentered function List.mem_cons_self, hfixed (by decide)⟩⟩⟩
  | jump target =>
    refine hfixed (List.forall_mem_append.mpr ⟨by decide, ?_⟩)
    exact List.forall_mem_singleton.mpr target.shows_symbol
  | jumpIfFalse condition target =>
    refine List.forall_mem_append.mpr ⟨List.forall_mem_append.mpr
      ⟨hfixed (by decide), hstorage h⟩, hfixed (List.forall_mem_cons.mpr ⟨by decide,
        List.forall_mem_cons.mpr ⟨by decide, ?_⟩⟩)⟩
    exact List.forall_mem_singleton.mpr target.shows_symbol
  | copy destination source =>
    simp only [Operation.referents, List.flatMap_append, List.forall_mem_append] at h
    simp only [Listing.operation, List.forall_mem_append]
    exact ⟨⟨hstorage h.1, hequals⟩, hstorage h.2⟩
  | copyIntoArray array index source =>
    simp only [Operation.referents, List.flatMap_cons, List.flatMap_append,
      List.forall_mem_append] at h
    obtain ⟨harray, hindex, hsource⟩ := h
    simp only [Listing.operation, List.forall_mem_append]
    exact ⟨⟨all_element hgraphic (harray array List.mem_cons_self) hindex, hequals⟩,
      hstorage hsource⟩
  | copyFromArray destination array index =>
    simp only [Operation.referents, List.flatMap_cons, List.flatMap_append,
      List.forall_mem_append] at h
    obtain ⟨harray, hdestination, hindex⟩ := h
    simp only [Listing.operation, List.forall_mem_append]
    exact ⟨⟨hstorage hdestination, hequals⟩,
      all_element hgraphic (harray array List.mem_cons_self) hindex⟩
  | call function destination =>
    simp only [Operation.referents, List.flatMap_cons, List.forall_mem_append] at h
    obtain ⟨hfunction, hdestination⟩ := h
    simp only [Listing.operation, List.forall_mem_append]
    exact ⟨⟨⟨hstorage hdestination, hequals⟩, hfixed (by decide)⟩,
      List.forall_mem_singleton.mpr (hfunction function List.mem_cons_self)⟩
  | input type destination =>
    simp only [Operation.referents, List.flatMap_cons, List.forall_mem_append] at h
    simp only [Listing.operation, List.forall_mem_append]
    exact ⟨⟨⟨hstorage h.2, hequals⟩, hfixed (by decide)⟩, hfixed (by cases type <;> decide)⟩
  | print source | ret source =>
    exact List.forall_mem_append.mpr ⟨hfixed (by decide), hstorage h⟩
  | binary op destination lhs rhs =>
    simp only [Operation.referents, List.flatMap_append, List.forall_mem_append] at h
    obtain ⟨hdestination, hlhs, hrhs⟩ := h
    simp only [Listing.operation, List.forall_mem_append]
    exact ⟨⟨⟨⟨hstorage hdestination, hequals⟩, hstorage hlhs⟩,
      hfixed (by cases op <;> decide)⟩, hstorage hrhs⟩

end Listing

namespace Assembly

variable {options : Options} {code : Code} {lines : List Line}

/-- What an instruction defines the symbols of is named by its operation. -/
theorem mem_names_of_mem_marks {instruction : ThreeAddress.Instruction} {referent : Referent}
    (h : referent ∈ instruction.marks) {name : String} (hname : name ∈ referent.names) :
    name ∈ instruction.operation.names := by
  rcases List.mem_append.mp h with hlabel | hentry
  · obtain ⟨target, -, rfl⟩ := Option.map_eq_some_iff.mp (Option.mem_toList.mp hlabel)
    exact absurd hname List.not_mem_nil
  · exact List.mem_flatMap.mpr ⟨referent, List.mem_append_left _ hentry, hname⟩

/-- Every line of some code is on one line if the names in the code are, and those that begin as
comments do are its comments. -/
theorem isLine_of_codeLines (h : codeLines options code = .ok lines)
    (hnames : ∀ instruction ∈ code, ∀ name ∈ instruction.operation.names, Text.IsLine name) :
    ∀ line ∈ lines,
      Text.IsLine line.content ∧ Text.isComment line.content = line.isComment := by
  intro line hline
  cases line with
  | instruction content =>
    have hsymbols : ∀ symbol, content.Uses symbol → Text.IsLine symbol := by
      intro symbol huses
      obtain rfl | rfl | ⟨instruction, hmem, referent, hreferent, rfl⟩ :=
        exists_referent_of_codeLines h hline huses
      · decide
      · decide
      · exact Referent.isLine_symbol fun name hname => hnames instruction hmem name
          (List.mem_flatMap.mpr ⟨referent, List.mem_append_right _ hreferent, hname⟩)
    have hfeed : ¬ content.Uses "\n" := fun huses => absurd (hsymbols _ huses) (by decide)
    exact ⟨Text.all_append.mpr ⟨by decide, Instruction.isLine_text hsymbols⟩,
      Instruction.isComment_text hfeed⟩
  | label name =>
    have hmem : name ∈ lines.filterMap Line.defined? := List.mem_filterMap.mpr ⟨_, hline, rfl⟩
    rw [defined_codeLines h] at hmem
    obtain ⟨referent, hreferent, rfl⟩ := List.mem_map.mp hmem
    obtain ⟨instruction, hinstruction, hmark⟩ := List.mem_flatMap.mp hreferent
    refine ⟨Text.all_append.mpr ⟨Referent.isLine_symbol fun name hname => ?_, by decide⟩,
      referent.isComment_symbol ":"⟩
    exact hnames instruction hinstruction name (mem_names_of_mem_marks hmark hname)
  | comment text =>
    have hmem : Line.comment text ∈ lines.filter Line.isComment :=
      List.mem_filter.mpr ⟨hline, rfl⟩
    rw [comments_codeLines h] at hmem
    obtain ⟨instruction, hinstruction, hcomment⟩ := List.mem_flatMap.mp hmem
    obtain rfl := Line.comment.inj (eq_of_annotates hcomment)
    have hgraphic : ∀ c, isGraphic c = true → c ≠ '\n' := fun _ => Text.ne_lineFeed_of_isGraphic
    have hspans := Listing.all_operation hgraphic (hnames instruction hinstruction)
    exact ⟨Text.all_append.mpr ⟨by decide, Text.all_withoutControls
      (Text.all_render hgraphic (by decide) hspans _)⟩, Text.isComment_append _⟩

end Assembly

namespace CodeUnit

variable {unit : CodeUnit} {options : Assembly.Options} {lines : List Assembly.Line}

/-- Every line of the code of a unit is on one line if the names of the unit are, and those that begin
as comments do are its comments. -/
theorem isLine_of_assemblyLines (h : unit.assemblyLines options = .ok lines)
    (hnames : ∀ name ∈ unit.names, Text.IsLine name) :
    ∀ line ∈ lines,
      Text.IsLine line.content ∧ Text.isComment line.content = line.isComment := by
  obtain ⟨all, hall, rfl⟩ := exists_of_assemblyLines h
  have hcode : ∀ instruction ∈ unit.code, ∀ name ∈ instruction.operation.names,
      Text.IsLine name := fun instruction hmem name hname =>
    hnames name (List.mem_append_right _ (List.mem_flatMap.mpr ⟨instruction, hmem, hname⟩))
  exact fun line hline => Assembly.isLine_of_codeLines hall hcode line
    (Assembly.Peephole.mem_of_mem_kept hline)

/-- Every line of the text of a unit is on one line if the names of the unit are. -/
theorem isLine_of_mem_textLines (h : unit.assemblyLines options = .ok lines)
    (hnames : ∀ name ∈ unit.names, Text.IsLine name) :
    ∀ line ∈ unit.textLines lines, Text.IsLine line := by
  have hcode : ∀ line ∈ lines.map Assembly.Line.content, Text.IsLine line :=
    List.forall_mem_map.mpr fun line hline => (isLine_of_assemblyLines h hnames line hline).1
  simp only [textLines, List.forall_mem_append]
  exact ⟨⟨⟨⟨by decide, fun line hline => (isLine_of_mem_data hnames hline).1⟩, by decide⟩,
    hcode, by decide⟩, by decide⟩

/-- Lines of the code of a unit can be picked as comments, or as other lines, by their text. -/
theorem filter_contents (h : unit.assemblyLines options = .ok lines)
    (hnames : ∀ name ∈ unit.names, Text.IsLine name) (picked : Bool → Bool) :
    (lines.map Assembly.Line.content).filter (fun line => picked (Text.isComment line)) =
      (lines.filter fun line => picked line.isComment).map Assembly.Line.content := by
  rw [List.filter_map]
  refine congrArg _ (List.filter_congr fun line hline => ?_)
  exact congrArg picked (isLine_of_assemblyLines h hnames line hline).2

/-- The comments in the text of a unit are those of its code. -/
theorem comments_textLines (h : unit.assemblyLines options = .ok lines)
    (hnames : ∀ name ∈ unit.names, Text.IsLine name) :
    (unit.textLines lines).filter Text.isComment =
      (lines.filter Assembly.Line.isComment).map Assembly.Line.content := by
  have hdata : (unit.data.map Datum.line).filter Text.isComment = [] :=
    List.filter_eq_nil_iff.mpr fun line hline => by simp [(isLine_of_mem_data hnames hline).2]
  have hcode : (lines.map Assembly.Line.content).filter Text.isComment =
      (lines.filter Assembly.Line.isComment).map Assembly.Line.content :=
    filter_contents h hnames id
  have hhead : [".global main", "", ".data"].filter Text.isComment = [] := by decide
  have hmiddle : ["", ".text"].filter Text.isComment = [] := by decide
  have hend : [""].filter Text.isComment = [] := by decide
  have htail : [".section .note.GNU-stack,\"\",@progbits", ""].filter Text.isComment = [] := by
    decide
  simp only [textLines, List.filter_append, hdata, hcode, hhead, hmiddle, hend, htail,
    List.append_nil, List.nil_append]

/-- Without its comments, the text of a unit has the lines that are no comments. -/
theorem textLines_bare (h : unit.assemblyLines options = .ok lines)
    (hnames : ∀ name ∈ unit.names, Text.IsLine name) :
    (unit.textLines lines).filter (fun line => !Text.isComment line) =
      unit.textLines (Assembly.bare lines) := by
  have hdata : (unit.data.map Datum.line).filter (fun line => !Text.isComment line) =
      unit.data.map Datum.line :=
    List.filter_eq_self.mpr fun line hline => by simp [(isLine_of_mem_data hnames hline).2]
  have hcode : (lines.map Assembly.Line.content).filter (fun line => !Text.isComment line) =
      (Assembly.bare lines).map Assembly.Line.content :=
    filter_contents h hnames not
  rw [textLines, textLines, ← hdata, ← hcode]
  simp only [List.filter_append, List.filter_filter, Bool.and_self]
  rfl

end CodeUnit

/-- Comments change nothing. Without them, the text of a unit is the one with comments from which
these are taken out, if no name has a line feed. There is one comment for every instruction that
has an effect, and in their order. -/
theorem annotations_transparent (unit : CodeUnit) (hnames : ∀ name ∈ unit.names, Text.IsLine name)
    (colour colour' : Bool) :
    unit.assemble ⟨false, colour'⟩ = (unit.assemble ⟨true, colour⟩).map Text.withoutComments ∧
      ∀ text, unit.assemble ⟨true, colour⟩ = .ok text →
        Text.comments text =
          (unit.code.filter fun instruction => instruction.operation ≠ .nop).map
            fun instruction => "    # " ++ Terminal.withoutControls
              (Styled.render colour (Listing.operation instruction.operation)) := by
  rw [CodeUnit.assemble_eq, CodeUnit.assemble_eq, CodeUnit.assemblyLines_bare unit ⟨true, colour⟩]
  cases hlines : unit.assemblyLines ⟨true, colour⟩ with
  | error fault => exact ⟨rfl, fun text htext => by contradiction⟩
  | ok lines =>
    have hline := CodeUnit.isLine_of_mem_textLines hlines hnames
    have hne : unit.textLines lines ≠ [] := by simp [CodeUnit.textLines]
    constructor
    · refine congrArg Except.ok ?_
      rw [Text.withoutComments_ofLines hline hne, CodeUnit.textLines_bare hlines hnames]
    · rintro text htext
      obtain rfl := Except.ok.inj htext
      rw [Text.comments_ofLines hline hne, CodeUnit.comments_textLines hlines hnames]
      obtain ⟨all, hall, rfl⟩ := CodeUnit.exists_of_assemblyLines hlines
      rw [Assembly.Peephole.comments_kept, Assembly.comments_codeLines hall,
        Assembly.flatMap_annotationLines_eq_map, List.map_map]
      rfl

/-- The code that copies back reads the same without its comments, of which there are four. Two of
its moves are left out, each below a comment that parts it from its reverse. -/
theorem copyBack_transparent :
    (∀ name ∈ copyBack.names, Text.IsLine name) ∧
      copyBack.assemble ⟨false, false⟩ =
        (copyBack.assemble ⟨true, true⟩).map Text.withoutComments ∧
      ∃ text, copyBack.assemble ⟨true, true⟩ = .ok text ∧
        Text.comments text = ["    # fn main:", "    # b = a", "    # a = b", "    # ret a"] := by
  have hnames : ∀ name ∈ copyBack.names, Text.IsLine name := by decide
  obtain ⟨hbare, hcomments⟩ := annotations_transparent copyBack hnames true false
  exact ⟨hnames, hbare, _, rfl, (hcomments _ rfl).trans (by decide)⟩

end ThreeAddress
