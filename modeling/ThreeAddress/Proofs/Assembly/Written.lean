import ThreeAddress.Proofs.Assembly.Names
import ThreeAddress.Proofs.Assembly.Storage

/-!
# Symbols as they are written

A line of assembly text that begins at the margin defines the symbol in front of its first colon. If
the names of a program hold neither blanks nor colons, the lines that are written define just what
the definitions of the data section and the labels are said to define. So what is said about these
symbols, and about the words under them, is true of the text: of the symbols as they are spelled, and
of the words behind the directive of their type.
-/

namespace ThreeAddress

namespace Text

/-- A text without blanks and colons. -/
abbrev IsBare (text : String) : Prop := All (fun c => c ≠ ':' ∧ c ≠ ' ') text

/-- The symbol that a line of assembly text defines, if it defines one: what stands in front of the
first colon, unless there are blanks. -/
def defined? (line : String) : Option String :=
  let front := line.toList.takeWhile (· ≠ ':')
  if ' ' ∈ front ∨ front = line.toList then none else some (String.ofList front)

/-- A symbol with a colon behind it is defined. -/
theorem defined?_append {symbol : String} (h : IsBare symbol) (rest : String) :
    defined? (symbol ++ ":" ++ rest) = some symbol := by
  have hlist : (symbol ++ ":" ++ rest).toList = symbol.toList ++ ':' :: rest.toList := by simp
  have hfront : (symbol.toList ++ ':' :: rest.toList).takeWhile (· ≠ ':') = symbol.toList := by
    rw [List.takeWhile_append_of_pos fun c hc => decide_eq_true (h c hc).1,
      List.takeWhile_cons_of_neg (by simp), List.append_nil]
  have hblank : ' ' ∉ symbol.toList := fun hmem => (h ' ' hmem).2 rfl
  have hcolon : symbol.toList ≠ symbol.toList ++ ':' :: rest.toList := by simp
  simp only [defined?, hlist, hfront, hblank, hcolon, or_self, if_false, String.ofList_toList]

/-- What stands behind the colon does not matter. -/
example : defined? "storage_1: .asciz \"a: b\"" = some "storage_1" := by decide

/-- A line that is indented defines nothing. -/
theorem defined?_indented (rest : String) : defined? (" " ++ rest) = none := by
  have hfront : ' ' ∈ (" " ++ rest).toList.takeWhile (· ≠ ':') := by
    simp
  exact if_pos (.inl hfront)

end Text

/-- The line of a definition defines its symbol. -/
theorem Datum.defined?_line {datum : Datum} (h : Text.IsBare datum.symbol) :
    Text.defined? datum.line = some datum.symbol := by
  obtain ⟨rest, -, hline⟩ := datum.exists_line_eq
  rw [hline]
  exact Text.defined?_append h rest

/-- A line of code that is written defines the label that it is. -/
theorem Assembly.Line.defined?_text {line : Line}
    (h : ∀ symbol, line.defined? = some symbol → Text.IsBare symbol) :
    Text.defined? line.text = line.defined? := by
  cases line with
  | label name =>
    have htext : (Line.label name).text = name ++ ":" ++ "\n" := by
      apply String.toList_inj.mp
      simp [text]
    rw [htext]
    exact Text.defined?_append (h name rfl) "\n"
  | instruction content =>
    have hindented : (Line.instruction content).text = " " ++ ("   " ++ content.text ++ "\n") := by
      apply String.toList_inj.mp
      simp [text]
    rw [hindented]
    exact Text.defined?_indented _
  | comment content =>
    have hindented : (Line.comment content).text = " " ++ ("   # " ++ content ++ "\n") := by
      apply String.toList_inj.mp
      simp [text]
    rw [hindented]
    exact Text.defined?_indented _

namespace CodeUnit

variable {unit : CodeUnit} {options : Assembly.Options} {lines : List Assembly.Line}

/-- The symbols that the written lines define, those of the data section and those of the code. -/
def writtenSymbols (unit : CodeUnit) (lines : List Assembly.Line) : List String :=
  (unit.data.map Datum.line ++ lines.map Assembly.Line.text).filterMap Text.defined?

/-- The written lines of the data section that define a symbol. -/
def linesAt (unit : CodeUnit) (symbol : String) : List String :=
  (unit.data.map Datum.line).filter fun line => Text.defined? line = some symbol

/-- The symbol of something is without blanks and colons if its names are. -/
theorem isBare_symbol {referent : Referent} (h : ∀ name ∈ referent.names, Text.IsBare name) :
    Text.IsBare referent.symbol := by
  refine Referent.all_symbol (fun c hc => ?_) h
  constructor <;> rintro rfl <;> exact absurd hc (by decide)

/-- The lines of the data section define the symbols that it is said to define. -/
theorem defined?_line_of_mem_data
    (hnames : ∀ decl ∈ unit.decls, ∀ name ∈ decl.names, Text.IsBare name) {datum : Datum}
    (h : datum ∈ unit.data) : Text.defined? datum.line = some datum.symbol := by
  obtain ⟨referent, hreferent, hsymbol⟩ : ∃ referent ∈ unit.reserved,
      referent.symbol = datum.symbol := by
    rw [← List.mem_map, ← symbols_data]
    exact List.mem_map_of_mem h
  refine Datum.defined?_line (hsymbol ▸ isBare_symbol fun name hname => ?_)
  obtain ⟨decl, hdecl, hmem⟩ := exists_decl_of_mem_reserved hreferent hname
  exact hnames decl hdecl name hmem

/-- The labels of a unit are without blanks and colons if the names in its code are. -/
theorem isBare_of_defined? (hlines : unit.assemblyLines options = .ok lines)
    (hnames : ∀ instruction ∈ unit.code, ∀ name ∈ instruction.operation.names, Text.IsBare name)
    {line : Assembly.Line} (hline : line ∈ lines) {symbol : String}
    (h : line.defined? = some symbol) : Text.IsBare symbol := by
  obtain ⟨all, hall, rfl⟩ := exists_of_assemblyLines hlines
  have hmem : symbol ∈ all.filterMap Assembly.Line.defined? :=
    List.mem_filterMap.mpr ⟨line, Assembly.Peephole.mem_of_mem_kept hline, h⟩
  rw [Assembly.defined_codeLines hall] at hmem
  obtain ⟨referent, hreferent, rfl⟩ := List.mem_map.mp hmem
  obtain ⟨instruction, hinstruction, hmark⟩ := List.mem_flatMap.mp hreferent
  exact isBare_symbol fun name hname =>
    hnames instruction hinstruction name (Assembly.mem_names_of_mem_marks hmark hname)

/-- The lines that are written define the symbols that are said to be defined, if no name of the unit
holds a blank or a colon. -/
theorem writtenSymbols_eq (hlines : unit.assemblyLines options = .ok lines)
    (hnames : ∀ name ∈ unit.names, Text.IsBare name) :
    unit.writtenSymbols lines = unit.definedSymbols lines := by
  obtain ⟨hdeclared, hcode⟩ := List.forall_mem_append.mp hnames
  have hdata : ∀ datum ∈ unit.data, Text.defined? datum.line = some datum.symbol :=
    fun datum => defined?_line_of_mem_data fun decl hdecl name hname =>
      hdeclared name (List.mem_flatMap.mpr ⟨decl, hdecl, hname⟩)
  have htext : ∀ line ∈ lines, Text.defined? line.text = line.defined? :=
    fun line hline => Assembly.Line.defined?_text fun symbol => isBare_of_defined? hlines
      (fun instruction hinstruction name hname =>
        hcode name (List.mem_flatMap.mpr ⟨instruction, hinstruction, hname⟩)) hline
  rw [writtenSymbols, definedSymbols, List.filterMap_append, List.filterMap_map,
    List.filterMap_map]
  rw [← List.filterMap_eq_map]
  exact congrArg₂ _ (List.filterMap_congr hdata) (List.filterMap_congr htext)

/-- The lines that define a symbol are those of the definitions under it. -/
theorem linesAt_eq (hnames : ∀ decl ∈ unit.decls, ∀ name ∈ decl.names, Text.IsBare name)
    (symbol : String) : unit.linesAt symbol = (unit.definedAt symbol).map Datum.line := by
  rw [linesAt, definedAt, List.filter_map]
  congr 1
  refine List.filter_congr fun datum hdatum => ?_
  simp [defined?_line_of_mem_data hnames hdatum]

/-- The data section is written as names are meant: there is one line for each symbol, with the words
behind the directive of the type. -/
structure WrittenAsMeant (unit : CodeUnit) : Prop where
  /-- A name that means a variable has the initial value of that variable. -/
  scalar : ∀ {type name initial},
    (Scope.mk unit.decls).find? name = some (.scalar type name initial) →
    unit.linesAt (Symbol.ofVariable name) =
      ["_" ++ name ++ ": " ++ type.directive ++ " " ++ initial.wordText type]
  /-- A name that means an array has the initial values of that array, and then zeros. An array
  without words has a line without a directive. -/
  array : ∀ {type name size initials},
    (Scope.mk unit.decls).find? name = some (.array type name size initials) →
    ∃ zeros, (∀ value ∈ zeros, value = Literal.zero type) ∧
      (initials ++ zeros).length = max size initials.length ∧
      unit.linesAt (Symbol.ofVariable name) =
        [if (initials ++ zeros).isEmpty then "_" ++ name ++ ":"
          else "_" ++ name ++ ": " ++ type.directive ++ " " ++
            ", ".intercalate ((initials ++ zeros).map (Literal.wordText type))]
  /-- A parameter has a zero, of the type that its name has inside the function. -/
  parameter : ∀ {result function params param},
    (Scope.mk unit.decls).find? function = some (.function result function params) →
    param ∈ params →
    ∃ decl, ((Scope.mk unit.decls).withParams params).find? param.name = some decl ∧
      unit.linesAt (Symbol.ofParameter function param.name) =
        ["_" ++ function ++ "." ++ param.name ++ ": " ++ decl.type.directive ++ " " ++
          (Literal.zero decl.type).wordText decl.type]
  /-- A temporary that is written has a zero. -/
  temporary : ∀ {id}, unit.code.Writes id →
    unit.linesAt id.symbol = ["storage_" ++ toString id.id.toNat ++ ": .quad 0"]
  /-- A string constant has its text. -/
  constant : ∀ {id content}, unit.strings.find? id = some content →
    unit.linesAt id.symbol =
      ["storage_" ++ toString id.id.toNat ++ ": .asciz \"" ++ Asciz.escape content ++ "\""]
  /-- No other number has anything. -/
  unused : ∀ {id}, ¬unit.code.Writes id → unit.strings.find? id = none →
    unit.linesAt id.symbol = []

/-- What is laid out as names are meant is written so, if no name holds a blank or a colon. -/
theorem LaidOutAsMeant.written (h : unit.LaidOutAsMeant)
    (hnames : ∀ decl ∈ unit.decls, ∀ name ∈ decl.names, Text.IsBare name) :
    unit.WrittenAsMeant := by
  have hlines := linesAt_eq hnames
  refine ⟨?scalar, ?array, ?parameter, ?temporary, ?constant, ?unused⟩
  case scalar =>
    intro type name initial hfind
    rw [hlines, h.scalar hfind]
    rfl
  case array =>
    intro type name size initials hfind
    obtain ⟨zeros, hdefined, hzeros, hlength⟩ := h.array hfind
    refine ⟨zeros, hzeros, hlength, ?_⟩
    rw [hlines, hdefined]
    cases initials ++ zeros <;> rfl
  case parameter =>
    intro result function params param hfunction hparam
    obtain ⟨decl, hdecl, hdefined⟩ := h.parameter hfunction hparam
    refine ⟨decl, hdecl, ?_⟩
    rw [hlines, hdefined]
    rfl
  case temporary =>
    intro id hwritten
    rw [hlines, h.temporary hwritten]
    have hzero : Literal.wordText .int (Literal.zero .int) = "0" := by decide
    refine congrArg (fun line => [line]) (String.toList_inj.mp ?_)
    simp [Datum.line, Temporary.symbol, ScalarType.directive, hzero]
  case constant =>
    intro id content hfound
    rw [hlines, h.constant hfound]
    rfl
  case unused =>
    intro id hunwritten hstring
    rw [hlines, h.unused hunwritten hstring]
    rfl

end CodeUnit

/-- In the assembly of a program the lines that are written define the symbols that are said to be
defined, if no name of the program holds a blank or a colon. -/
theorem Program.writtenSymbols_eq {program : Program} {unit : CodeUnit}
    (hlower : program.lower = .ok unit) (hnames : ∀ name ∈ program.names, Text.IsBare name)
    {options : Assembly.Options} {lines : List Assembly.Line}
    (hlines : unit.assemblyLines options = .ok lines) :
    unit.writtenSymbols lines = unit.definedSymbols lines := by
  refine CodeUnit.writtenSymbols_eq hlines (List.forall_mem_append.mpr ⟨?_, ?_⟩)
  · obtain ⟨code, after, -, rfl⟩ := Program.lower_eq_ok_iff.mp hlower
    exact (List.forall_mem_append.mp hnames).1
  · exact fun name hname => hnames name (Program.names_of_lower hlower hname)

end ThreeAddress
