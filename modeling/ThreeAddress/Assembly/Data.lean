import ThreeAddress.Assembly.Symbol
import ThreeAddress.Code.Unit
import ThreeAddress.Number.Notation
import ThreeAddress.Text.Asciz

/-!
# Static storage

The data section reserves what the code refers to: the first declaration of every variable and
array name, every parameter, the string constants, the temporaries that are written, and the
formats for input and output. A word holds an integer, a character's code point or a float; an
initial value of another type is converted, and a string has nothing to convert.
-/

namespace ThreeAddress

/-- The elements of a list that no earlier element shares its key with. -/
def firstsBy [DecidableEq β] (key : α → β) : List α → List α
  | [] => []
  | head :: rest => head :: (firstsBy key rest).filter fun later => key later ≠ key head

/-- The integer that a literal becomes in storage of integers or characters. -/
def Literal.toInt64 : Literal → Int64
  | .int value => value
  | .float value => value.toInt64
  | .char value => Int64.ofNat value.toNat
  | .string _ => 0

/-- The float that a literal becomes in storage of floats. -/
def Literal.toBinary64 : Literal → Binary64
  | .int value => .ofInt64 value
  | .float value => value
  | .char value => .ofChar value
  | .string _ => ⟨0⟩

/-- A literal as a word of storage of a type. -/
def Literal.wordText (type : ScalarType) (literal : Literal) : String :=
  match type with
  | .float => FloatNotation.listing.text literal.toBinary64
  | .int | .char => toString literal.toInt64

/-- The directive that reserves words of a type. -/
def ScalarType.directive : ScalarType → String
  | .float => ".double"
  | .int | .char => ".quad"

/-- A definition of the data section. -/
inductive Datum where
  /-- Words of a type. -/
  | words (symbol : String) (type : ScalarType) (values : List Literal)
  /-- A string. -/
  | text (symbol content : String)

namespace Datum

/-- The symbol that is defined. -/
def symbol : Datum → String
  | .words symbol _ _ => symbol
  | .text symbol _ => symbol

/-- The line of a definition. -/
def line : Datum → String
  | .words symbol _ [] => symbol ++ ":"
  | .words symbol type values =>
    symbol ++ ": " ++ type.directive ++ " " ++ ", ".intercalate (values.map (Literal.wordText type))
  | .text symbol content => symbol ++ ": .asciz \"" ++ Asciz.escape content ++ "\""

/-- The storage of a variable or an array; one that has fewer initial values than elements is
filled up with zeros. -/
def ofDecl? : Decl → Option Datum
  | .scalar type name initial => some (.words (Symbol.ofVariable name) type [initial])
  | .array type name size initials =>
    some (.words (Symbol.ofVariable name) type
      (initials ++ List.replicate (size - initials.length) (Literal.zero type)))
  | .function .. => none

/-- The storage of a function's parameter. -/
def ofParam (function : String) (param : Param) : Datum :=
  .words (Symbol.ofParameter function param.name) param.type [Literal.zero param.type]

/-- The storage of a temporary. -/
def ofTemporary (id : Temporary) : Datum :=
  .words id.symbol .int [Literal.zero .int]

end Datum

/-- Whether a declaration reserves storage under its own name. -/
def Decl.isStored : Decl → Bool
  | .function .. => false
  | _ => true

/-- The parameters of all declared functions, each with the function's name. -/
def allParams (decls : List Decl) : List (String × Param) :=
  decls.flatMap fun decl =>
    match decl with
    | .function _ name params => params.map fun param => (name, param)
    | _ => []

/-- The temporaries that some code writes, in order. -/
def writtenTemporaries (code : Code) : List Temporary :=
  code.filterMap fun instruction =>
    match instruction.operation.destination? with
    | some (.temporary id) => some id
    | _ => none

/-- The formats for input and output. -/
def formatData : List Datum :=
  [.text (Symbol.ofFormat .int) "%ld", .text (Symbol.ofFormat .float) "%lf",
    .text (Symbol.ofFormat .char) " %c", .text Symbol.printFormat "%s"]

/-- The definitions of the data section. Only the first declaration of a name and the first
parameter of a name in a function are reserved, because a name means nothing else. -/
def CodeUnit.data (unit : CodeUnit) : List Datum :=
  (firstsBy Decl.name (unit.decls.filter Decl.isStored)).filterMap Datum.ofDecl?
    ++ (firstsBy (fun entry => (entry.1, entry.2.name)) (allParams unit.decls)).map
      (fun entry => Datum.ofParam entry.1 entry.2)
    ++ unit.strings.entries.map (fun entry => .text entry.1.symbol entry.2)
    ++ (firstsBy id (writtenTemporaries unit.code)).map Datum.ofTemporary
    ++ formatData

/-- Only elements of the list are kept. -/
theorem mem_of_mem_firstsBy [DecidableEq β] {key : α → β} {list : List α} {element : α}
    (h : element ∈ firstsBy key list) : element ∈ list := by
  induction list with
  | nil => exact h
  | cons head rest ih =>
    rcases List.mem_cons.mp h with rfl | h
    · exact List.mem_cons_self
    · exact List.mem_cons_of_mem head (ih (List.mem_filter.mp h).1)

/-- No key is lost. -/
theorem exists_mem_firstsBy [DecidableEq β] {key : α → β} {list : List α} {element : α}
    (h : element ∈ list) : ∃ first ∈ firstsBy key list, key first = key element := by
  induction list with
  | nil => contradiction
  | cons head rest ih =>
    rcases List.mem_cons.mp h with rfl | h
    · exact ⟨element, List.mem_cons_self, rfl⟩
    · obtain ⟨first, hfirst, hkey⟩ := ih h
      by_cases hhead : key first = key head
      · exact ⟨head, List.mem_cons_self, hhead ▸ hkey⟩
      · exact ⟨first, List.mem_cons_of_mem head (List.mem_filter.mpr ⟨hfirst, by simpa⟩), hkey⟩

/-- No key is left twice. -/
theorem nodup_map_firstsBy [DecidableEq β] (key : α → β) (list : List α) :
    ((firstsBy key list).map key).Nodup := by
  induction list with
  | nil => exact List.nodup_nil
  | cons head rest ih =>
    rw [firstsBy, List.map_cons, List.nodup_cons]
    constructor
    · simp
    · exact ih.sublist (List.filter_sublist.map key)

end ThreeAddress
