import ThreeAddress.Proofs.Assembly.Defined

/-!
# Static storage and the meaning of names

Lowering and the checks look a name up by its first declaration, of whatever kind, and inside a
function its parameters come before that. The data section is put together differently: it goes
through variables and arrays, parameters, string constants and temporaries one after another, and
keeps the first of what shares a key. Both agree: the words under the symbol of a variable, an array
or a parameter are those of the declaration that its name means, however often and as whatever it is
declared again, and nothing else is under that symbol.
-/

namespace ThreeAddress

section Firsts

variable [DecidableEq β] {key : α → β} {list : List α} {element : α} {wanted : β}

end Firsts

/-- Whether some code writes a temporary. -/
def Code.Writes (code : Code) (id : Temporary) : Prop :=
  ∃ instruction ∈ code, instruction.operation.destination? = some (.temporary id)

namespace CodeUnit

/-- The definitions that the data section has under a symbol. -/
def definedAt (unit : CodeUnit) (symbol : String) : List Datum :=
  unit.data.filter fun datum => datum.symbol = symbol

/-- The data section agrees with what names mean. -/
structure LaidOutAsMeant (unit : CodeUnit) : Prop where
  /-- No symbol is defined twice. -/
  symbols_distinct : (unit.data.map Datum.symbol).Nodup
  /-- A name that means a variable has the word of that variable. -/
  scalar : ∀ {type name initial},
    (Scope.mk unit.decls).find? name = some (.scalar type name initial) →
    unit.definedAt (Symbol.ofVariable name) = [.words (Symbol.ofVariable name) type [initial]]
  /-- A name that means an array has the initial values of that array, and then zeros up to its
  size. -/
  array : ∀ {type name size initials},
    (Scope.mk unit.decls).find? name = some (.array type name size initials) →
    ∃ zeros, unit.definedAt (Symbol.ofVariable name) =
        [.words (Symbol.ofVariable name) type (initials ++ zeros)] ∧
      (∀ value ∈ zeros, value = Literal.zero type) ∧
      (initials ++ zeros).length = max size initials.length
  /-- Each parameter of a function that its name means has one word, of the type that the name of
  the parameter has inside the function. -/
  parameter : ∀ {result function params param},
    (Scope.mk unit.decls).find? function = some (.function result function params) →
    param ∈ params →
    ∃ decl, ((Scope.mk unit.decls).withParams params).find? param.name = some decl ∧
      unit.definedAt (Symbol.ofParameter function param.name) =
        [.words (Symbol.ofParameter function param.name) decl.type [Literal.zero decl.type]]
  /-- A temporary that is written has one word. -/
  temporary : ∀ {id}, unit.code.Writes id →
    unit.definedAt id.symbol = [.words id.symbol .int [Literal.zero .int]]
  /-- A string constant has its text. -/
  constant : ∀ {id content}, unit.strings.find? id = some content →
    unit.definedAt id.symbol = [.text id.symbol content]
  /-- No other number has anything. -/
  unused : ∀ {id}, ¬unit.code.Writes id → unit.strings.find? id = none →
    unit.definedAt id.symbol = []

section Meanings

variable {unit : CodeUnit}

end Meanings

end CodeUnit

end ThreeAddress
