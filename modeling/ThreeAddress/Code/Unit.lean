import ThreeAddress.Code.Listing

/-!
# Code units

A program after lowering: its code, and what static storage has to be laid out for it.
-/

namespace ThreeAddress

/-- A lowered program. -/
structure CodeUnit where
  /-- The declarations of the program, which own the named storage. -/
  decls : List Decl
  /-- The string constants that the code refers to. -/
  strings : StringPool
  /-- The code of all functions, one after another. -/
  code : Code

/-- The listing of a lowered program. -/
def CodeUnit.listing (unit : CodeUnit) : Styled :=
  Listing.lines unit.strings unit.code

end ThreeAddress
