import ThreeAddress.Assembly.Peephole

/-!
# Writing lines

Lines are written one after the other. What has been written is not looked at again: a writer
counts the lines, but for comments, and remembers the latest move with the count at which it was
made. A move is left out if it is the reverse of the one that is remembered and nothing has been
counted in between; it is then remembered in the place of the other.
-/

namespace ThreeAddress

namespace Assembly

/-- A move that was made. -/
structure LastMove where
  /-- The move. -/
  move : Move
  /-- How many lines had been counted when the move was written. -/
  position : Nat

/-- Assembly text in the making. -/
structure Writer where
  /-- The text. -/
  output : String
  /-- How many instructions and labels have been written. -/
  position : Nat
  /-- The latest move. -/
  lastMove? : Option LastMove

namespace Writer

/-- The start of a text. -/
def empty : Writer := ⟨"", 0, none⟩

/-- The start of a text that follows a move, if there is one. -/
def following : Option Move → Writer
  | some move => ⟨"", 1, some ⟨move, 0⟩⟩
  | none => empty

/-- Whether a move only undoes the line before. -/
def undoes (writer : Writer) (move : Move) : Bool :=
  match writer.lastMove? with
  | some last => decide (last.position + 1 = writer.position ∧ last.move = move.reverse)
  | none => false

/-- Writes a line without counting it. -/
def add (writer : Writer) (line : Line) : Writer :=
  { writer with output := writer.output ++ line.text }

/-- Writes a line and counts it. -/
def count (writer : Writer) (line : Line) : Writer :=
  { writer.add line with position := writer.position + 1 }

/-- Writes a move, unless it only undoes the line before. -/
def make (writer : Writer) (move : Move) : Writer :=
  if writer.undoes move then
    { writer with lastMove? := writer.lastMove?.map fun last => { last with move := move } }
  else
    { writer.count (.instruction (.mov move.source move.destination)) with
      lastMove? := some ⟨move, writer.position⟩ }

/-- Writes a line, if it is not left out. -/
def write (writer : Writer) : Line → Writer
  | .comment text => writer.add (.comment text)
  | .instruction (.mov source destination) => writer.make ⟨source, destination⟩
  | line => writer.count line

end Writer

end Assembly

end ThreeAddress
