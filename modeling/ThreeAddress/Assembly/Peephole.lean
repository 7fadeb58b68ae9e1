import ThreeAddress.Assembly.Basic

/-!
# Moves that undo each other

A move is left out if it only sends a value straight back to where it came from, that is, if the
line before it is the same move in the opposite direction. Comments do not count as lines here.
A move that has been left out counts as made: its destination holds the value already.

Because a label counts, control can only come to a move that is left out from the move before.
-/

namespace ThreeAddress

namespace Assembly

/-- A move from one operand to another. -/
structure Move where
  /-- Where the value is read. -/
  source : Operand
  /-- Where the value is written. -/
  destination : Operand
  deriving DecidableEq

/-- The move in the opposite direction. -/
def Move.reverse (move : Move) : Move := ⟨move.destination, move.source⟩

/-- The move that a line is, if it is one. -/
def Line.move? : Line → Option Move
  | .instruction (.mov source destination) => some ⟨source, destination⟩
  | _ => none

namespace Peephole

/-- Whether a line is kept, given the move made directly before it. -/
def keeps (moved? : Option Move) (line : Line) : Bool :=
  match line.move? with
  | some move => decide (moved? ≠ some move.reverse)
  | none => true

/-- The move made directly before the line that follows a given one. -/
def after (moved? : Option Move) : Line → Option Move
  | .comment _ => moved?
  | line => line.move?

/-- The move made directly before what follows a sequence of lines. -/
def afterLines (moved? : Option Move) (lines : List Line) : Option Move :=
  lines.foldl after moved?

/-- The lines that are kept. -/
def kept (moved? : Option Move) : List Line → List Line
  | [] => []
  | line :: rest =>
    if keeps moved? line then line :: kept (after moved? line) rest
    else kept (after moved? line) rest

/-- Sequences are treated one after the other. -/
theorem kept_append (moved? : Option Move) (first second : List Line) :
    kept moved? (first ++ second)
      = kept moved? first ++ kept (afterLines moved? first) second := by
  induction first generalizing moved? with
  | nil => rfl
  | cons line rest ih =>
    simp only [List.cons_append, kept, afterLines, List.foldl_cons]
    split
    · rw [ih]; rfl
    · rw [ih]; rfl

/-- A line that is no move is always kept. -/
theorem keeps_of_move?_eq_none {line : Line} (h : line.move? = none) (moved? : Option Move) :
    keeps moved? line = true := by
  simp [keeps, h]

end Peephole

end Assembly

end ThreeAddress
