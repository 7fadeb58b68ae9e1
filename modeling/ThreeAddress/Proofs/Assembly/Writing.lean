import ThreeAddress.Proofs.Assembly.Annotations
import Mathlib.Data.List.Induction

/-!
# What a writer leaves out

A writer never looks back: it counts lines and remembers one move. All the same it leaves out a
move exactly if the latest line before, comments apart, is the reverse of that move, no matter
whether that line was itself written or left out. Everything else is written as it is.

The invariant is that the move that is remembered was made before the current count, so that one
more line is enough to make it stale.
-/

namespace ThreeAddress

namespace Assembly

/-- The latest of some lines that is no comment. -/
def latest? (lines : List Line) : Option Line :=
  lines.reverse.find? fun line => !line.isComment

/-- A line is a move, and the latest line before it that is no comment is the reverse move. -/
def Line.Reverses (earlier : List Line) (line : Line) : Prop :=
  ∃ source destination, line = .instruction (.mov source destination) ∧
    latest? earlier = some (.instruction (.mov destination source))

/-- The only lines that are moves are those of moves. -/
theorem Line.move?_eq_some_iff {line : Line} {move : Move} :
    line.move? = some move ↔ line = .instruction (.mov move.source move.destination) := by
  constructor
  · intro h
    cases line with
    | label | comment => contradiction
    | instruction content =>
      cases content with
      | mov source destination =>
        obtain rfl := Option.some.inj h
        rfl
      | _ => contradiction
  · rintro rfl
    rfl

/-- A line has a text. -/
theorem Line.text_ne_empty (line : Line) : line.text ≠ "" := by
  intro h
  have hlist := congrArg String.toList h
  cases line <;> simp [Line.text] at hlist

/-- The text of two parts is the text of each. -/
theorem linesText_append (first second : List Line) :
    linesText (first ++ second) = linesText first ++ linesText second := by
  simp [linesText]

namespace Peephole

/-- One line more is the latest, unless it is a comment. -/
theorem latest?_concat (lines : List Line) (line : Line) :
    latest? (lines ++ [line]) = if line.isComment then latest? lines else some line := by
  cases h : line.isComment <;> simp [latest?, h]

/-- The move made directly before is the latest line that is no comment, if that is a move. -/
theorem afterLines_eq_latest (lines : List Line) :
    afterLines none lines = (latest? lines).bind Line.move? := by
  induction lines using List.reverseRecOn with
  | nil => rfl
  | append_singleton lines line ih =>
    rw [afterLines, List.foldl_append, latest?_concat]
    cases line with
    | comment text => exact ih
    | label name | instruction content => rfl

/-- A line is left out exactly if it reverses the lines before it. -/
theorem keeps_eq_false_iff (earlier : List Line) (line : Line) :
    keeps (afterLines none earlier) line = false ↔ line.Reverses earlier := by
  rw [keeps, afterLines_eq_latest]
  cases hmove : line.move? with
  | none =>
    refine iff_of_false (by simp) ?_
    rintro ⟨source, destination, rfl, -⟩
    contradiction
  | some move =>
    obtain rfl := Line.move?_eq_some_iff.mp hmove
    constructor
    · intro h
      have hlatest : (latest? earlier).bind Line.move? = some move.reverse := by simpa using h
      obtain ⟨line, hline, hreverse⟩ := Option.bind_eq_some_iff.mp hlatest
      exact ⟨_, _, rfl, by rw [hline, Line.move?_eq_some_iff.mp hreverse]; rfl⟩
    · rintro ⟨source, destination, heq, hlatest⟩
      obtain rfl : move = ⟨source, destination⟩ := by
        cases move
        simpa using heq
      simp [hlatest, Line.move?, Move.reverse]

instance (earlier : List Line) (line : Line) : Decidable (line.Reverses earlier) :=
  decidable_of_iff _ (keeps_eq_false_iff earlier line)

end Peephole

namespace Writer

variable {writer : Writer}

/-- The move that was made directly before what is written next. -/
def moved? (writer : Writer) : Option Move :=
  match writer.lastMove? with
  | some last => if last.position + 1 = writer.position then some last.move else none
  | none => none

/-- What is remembered was written before. -/
def Sound (writer : Writer) : Prop :=
  ∀ last, writer.lastMove? = some last → last.position < writer.position

/-- A move only undoes the line before if that was the reverse move. -/
theorem undoes_eq (writer : Writer) (move : Move) :
    writer.undoes move = decide (writer.moved? = some move.reverse) := by
  unfold undoes moved?
  cases writer.lastMove? with
  | none => rfl
  | some last => by_cases h : last.position + 1 = writer.position <;> simp [h]

/-- A line that is counted makes what is remembered stale. -/
theorem moved?_count (h : writer.Sound) (line : Line) : (writer.count line).moved? = none := by
  change (match writer.lastMove? with
    | some last => if last.position + 1 = writer.position + 1 then some last.move else none
    | none => none) = none
  cases hlast : writer.lastMove? with
  | none => rfl
  | some last =>
    have hlt := h last hlast
    exact if_neg (by omega)

/-- A line that is counted leaves sound what is remembered. -/
theorem Sound.count (h : writer.Sound) (line : Line) : (writer.count line).Sound :=
  fun last hlast => Nat.lt_succ_of_lt (h last hlast)

/-- What a writer does with a line: it is written, or left out if it is a move that undoes the line
before. Either way a move counts as made. -/
structure Wrote (writer : Writer) (line : Line) (next : Writer) : Prop where
  output_eq : next.output =
    writer.output ++ if Peephole.keeps writer.moved? line then line.text else ""
  moved?_eq : next.moved? = Peephole.after writer.moved? line
  sound : next.Sound

/-- A move is written unless it undoes the line before. -/
theorem wrote_make (h : writer.Sound) (move : Move) :
    Wrote writer (.instruction (.mov move.source move.destination)) (writer.make move) := by
  have hundoes := writer.undoes_eq move
  unfold make
  split
  · next hyes =>
    -- the line is left out, and the move takes the place of the one that is remembered
    rw [hyes] at hundoes
    have hmoved := of_decide_eq_true hundoes.symm
    obtain ⟨output, position, lastMove?⟩ := writer
    cases lastMove? with
    | none => contradiction
    | some last =>
      have hposition : last.position + 1 = position := by
        by_contra hne
        simp [moved?, hne] at hmoved
      refine ⟨?_, ?_, ?_⟩
      · simp [Peephole.keeps, Line.move?, hmoved]
      · simp [moved?, hposition, Peephole.after, Line.move?]
      · intro last' hlast'
        obtain rfl := Option.some.inj hlast'
        exact h last rfl
  · next hno =>
    rw [Bool.not_eq_true] at hno
    rw [hno] at hundoes
    have hmoved := of_decide_eq_false hundoes.symm
    refine ⟨?_, ?_, ?_⟩
    · simp [Peephole.keeps, Line.move?, hmoved, Writer.count, add]
    · exact if_pos rfl
    · intro last hlast
      obtain rfl := Option.some.inj hlast
      exact Nat.lt_succ_self _

/-- A line that is no move is written, and makes what is remembered stale unless it is a
comment. -/
theorem wrote_write (h : writer.Sound) (line : Line) : Wrote writer line (writer.write line) := by
  have hcount : ∀ line : Line, line.move? = none → Peephole.after writer.moved? line = none →
      Wrote writer line (writer.count line) := by
    intro line hmove hafter
    refine ⟨?_, (moved?_count h line).trans hafter.symm, h.count line⟩
    rw [Peephole.keeps_of_move?_eq_none hmove]
    rfl
  cases line with
  | comment text => exact ⟨rfl, rfl, h⟩
  | label name => exact hcount _ rfl rfl
  | instruction content =>
    cases content with
    | mov source destination => exact wrote_make h ⟨source, destination⟩
    | _ => exact hcount _ rfl rfl

/-- Writes lines one after the other. -/
def writeAll (writer : Writer) (lines : List Line) : Writer := lines.foldl write writer

/-- Lines of two parts are written part by part. -/
theorem writeAll_append (writer : Writer) (first second : List Line) :
    writer.writeAll (first ++ second) = (writer.writeAll first).writeAll second :=
  List.foldl_append

/-- What is written of some lines are those of them that are kept. -/
theorem wrote_writeAll (h : writer.Sound) (lines : List Line) :
    (writer.writeAll lines).output =
        writer.output ++ linesText (Peephole.kept writer.moved? lines) ∧
      (writer.writeAll lines).moved? = Peephole.afterLines writer.moved? lines ∧
      (writer.writeAll lines).Sound := by
  induction lines generalizing writer with
  | nil => exact ⟨by simp [writeAll, Peephole.kept, linesText], rfl, h⟩
  | cons line rest ih =>
    have hwrote := wrote_write h line
    obtain ⟨houtput, hmoved, hsound⟩ := ih hwrote.sound
    refine ⟨?_, ?_, hsound⟩
    · change ((writer.write line).writeAll rest).output = _
      rw [houtput, hwrote.output_eq, hwrote.moved?_eq, Peephole.kept]
      split
      · simp [linesText, String.append_assoc]
      · simp
    · change ((writer.write line).writeAll rest).moved? = _
      rw [hmoved, hwrote.moved?_eq]
      rfl

/-- A writer that starts remembers nothing. -/
theorem sound_empty : empty.Sound := fun _ h => by contradiction

/-- A line is added to what was written before it, unless it reverses that. -/
theorem output_writeAll_concat (earlier : List Line) (line : Line) :
    (empty.writeAll (earlier ++ [line])).output =
      (empty.writeAll earlier).output ++ if line.Reverses earlier then "" else line.text := by
  obtain ⟨-, hmoved, hsound⟩ := wrote_writeAll sound_empty earlier
  have hkeeps := Peephole.keeps_eq_false_iff earlier line
  have hempty : empty.moved? = none := rfl
  rw [writeAll_append, writeAll, List.foldl_cons, List.foldl_nil,
    (wrote_write hsound line).output_eq, hmoved, hempty]
  cases hkept : Peephole.keeps (Peephole.afterLines none earlier) line with
  | false => rw [if_neg Bool.false_ne_true, if_pos (hkeeps.mp hkept)]
  | true =>
    have hreverses : ¬ line.Reverses earlier := by rw [← hkeeps, hkept]; decide
    rw [if_pos rfl, if_neg hreverses]

/-- Everything is written in order but the lines that reverse what is before them. -/
theorem output_writeAll (lines : List Line) :
    (empty.writeAll lines).output = String.join (lines.mapIdx fun index line =>
      if line.Reverses (lines.take index) then "" else line.text) := by
  induction lines using List.reverseRecOn with
  | nil => rfl
  | append_singleton lines line ih =>
    have hearlier : lines.mapIdx (fun index other =>
        if other.Reverses ((lines ++ [line]).take index) then "" else other.text) =
        lines.mapIdx (fun index other =>
          if other.Reverses (lines.take index) then "" else other.text) := by
      refine List.mapIdx_eq_mapIdx_iff.mpr fun index hindex => ?_
      rw [List.take_append_of_le_length (Nat.le_of_lt hindex)]
    rw [output_writeAll_concat, ih, List.mapIdx_concat, hearlier, List.take_left' rfl]
    simp

end Writer

namespace Step

/-- Taking a step of writing is writing its lines. -/
theorem writeTo_eq (writer : Writer) (step : Step) :
    step.writeTo writer = writer.writeAll step.lines := by
  refine Step.rec (motive_1 := fun step => ∀ writer : Writer,
      step.writeTo writer = writer.writeAll step.lines)
    (motive_2 := fun steps => ∀ writer : Writer,
      Step.writeAllTo writer steps = writer.writeAll (Step.linesOf steps))
    ?emit ?label ?comment ?mov ?lea ?push ?pop ?call ?nil ?cons step writer
  case call =>
    intro function inside ih writer
    rw [writeTo, ih, lines, callLines, Writer.writeAll_append, Writer.writeAll_append]
    rfl
  case cons =>
    intro step rest hstep hrest writer
    rw [writeAllTo, hstep, hrest, linesOf, Writer.writeAll_append]
  all_goals intros; rfl

/-- Taking steps of writing is writing their lines. -/
theorem writeAllTo_eq (writer : Writer) (steps : List Step) :
    Step.writeAllTo writer steps = writer.writeAll (Step.linesOf steps) := by
  induction steps generalizing writer with
  | nil => rfl
  | cons step rest ih => rw [writeAllTo, writeTo_eq, ih, linesOf, Writer.writeAll_append]

/-- The texts of some steps, put together, are the lines of the steps that are kept. -/
theorem join_take_textsFrom {writer : Writer} (h : writer.Sound) (steps : List Step)
    (count : Nat) : String.join ((Step.textsFrom writer steps).take count) =
      linesText (Peephole.kept writer.moved? (Step.linesOf (steps.take count))) := by
  induction steps generalizing writer count with
  | nil => simp [textsFrom, linesOf, Peephole.kept, linesText]
  | cons step rest ih =>
    cases count with
    | zero => simp [linesOf, Peephole.kept, linesText]
    | succ count =>
      -- what a writer adds does not depend on what it has written
      obtain ⟨houtput, hmoved, hsound⟩ :=
        @Writer.wrote_writeAll { writer with output := "" } h step.lines
      rw [textsFrom, writeTo_eq, List.take_succ_cons, String.join_cons, ih hsound, houtput, hmoved,
        List.take_succ_cons, linesOf, Peephole.kept_append, linesText_append]
      exact congrArg (· ++ _) String.empty_append

end Step

/-- Whatever steps of writing are taken, nested calls included, their lines are written one by one.
A line adds nothing if it is a move and the latest line before it that is no comment is the reverse
move, written or not, and adds its own text otherwise. So the text is made of the lines that are
kept, in order, as is the assembly of a program. -/
theorem steps_written_unless_reversed (steps : List Step) :
    let lines := Step.linesOf steps
    Step.writeAllTo .empty steps = Writer.empty.writeAll lines ∧
      (∀ index : Fin lines.length, ∃ text,
        (Writer.empty.writeAll (lines.take (index + 1))).output =
          (Writer.empty.writeAll (lines.take index)).output ++ text ∧
        (text = "" ↔ lines[index].Reverses (lines.take index)) ∧
        (text = "" ∨ text = lines[index].text)) ∧
      (Step.writeAllTo .empty steps).output = String.join (lines.mapIdx fun index line =>
        if line.Reverses (lines.take index) then "" else line.text) ∧
      (Step.writeAllTo .empty steps).output = linesText (Peephole.kept none lines) ∧
      ∀ count, String.join ((Step.texts none steps).take count) =
        (Step.writeAllTo .empty (steps.take count)).output := by
  have htext : ∀ lines, (Writer.empty.writeAll lines).output =
      linesText (Peephole.kept none lines) := fun lines => by
    rw [(Writer.wrote_writeAll Writer.sound_empty lines).1]
    exact String.empty_append
  refine ⟨Step.writeAllTo_eq _ _, fun index => ?_, ?_, ?_, fun count => ?_⟩
  · refine ⟨if (Step.linesOf steps)[index].Reverses ((Step.linesOf steps).take index) then ""
      else (Step.linesOf steps)[index].text, ?_, ?_, ?_⟩
    · rw [← Writer.output_writeAll_concat, List.take_add_one, List.getElem?_eq_getElem index.isLt]
      rfl
    · split
      · next hreverses => exact iff_of_true rfl hreverses
      · next hreverses => exact iff_of_false (Line.text_ne_empty _) hreverses
    · split
      · exact .inl rfl
      · exact .inr rfl
  · rw [Step.writeAllTo_eq, Writer.output_writeAll]
  · rw [Step.writeAllTo_eq, htext]
  · rw [Step.writeAllTo_eq, htext, Step.texts, Writer.following,
      Step.join_take_textsFrom Writer.sound_empty]
    rfl

/-- A value goes to `_y` inside a call and back, twice; only the first move is written. -/
example :
    Step.texts none
      [.call "f" [.mov (.register .rax) (.memory "_y"), .mov (.memory "_y") (.register .rax)],
        .mov (.memory "_x") (.register .rax), .comment "back", .mov (.register .rax) (.memory "_x"),
        .mov (.memory "_x") (.register .rax)] =
      ["    pushq %rbp\n    call f\n    movq %rax, _y(%rip)\n    popq %rbp\n",
        "    movq _x(%rip), %rax\n", "    # back\n", "", ""] := by
  decide

end Assembly

end ThreeAddress
