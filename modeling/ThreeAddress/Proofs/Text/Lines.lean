import ThreeAddress.Proofs.Text.Characters

/-!
# Lines of a text

A text is read as lines, with a line feed between any two of them. Texts of one line each, put one
under the other, are read back as the same lines. A comment that stands on a line of its own begins
with four blanks, a hash sign and a blank.
-/

namespace ThreeAddress

namespace Text

/-- A text without a line feed. -/
abbrev IsLine (text : String) : Prop := All (· ≠ '\n') text

/-- The lines of a text, from one line feed to the next. -/
def lines (text : String) : List String :=
  (text.toList.splitOn '\n').map String.ofList

/-- Lines one under the other. -/
def ofLines (lines : List String) : String := "\n".intercalate lines

/-- Whether a line is a comment. -/
def isComment (line : String) : Bool := "    # ".toList.isPrefixOf line.toList

/-- The comments of a text, in order. -/
def comments (text : String) : List String := (lines text).filter isComment

/-- A text without its comments. -/
def withoutComments (text : String) : String :=
  ofLines ((lines text).filter fun line => !isComment line)

/-- A line feed does not show. -/
theorem ne_lineFeed_of_isGraphic {c : Char} (h : isGraphic c = true) : c ≠ '\n' := by
  rintro rfl
  exact absurd h (by decide)

/-- Characters that show make a line. -/
theorem Shows.isLine {text : String} (h : Shows text) : IsLine text :=
  All.mono h fun _ => ne_lineFeed_of_isGraphic

/-- Lines that are put one under the other are read back. -/
theorem lines_ofLines {contents : List String} (h : ∀ line ∈ contents, IsLine line)
    (hne : contents ≠ []) : lines (ofLines contents) = contents := by
  have hsplit : (ofLines contents).toList.splitOn '\n' = contents.map String.toList := by
    rw [ofLines, String.toList_intercalate]
    refine List.splitOn_intercalate _ (List.forall_mem_map.mpr fun line hline hmem => ?_)
      (by simpa using hne)
    exact h line hline _ hmem rfl
  simp [lines, hsplit, Function.comp_def]

/-- Two groups of lines stand one under the other. -/
theorem ofLines_append {first second : List String} (hfirst : first ≠ []) (hsecond : second ≠ []) :
    ofLines (first ++ second) = ofLines first ++ "\n" ++ ofLines second :=
  String.intercalate_append_of_ne_nil hfirst hsecond

/-- Lines that end in a line feed each have an empty line behind the last. -/
theorem join_eq_ofLines (contents : List String) :
    String.join (contents.map (· ++ "\n")) = ofLines (contents ++ [""]) := by
  induction contents with
  | nil => rfl
  | cons line rest ih =>
    rw [List.map_cons, String.join_cons, ih, List.cons_append, ofLines, ofLines,
      String.intercalate_cons_of_ne_nil (by simp)]

/-- A line that begins as comments do is one. -/
theorem isComment_append (text : String) : isComment ("    # " ++ text) = true := by
  rw [isComment, String.toList_append, List.isPrefixOf_iff_prefix]
  exact List.prefix_append _ _

/-- A line that does not begin with a blank is no comment. -/
theorem isComment_eq_false {line : String} (h : line.toList.head? ≠ some ' ') :
    isComment line = false := by
  rw [isComment]
  cases hline : line.toList with
  | nil => rfl
  | cons c rest =>
    rw [hline] at h
    have hc : c ≠ ' ' := fun heq => h (congrArg some heq)
    simp [List.isPrefixOf, hc.symm]

section Comments

variable {contents : List String}

/-- The comments among lines are found again in the text. -/
theorem comments_ofLines (h : ∀ line ∈ contents, IsLine line) (hne : contents ≠ []) :
    comments (ofLines contents) = contents.filter isComment := by
  rw [comments, lines_ofLines h hne]

/-- The lines that are no comments make up the text without its comments. -/
theorem withoutComments_ofLines (h : ∀ line ∈ contents, IsLine line) (hne : contents ≠ []) :
    withoutComments (ofLines contents) = ofLines (contents.filter fun line => !isComment line) := by
  rw [withoutComments, lines_ofLines h hne]

end Comments

end Text

end ThreeAddress
