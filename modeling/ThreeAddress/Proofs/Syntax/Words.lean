import ThreeAddress.Proofs.Assembly.Symbols
import ThreeAddress.Proofs.Lowering.Pairs
import ThreeAddress.Syntax.Print

/-!
# The words of a statement

The text of a statement is taken apart into words and signs, with the printed expressions in it as
units. A word goes on for as long as there are letters, digits and underscores; blanks and line ends
are dropped. What is found are the pieces from which the statement was put together, provided that
the names in it are identifiers and none of the keywords: no two words are printed without something
in between.
-/

namespace ThreeAddress

/-- A unit of printed text: a character, or a printed expression as a whole. -/
inductive TextUnit where
  | char (value : Char)
  | expr (value : Expr)

/-- The text of a unit. -/
def TextUnit.text : TextUnit → String
  | .char value => String.singleton value
  | .expr value => value.text

/-- The units of a piece. -/
def StmtPiece.units : StmtPiece → List TextUnit
  | .expr value => [.expr value]
  | piece => piece.text.toList.map .char

/-- The text of a statement in units. -/
def Stmt.units (stmt : Stmt) : List TextUnit :=
  (stmt.pieces 0).flatMap StmtPiece.units

/-- The units of a piece, one after another, are its text. -/
theorem StmtPiece.join_units (piece : StmtPiece) :
    String.join (piece.units.map TextUnit.text) = piece.text := by
  have hchars : ∀ text : String, String.join ((text.toList.map .char).map TextUnit.text) = text := by
    intro text
    apply String.toList_inj.mp
    simp [String.toList_join, List.flatMap_map, Function.comp_def, TextUnit.text]
  cases piece with
  | expr value => simp [units, TextUnit.text, text]
  | _ => exact hchars _

/-- The units of a statement, one after another, are its text. -/
theorem Stmt.join_units (stmt : Stmt) : String.join (stmt.units.map TextUnit.text) = stmt.text := by
  rw [units, text]
  induction stmt.pieces 0 with
  | nil => rfl
  | cons piece rest ih =>
    rw [List.flatMap_cons, List.map_append, String.join_append, StmtPiece.join_units, ih,
      List.map_cons, String.join_cons]

/-- The keywords. -/
def Keyword.all : List Keyword :=
  [.print, .ret, .if, .else, .while]

/-- The tokens that statements are read from. -/
inductive StmtToken where
  | keyword (word : Keyword)
  | name (spelling : String)
  | expr (value : Expr)
  | sign (value : Char)

namespace StmtToken

/-- A word is a keyword, or else a name. -/
def ofWord (spelling : String) : StmtToken :=
  match Keyword.all.find? fun word => word.text = spelling with
  | some word => .keyword word
  | none => .name spelling

/-- The characters that words are made of. -/
def isWordChar (char : Char) : Bool :=
  char.isAlphanum || char = '_'

/-- The token of a word that ends, if one has begun. -/
def ended : List Char → List StmtToken
  | [] => []
  | word => [ofWord (String.ofList word)]

/-- The tokens of a text behind the beginning of a word. -/
def scan (word : List Char) : List TextUnit → List StmtToken
  | [] => ended word
  | .expr value :: rest => ended word ++ .expr value :: scan [] rest
  | .char value :: rest =>
    if isWordChar value then scan (word ++ [value]) rest
    else if value = ' ' ∨ value = '\n' then ended word ++ scan [] rest
    else ended word ++ .sign value :: scan [] rest

end StmtToken

namespace StmtPiece

/-- The tokens of a piece: one, or none if it is blank. -/
def tokens : StmtPiece → List StmtToken
  | .keyword word => [.keyword word]
  | .name spelling => [.name spelling]
  | .expr value => [.expr value]
  | .equals => [.sign '=']
  | .semicolon => [.sign ';']
  | .leftParen => [.sign '(']
  | .rightParen => [.sign ')']
  | .leftBracket => [.sign '[']
  | .rightBracket => [.sign ']']
  | .leftBrace => [.sign '\x7b']
  | .rightBrace => [.sign '\x7d']
  | .space | .newline _ => []

/-- The pieces that are words. -/
def isWord : StmtPiece → Bool
  | .keyword _ | .name _ => true
  | _ => false

/-- Behind every word stands a piece that is none. -/
def Separated : List StmtPiece → Prop
  | [] => True
  | piece :: rest =>
    (piece.isWord = true → ∃ next ∈ rest.head?, next.isWord = false) ∧ Separated rest

/-- Pieces one after another. -/
theorem Separated.append {first second : List StmtPiece} (h : Separated first)
    (h' : Separated second) : Separated (first ++ second) := by
  induction first with
  | nil => exact h'
  | cons piece rest ih =>
    refine ⟨fun hword => ?_, ih h.2⟩
    obtain ⟨next, hnext, hplain⟩ := h.1 hword
    exact ⟨next, by simp [Option.mem_def.mp hnext], hplain⟩

/-- The head of a conditional or a loop is separated. -/
theorem separated_head (word : Keyword) (condition : Expr) : Separated (head word condition) := by
  simp [head, Separated, isWord]

end StmtPiece

/-- The members of a block are separated, if each of them is. -/
theorem Stmt.separated_memberPieces {body : List Stmt}
    (h : ∀ stmt ∈ body, ∀ level, StmtPiece.Separated (stmt.pieces level)) (level : Nat) :
    StmtPiece.Separated (Stmt.memberPieces level body) := by
  induction body with
  | nil => trivial
  | cons stmt rest ih =>
    obtain ⟨hstmt, hrest⟩ := List.forall_mem_cons.mp h
    rw [memberPieces]
    exact ⟨nofun, (hstmt level).append (ih hrest)⟩

/-- Whatever the statement, no two of its words are printed without something in between. -/
theorem Stmt.separated_pieces (stmt : Stmt) (level : Nat) :
    StmtPiece.Separated (stmt.pieces level) := by
  induction stmt generalizing level with
  | assign | assignElement | print | ret | empty =>
    simp [pieces, StmtPiece.Separated, StmtPiece.isWord]
  | ifThen condition positive ih =>
    rw [pieces]
    exact (StmtPiece.separated_head .if condition).append (ih level)
  | ifElse condition positive negative ihp ihn =>
    rw [pieces]
    have helse : StmtPiece.Separated [.space, .keyword .else, .space] := by
      simp [StmtPiece.Separated, StmtPiece.isWord]
    exact (((StmtPiece.separated_head .if condition).append (ihp level)).append helse).append
      (ihn level)
  | loop condition body ih =>
    rw [pieces]
    exact (StmtPiece.separated_head .while condition).append (ih level)
  | block body ih =>
    cases body with
    | nil => simp [pieces, StmtPiece.Separated, StmtPiece.isWord]
    | cons first rest =>
      rw [pieces]
      have hclose : StmtPiece.Separated [.newline level, .rightBrace] := by
        simp [StmtPiece.Separated, StmtPiece.isWord]
      exact ⟨nofun, (separated_memberPieces ih (level + 1)).append hclose⟩

/-- An identifier that is not a keyword. -/
def IsName (spelling : String) : Prop :=
  IsIdentifier spelling ∧ ∀ word ∈ Keyword.all, spelling ≠ word.text

instance : DecidablePred IsName := fun spelling =>
  inferInstanceAs (Decidable (IsIdentifier spelling ∧ _))

namespace StmtToken

/-- Characters of a word are collected. -/
theorem scan_word {chars : List Char} (h : ∀ char ∈ chars, isWordChar char = true)
    (word : List Char) (rest : List TextUnit) :
    scan word (chars.map .char ++ rest) = scan (word ++ chars) rest := by
  induction chars generalizing word with
  | nil => simp
  | cons char chars ih =>
    obtain ⟨hchar, hchars⟩ := List.forall_mem_cons.mp h
    simp [scan, hchar, ih hchars]

/-- Blanks behind a word are dropped. -/
theorem scan_blanks (count : Nat) (rest : List TextUnit) :
    scan [] (List.replicate count (.char ' ') ++ rest) = scan [] rest := by
  induction count with
  | zero => simp
  | succ count ih =>
    have hblank : isWordChar ' ' = false := by decide
    simpa [List.replicate_succ, scan, hblank, ended] using ih

/-- A piece that is no word ends the word in front of it, and its token follows. -/
theorem scan_plain {piece : StmtPiece} (h : piece.isWord = false) (word : List Char)
    (rest : List TextUnit) :
    scan word (piece.units ++ rest) = ended word ++ (piece.tokens ++ scan [] rest) := by
  cases piece with
  | keyword | name => cases h
  | expr value => simp [StmtPiece.units, StmtPiece.tokens, scan]
  | newline level =>
    have hbreak : isWordChar '\n' = false := by decide
    simp [StmtPiece.units, StmtPiece.text, StmtPiece.tokens, indentation, scan, hbreak, scan_blanks]
  | space =>
    have hblank : isWordChar ' ' = false := by decide
    simp [StmtPiece.units, StmtPiece.text, StmtPiece.tokens, scan, hblank]
  | equals | semicolon | leftParen | rightParen | leftBracket | rightBracket | leftBrace
  | rightBrace =>
    simp [StmtPiece.units, StmtPiece.text, StmtPiece.tokens, scan, isWordChar]

/-- A word that has ended is one token. -/
theorem ended_toList {spelling : String} (h : spelling ≠ "") :
    ended spelling.toList = [ofWord spelling] := by
  rw [ended, String.ofList_toList]
  simpa using h

/-- Keywords are made of word characters. -/
theorem isWordChar_of_keyword (word : Keyword) :
    ∀ char ∈ word.text.toList, isWordChar char = true := by
  have hall : word.text.toList.all isWordChar = true := by cases word <;> decide
  exact List.all_eq_true.mp hall

/-- So are names. -/
theorem isWordChar_of_name {spelling : String} (h : IsName spelling) :
    ∀ char ∈ spelling.toList, isWordChar char = true := by
  intro char hchar
  simpa [isWordChar] using h.1.2 char hchar

/-- A keyword is recognised. -/
theorem ofWord_keyword (word : Keyword) : ofWord word.text = .keyword word := by
  cases word <;> rfl

/-- A name is recognised. -/
theorem ofWord_name {spelling : String} (h : IsName spelling) : ofWord spelling = .name spelling := by
  have hnone : (Keyword.all.find? fun word => word.text = spelling) = none := by
    simp only [List.find?_eq_none, decide_eq_true_eq]
    intro word hword heq
    exact h.2 word hword heq.symm
  rw [ofWord, hnone]

/-- A piece that is a word is collected, and its token is there as soon as it ends. -/
theorem scan_word_piece {piece : StmtPiece} (h : piece.isWord = true)
    (hname : ∀ spelling, piece = .name spelling → IsName spelling) :
    ∃ word, ended word = piece.tokens ∧
      ∀ rest, scan [] (piece.units ++ rest) = scan word rest := by
  cases piece with
  | keyword word =>
    refine ⟨word.text.toList, ?_, fun rest => scan_word (isWordChar_of_keyword word) [] rest⟩
    rw [ended_toList (by cases word <;> decide), ofWord_keyword]
    rfl
  | name spelling =>
    have hproper := hname spelling rfl
    refine ⟨spelling.toList, ?_, fun rest => scan_word (isWordChar_of_name hproper) [] rest⟩
    rw [ended_toList hproper.1.1, ofWord_name hproper]
    rfl
  | _ => cases h

/-- From the units of separated pieces, their tokens are found. -/
theorem scan_pieces {pieces : List StmtPiece} (h : StmtPiece.Separated pieces)
    (hnames : ∀ spelling, .name spelling ∈ pieces → IsName spelling) :
    scan [] (pieces.flatMap StmtPiece.units) = pieces.flatMap StmtPiece.tokens := by
  induction pieces with
  | nil => rfl
  | cons piece rest ih =>
    have hrest := ih h.2 fun spelling hmem => hnames spelling (List.mem_cons_of_mem _ hmem)
    rw [List.flatMap_cons, List.flatMap_cons]
    cases hword : piece.isWord with
    | false =>
      rw [scan_plain hword, hrest]
      rfl
    | true =>
      -- the word goes on up to the next piece, which ends it
      obtain ⟨next, hnext, hplain⟩ := h.1 hword
      obtain ⟨more, rfl⟩ := List.head?_eq_some_iff.mp hnext
      obtain ⟨word, hended, hscan⟩ := scan_word_piece hword fun spelling heq =>
        hnames spelling (heq ▸ List.mem_cons_self)
      rw [List.flatMap_cons, scan_plain hplain] at hrest
      rw [hscan, List.flatMap_cons, scan_plain hplain, hended]
      exact congrArg (piece.tokens ++ ·) hrest

end StmtToken

namespace Stmt

/-- The name that a statement itself assigns to. -/
def target? : Stmt → Option String
  | .assign target _ => some target
  | .assignElement array _ _ => some array
  | _ => none

/-- The names that are assigned to in a statement, by itself or by its parts. -/
def assigned (stmt : Stmt) : List String :=
  stmt.parts.filterMap target?

/-- The names in a statement, outside of its expressions, are identifiers other than the keywords. -/
def WellNamed (stmt : Stmt) : Prop :=
  ∀ spelling ∈ stmt.assigned, IsName spelling

instance : DecidablePred WellNamed := fun stmt =>
  inferInstanceAs (Decidable (∀ spelling ∈ stmt.assigned, IsName spelling))

/-- The names in the pieces of a block are those that its members assign to. -/
theorem mem_assigned_of_name_mem_memberPieces {body : List Stmt} {spelling : String}
    (h : ∀ stmt ∈ body, ∀ level, .name spelling ∈ stmt.pieces level → spelling ∈ stmt.assigned)
    {level : Nat} (hmem : .name spelling ∈ memberPieces level body) :
    spelling ∈ (partsAll body).filterMap target? := by
  induction body with
  | nil => cases hmem
  | cons stmt rest ih =>
    obtain ⟨hstmt, hrest⟩ := List.forall_mem_cons.mp h
    have hcases : .name spelling ∈ stmt.pieces level ∨ .name spelling ∈ memberPieces level rest := by
      simpa [memberPieces] using hmem
    rw [partsAll, List.filterMap_append, List.mem_append]
    exact hcases.imp (hstmt level) (ih hrest)

/-- A name is printed only where the statement or a part of it assigns to it. -/
theorem mem_assigned_of_name_mem_pieces {stmt : Stmt} {level : Nat} {spelling : String}
    (h : .name spelling ∈ stmt.pieces level) : spelling ∈ stmt.assigned := by
  induction stmt generalizing level with
  | assign | assignElement => simpa [pieces, assigned, parts, target?] using h
  | print | ret | empty => simp [pieces] at h
  | ifThen condition positive ih | loop condition positive ih =>
    have hbranch : .name spelling ∈ positive.pieces level := by
      simpa [pieces, StmtPiece.head] using h
    exact ih hbranch
  | ifElse condition positive negative ihp ihn =>
    have hcases : .name spelling ∈ positive.pieces level ∨ .name spelling ∈ negative.pieces level := by
      simpa [pieces, StmtPiece.head] using h
    have hassigned : (ifElse condition positive negative).assigned =
        positive.assigned ++ negative.assigned := List.filterMap_append
    rw [hassigned, List.mem_append]
    exact hcases.imp ihp ihn
  | block body ih =>
    cases body with
    | nil => simp [pieces] at h
    | cons first rest =>
      have hmembers : .name spelling ∈ memberPieces (level + 1) (first :: rest) := by
        simpa [pieces] using h
      exact mem_assigned_of_name_mem_memberPieces (fun stmt hstmt _ hname => ih stmt hstmt hname)
        hmembers

/-- The tokens of the pieces that a statement is printed from, at a level. -/
def tokens (stmt : Stmt) (level : Nat) : List StmtToken :=
  (stmt.pieces level).flatMap StmtPiece.tokens

/-- From the text of a statement, the tokens of its pieces are found. -/
theorem scan_units {stmt : Stmt} (h : stmt.WellNamed) :
    StmtToken.scan [] stmt.units = stmt.tokens 0 := by
  exact StmtToken.scan_pieces (stmt.separated_pieces 0) fun spelling hmem =>
    h spelling (mem_assigned_of_name_mem_pieces hmem)

end Stmt

end ThreeAddress
