import ThreeAddress.Syntax.Print

/-!
# The tokens of printed expressions

The text of an expression is taken apart into tokens, with names, literals and input as units.
Everything else is spelled in characters: an operator is read as far as it goes, so that `<=` is one
operator and not `<` with something behind it, and blanks are dropped. What is found are the tokens
from which the expression was put together, whatever they are, because no two of them are printed so
that they run into one another. The characters of a bracket are the bracket and nothing else.
-/

namespace ThreeAddress

/-- A unit of a printed expression: a character, or a name, a literal or input as a whole. -/
inductive ExprUnit where
  | char (value : Char)
  | literal (value : Literal)
  | name (spelling : String)
  | input (type : ScalarType)
  deriving DecidableEq

/-- The text of a unit. -/
def ExprUnit.text : ExprUnit → String
  | .char value => String.singleton value
  | .literal value => value.text
  | .name spelling => spelling
  | .input type => "input(" ++ type.text ++ ")"

namespace ExprToken

/-- The units of a token. -/
def units : ExprToken → List ExprUnit
  | .literal value => [.literal value]
  | .name spelling => [.name spelling]
  | .input type => [.input type]
  | token => token.text.toList.map .char

/-- The units of a token, one after another, are its text. -/
theorem join_units (token : ExprToken) :
    String.join (token.units.map ExprUnit.text) = token.text := by
  have hchars : ∀ text : String, String.join ((text.toList.map .char).map ExprUnit.text) = text := by
    intro text
    apply String.toList_inj.mp
    simp [String.toList_join, List.flatMap_map, Function.comp_def, ExprUnit.text]
  cases token with
  | literal | name | input => simp [units, ExprUnit.text, text]
  | _ => exact hchars _

/-- The token that is spelled by one character. -/
def ofChar? : Char → Option ExprToken
  | '+' => some (.op .add)
  | '-' => some (.op .sub)
  | '*' => some (.op .mul)
  | '/' => some (.op .div)
  | '<' => some (.op .lt)
  | '>' => some (.op .gt)
  | '&' => some (.op .and)
  | '|' => some (.op .or)
  | '~' => some (.op .xor)
  | '(' => some .leftParen
  | ')' => some .rightParen
  | '[' => some .leftBracket
  | ']' => some .rightBracket
  | ',' => some .comma
  | _ => none

/-- The tokens of a text; none, if there is something in it that is no token. -/
def scan : List ExprUnit → Option (List ExprToken)
  | [] => some []
  | .literal value :: rest => (scan rest).map (.literal value :: ·)
  | .name spelling :: rest => (scan rest).map (.name spelling :: ·)
  | .input type :: rest => (scan rest).map (.input type :: ·)
  | .char ' ' :: rest => scan rest
  | .char '<' :: .char '=' :: rest => (scan rest).map (.op .le :: ·)
  | .char '>' :: .char '=' :: rest => (scan rest).map (.op .ge :: ·)
  | .char '=' :: .char '=' :: rest => (scan rest).map (.op .eq :: ·)
  | .char '!' :: .char '=' :: rest => (scan rest).map (.op .ne :: ·)
  | .char value :: rest =>
    match ofChar? value with
    | some token => (scan rest).map (token :: ·)
    | none => none

/-- A token is found at the front of its units. -/
theorem scan_units_append (token : ExprToken) (rest : List ExprUnit) :
    scan (token.units ++ rest) = (scan rest).map (token :: ·) := by
  cases token with
  | op sign => cases sign <;> rfl
  | _ => rfl

/-- From the units of some tokens, the tokens are found. -/
theorem scan_flatMap_units (tokens : List ExprToken) : scan (tokens.flatMap units) = some tokens := by
  induction tokens with
  | nil => rfl
  | cons token rest ih => rw [List.flatMap_cons, scan_units_append, ih, Option.map_some]

/-- Wherever the character of a bracket stands, the bracket does. -/
theorem exists_of_flatMap_units (bracket : ExprToken) {value : Char}
    (hbracket : bracket.units = [.char value])
    (honly : ∀ token, .char value ∈ token.units → token = bracket) {tokens : List ExprToken}
    {before after : List ExprUnit} (h : tokens.flatMap units = before ++ .char value :: after) :
    ∃ front back, tokens = front ++ bracket :: back ∧ front.flatMap units = before ∧
      back.flatMap units = after := by
  induction tokens generalizing before with
  | nil => simp at h
  | cons token rest ih =>
    rw [List.flatMap_cons] at h
    rcases List.append_eq_append_iff.mp h with ⟨middle, rfl, hmiddle⟩ | ⟨middle, hunits, hmiddle⟩
    · obtain ⟨front, back, rfl, rfl, rfl⟩ := ih hmiddle
      exact ⟨token :: front, back, rfl, rfl, rfl⟩
    · cases middle with
      | nil =>
        obtain ⟨front, back, rfl, hfront, rfl⟩ := @ih [] hmiddle.symm
        refine ⟨token :: front, back, rfl, ?_, rfl⟩
        rw [List.flatMap_cons, hfront, hunits, List.append_nil, List.append_nil]
      | cons unit middle =>
        -- the character stands among the units of the token, which is then the bracket
        obtain ⟨rfl, hafter⟩ := List.cons_eq_cons.mp hmiddle
        obtain rfl := honly token (by simp [hunits])
        rw [hbracket] at hunits
        obtain ⟨rfl, rfl⟩ : before = [] ∧ middle = [] := by
          cases before with
          | nil => exact ⟨rfl, (List.cons_eq_cons.mp hunits).2.symm⟩
          | cons unit before => simp at hunits
        exact ⟨[], rest, rfl, rfl, hafter.symm⟩

end ExprToken

/-- The text of an expression in units. -/
def Expr.units (expr : Expr) : List ExprUnit := expr.tokens.flatMap ExprToken.units

/-- The units of an expression, one after another, are its text. -/
theorem Expr.join_units (expr : Expr) : String.join (expr.units.map ExprUnit.text) = expr.text := by
  rw [units, text]
  induction expr.tokens with
  | nil => rfl
  | cons token rest ih =>
    rw [List.flatMap_cons, List.map_append, String.join_append, ExprToken.join_units, ih,
      List.map_cons, String.join_cons]

/-- From the text of an expression, the tokens are found that it was put together from. -/
theorem Expr.scan_units (expr : Expr) : ExprToken.scan expr.units = some expr.tokens :=
  ExprToken.scan_flatMap_units expr.tokens

/-- Without a pair of parentheses, the other tokens are found. -/
theorem Expr.exists_tokens_of_units {expr : Expr} {before inside after : List ExprUnit}
    (h : expr.units = before ++ .char '(' :: inside ++ .char ')' :: after) :
    ∃ front middle back, expr.tokens = front ++ .leftParen :: middle ++ .rightParen :: back ∧
      ExprToken.scan (before ++ inside ++ after) = some (front ++ middle ++ back) := by
  have honly : ∀ token : ExprToken,
      (.char '(' ∈ token.units → token = .leftParen) ∧
        (.char ')' ∈ token.units → token = .rightParen) := by
    intro token
    cases token with
    | op sign => cases sign <;> decide
    | _ => simp [ExprToken.units, ExprToken.text]
  rw [List.append_assoc, List.cons_append] at h
  obtain ⟨front, rest, htokens, rfl, hrest⟩ :=
    ExprToken.exists_of_flatMap_units .leftParen rfl (fun token => (honly token).1) h
  obtain ⟨middle, back, rfl, rfl, rfl⟩ :=
    ExprToken.exists_of_flatMap_units .rightParen rfl (fun token => (honly token).2)
      hrest
  refine ⟨front, middle, back, by rw [htokens, List.append_assoc, List.cons_append], ?_⟩
  rw [← List.flatMap_append, ← List.flatMap_append, ExprToken.scan_flatMap_units]

end ThreeAddress
