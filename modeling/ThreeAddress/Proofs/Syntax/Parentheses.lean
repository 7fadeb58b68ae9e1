import ThreeAddress.Proofs.Syntax.Grammar
import ThreeAddress.Proofs.Syntax.Tokens

/-!
# Printed expressions

An expression is printed with just the parentheses that the grammar asks for. So it is read back from
its text as itself. It has no spelling with fewer tokens than the printed one: leaving out any two of
them, such as a pair of parentheses, leaves something else or nothing at all.
-/

namespace ThreeAddress

/-- The level of the grammar at which an expression stands. -/
def Expr.level : Expr → Nat
  | .binary op _ _ => op.level
  | _ => 5

/-- An expression stands at one of the five levels. -/
theorem Expr.level_bounds (expr : Expr) : 1 ≤ expr.level ∧ expr.level ≤ 5 := by
  cases expr with
  | binary op lhs rhs => exact ⟨op.level_bounds.1, Nat.le_succ_of_le op.level_bounds.2⟩
  | _ => simp [level]

/-- The tokens of a phrase as it is printed. An expression of too low a level is put into
parentheses. -/
def Phrase.tokens : Phrase → List ExprToken
  | .expr level value => ExprToken.parens (decide (value.level < level)) value.tokens
  | .args values => Expr.argTokens values

/-- Operators bind as tightly as the grammar says. -/
theorem BinaryOp.precedence_eq_level (op : BinaryOp) : op.precedence = op.level := by
  cases op <;> rfl

/-- The comparisons are the operators of the second level. -/
theorem BinaryOp.kind_eq_relational_iff (op : BinaryOp) : op.kind = .relational ↔ op.level = 2 := by
  cases op <;> decide

/-- Parentheses are printed around operands of too low a level. -/
theorem BinaryOp.grouped_eq (op : BinaryOp) (side : Side) (operand : Expr) :
    op.grouped side operand = decide (operand.level < op.operandLevel side) := by
  have hunit : ¬ 5 < op.operandLevel side := by
    have := op.level_bounds.2
    have := (op.operandLevel_bounds side).2
    omega
  cases operand with
  | literal | scalar | element | call | input => exact (decide_eq_false hunit).symm
  | binary inner lhs rhs =>
    change _ = decide (inner.level < op.operandLevel side)
    rw [grouped, Bool.eq_iff_iff]
    simp only [precedence_eq_level, kind_eq_relational_iff, Bool.or_eq_true, Bool.and_eq_true,
      decide_eq_true_eq]
    cases side with
    | left =>
      simp only [operandLevel, reduceCtorEq, false_or]
      split <;> omega
    | right =>
      simp only [operandLevel, true_or, and_true]
      omega

/-- An operation is printed as its operands, each as a phrase of the level that is asked for. -/
theorem Expr.tokens_binary (op : BinaryOp) (lhs rhs : Expr) :
    (Expr.binary op lhs rhs).tokens = (Phrase.expr (op.operandLevel .left) lhs).tokens ++
      .op op :: (Phrase.expr (op.operandLevel .right) rhs).tokens := by
  rw [tokens, BinaryOp.grouped_eq, BinaryOp.grouped_eq]
  rfl

namespace Phrase

/-- What is spelled on a level is spelled on all levels below. -/
theorem SpelledBy.lower {low level : Nat} {expr : Expr} {tokens : List ExprToken}
    (h : (Phrase.expr level expr).SpelledBy tokens) (hle : low ≤ level) :
    (Phrase.expr low expr).SpelledBy tokens := by
  induction hle with
  | refl => exact h
  | step _ ih => exact ih h.tighter

/-- Parentheses bring an expression to the level that is asked for. -/
theorem spelledBy_tokens_expr {expr : Expr} (h : (Phrase.expr expr.level expr).SpelledBy expr.tokens)
    {level : Nat} (hle : level ≤ 5) :
    (Phrase.expr level expr).SpelledBy (Phrase.expr level expr).tokens := by
  by_cases hlow : expr.level < level
  · have hgroup : (Phrase.expr 5 expr).SpelledBy (.leftParen :: expr.tokens ++ [.rightParen]) :=
      .group (h.lower expr.level_bounds.1)
    simpa [tokens, ExprToken.parens, hlow] using hgroup.lower hle
  · simpa [tokens, ExprToken.parens, hlow] using h.lower (Nat.le_of_not_lt hlow)

/-- Arguments are spelled by their tokens if each of them is. -/
theorem spelledBy_argTokens {args : List Expr}
    (h : ∀ arg ∈ args, (Phrase.expr arg.level arg).SpelledBy arg.tokens) :
    (Phrase.args args).SpelledBy (Expr.argTokens args) := by
  induction args with
  | nil => exact .noArgs
  | cons arg rest ih =>
    obtain ⟨harg, hrest⟩ := List.forall_mem_cons.mp h
    have hlow := harg.lower arg.level_bounds.1
    cases rest with
    | nil => exact .lastArg hlow
    | cons next rest => exact .moreArgs hlow (ih hrest)

/-- An expression is spelled by its tokens, on its own level. -/
theorem spelledBy_tokens (expr : Expr) : (Phrase.expr expr.level expr).SpelledBy expr.tokens := by
  induction expr with
  | literal value => exact .literal value
  | scalar name => exact .scalar name
  | element array index ih => exact .element array (ih.lower index.level_bounds.1)
  | call function args ih => exact .call function (spelledBy_argTokens ih)
  | input type => exact .input type
  | binary op lhs rhs ihl ihr =>
    rw [Expr.tokens_binary]
    have hle : ∀ side, op.operandLevel side ≤ 5 := fun side =>
      Nat.le_trans (op.operandLevel_bounds side).2 (Nat.succ_le_succ op.level_bounds.2)
    exact .binary rfl (spelledBy_tokens_expr ihl (hle .left)) (spelledBy_tokens_expr ihr (hle .right))

/-- A phrase of a higher level is printed no shorter. -/
theorem length_tokens_mono (expr : Expr) {low high : Nat} (h : low ≤ high) :
    (Phrase.expr low expr).tokens.length ≤ (Phrase.expr high expr).tokens.length := by
  by_cases hlow : expr.level < low
  · simp [tokens, ExprToken.parens, hlow, Nat.lt_of_lt_of_le hlow h]
  · have hplain : (Phrase.expr low expr).tokens = expr.tokens := by
      simp [tokens, ExprToken.parens, hlow]
    rw [hplain, tokens, ExprToken.parens]
    split
    · simp only [List.length_append, List.length_cons]
      omega
    · exact Nat.le_refl _

/-- On the first level, nothing is put into parentheses. -/
theorem tokens_expr_one (expr : Expr) : (Phrase.expr 1 expr).tokens = expr.tokens := by
  have hlow : ¬ expr.level < 1 := Nat.not_lt.mpr expr.level_bounds.1
  simp [tokens, ExprToken.parens, hlow]

/-- No tokens that spell a phrase are fewer than those that are printed. -/
theorem SpelledBy.length_tokens_le {phrase : Phrase} {tokens : List ExprToken}
    (h : phrase.SpelledBy tokens) : phrase.tokens.length ≤ tokens.length := by
  induction h with
  | literal | scalar | input => exact Nat.le_refl 1
  | element array _ ih =>
    rw [tokens_expr_one] at ih
    simp [Phrase.tokens, ExprToken.parens, Expr.level, Expr.tokens]
    omega
  | call function _ ih =>
    simp only [Phrase.tokens] at ih
    simp [Phrase.tokens, ExprToken.parens, Expr.level, Expr.tokens]
    omega
  | @group expr tokens _ ih =>
    rw [tokens_expr_one] at ih
    simp only [Phrase.tokens, ExprToken.parens]
    split <;> simp <;> omega
  | tighter _ ih => exact Nat.le_trans (length_tokens_mono _ (Nat.le_succ _)) ih
  | @binary op level lhs rhs left right hlevel _ _ ihl ihr =>
    subst hlevel
    have hown : (Phrase.expr op.level (.binary op lhs rhs)).tokens = (Expr.binary op lhs rhs).tokens := by
      simp [Phrase.tokens, ExprToken.parens, Expr.level]
    rw [hown, Expr.tokens_binary]
    simp only [List.length_append, List.length_cons]
    omega
  | noArgs => exact Nat.le_refl 0
  | lastArg _ ih =>
    rw [tokens_expr_one] at ih
    exact ih
  | moreArgs _ _ ih ihrest =>
    rw [tokens_expr_one] at ih
    simp only [Phrase.tokens] at ihrest
    simp [Phrase.tokens, Expr.argTokens]
    omega

end Phrase

namespace Expr

/-- An expression is read from a text if it is read from the tokens of that text. -/
def ReadFromText (expr : Expr) (text : List ExprUnit) : Prop :=
  ∃ tokens, ExprToken.scan text = some tokens ∧ expr.ReadFrom tokens

/-- An expression is read from its tokens. -/
theorem readFrom_tokens (expr : Expr) : expr.ReadFrom expr.tokens :=
  (Phrase.spelledBy_tokens expr).lower expr.level_bounds.1

/-- No tokens from which an expression is read are fewer than those that are printed. -/
theorem ReadFrom.length_tokens_le {expr : Expr} {tokens : List ExprToken}
    (h : expr.ReadFrom tokens) : expr.tokens.length ≤ tokens.length := by
  simpa [Phrase.tokens_expr_one] using Phrase.SpelledBy.length_tokens_le h

/-- What is read from the text of an expression is what is read from its tokens. -/
theorem readFromText_units_iff (other expr : Expr) :
    other.ReadFromText expr.units ↔ other.ReadFrom expr.tokens := by
  simp [ReadFromText, expr.scan_units]

/-- The text of an expression is read back as the expression and as nothing else, and without a pair
of its parentheses it is not read back. -/
theorem text_read_back (expr : Expr) :
    String.join (expr.units.map ExprUnit.text) = expr.text ∧
      (∀ other : Expr, other.ReadFromText expr.units ↔ other = expr) ∧
      ∀ before inside after,
        expr.units = before ++ .char '(' :: inside ++ .char ')' :: after →
          ¬ expr.ReadFromText (before ++ inside ++ after) := by
  refine ⟨expr.join_units, ?_, ?_⟩
  · intro other
    rw [readFromText_units_iff]
    constructor
    · intro hother
      exact hother.unique expr.readFrom_tokens
    · rintro rfl
      exact other.readFrom_tokens
  · rintro before inside after hunits ⟨tokens, hscan, hshorter⟩
    obtain ⟨front, middle, back, htokens, hrest⟩ := exists_tokens_of_units hunits
    obtain rfl := Option.some.inj (hrest.symm.trans hscan)
    have hle := hshorter.length_tokens_le
    rw [htokens] at hle
    simp only [List.length_append, List.length_cons] at hle
    omega

end Expr

/-- A comparison of two comparisons, `(a < b) == (c - (d - e) < 0)`. -/
def comparing : Expr :=
  .binary .eq (.binary .lt (.scalar "a") (.scalar "b"))
    (.binary .lt (.binary .sub (.scalar "c") (.binary .sub (.scalar "d") (.scalar "e")))
      (.literal (.int 0)))

/-- The same with the difference taken from left to right, `(a < b) == (c - d - e < 0)`. -/
def comparingRegrouped : Expr :=
  .binary .eq (.binary .lt (.scalar "a") (.scalar "b"))
    (.binary .lt (.binary .sub (.binary .sub (.scalar "c") (.scalar "d")) (.scalar "e"))
      (.literal (.int 0)))

/-- The comparison of comparisons is read back from its text. Without the inner parentheses another
expression is read, and without those around the first comparison at least not the same. -/
theorem comparing_read_back :
    let signs : String → List ExprUnit := fun text => text.toList.map .char
    let first : List ExprUnit := .name "a" :: signs " < " ++ [.name "b"]
    let inner : List ExprUnit := .name "d" :: signs " - " ++ [.name "e"]
    let front : List ExprUnit := signs " == (" ++ .name "c" :: signs " - "
    let back : List ExprUnit := signs " < " ++ .literal (.int 0) :: signs ")"
    let grouped : List ExprUnit := .char '(' :: inner ++ .char ')' :: back
    comparing.text = "(a < b) == (c - (d - e) < 0)" ∧
      comparing.units = .char '(' :: first ++ .char ')' :: front ++ grouped ∧
      comparing.ReadFromText comparing.units ∧
      comparingRegrouped.ReadFromText (.char '(' :: first ++ .char ')' :: front ++ inner ++ back) ∧
      ¬ comparing.ReadFromText (.char '(' :: first ++ .char ')' :: front ++ inner ++ back) ∧
      ¬ comparing.ReadFromText (first ++ front ++ grouped) := by
  intro signs first inner front back grouped
  obtain ⟨-, hread, hshorter⟩ := Expr.text_read_back comparing
  have hregrouped := ((Expr.text_read_back comparingRegrouped).2.1 comparingRegrouped).mpr rfl
  refine ⟨by decide, rfl, (hread comparing).mpr rfl, hregrouped, ?_, ?_⟩
  · exact hshorter (.char '(' :: first ++ .char ')' :: front) inner back rfl
  · exact hshorter [] first (front ++ grouped) rfl

end ThreeAddress
