import ThreeAddress.Syntax.Print

/-!
# The grammar of expressions

Four levels of operators, brackets and calls, as rules for which tokens spell which expression. The
rules leave no choice: two expressions that are spelled by the same tokens are the same. The reason
is that an operator of the loosest level outside of all brackets can only be the one at the root, and
of several such operators only the last.
-/

namespace ThreeAddress

/-- The level at which an operator stands in the grammar. -/
def BinaryOp.level : BinaryOp → Nat
  | .mul | .div => 4
  | .add | .sub => 3
  | .lt | .gt | .le | .ge | .eq | .ne => 2
  | .and | .or | .xor => 1

/-- The level from which an operand of an operator is taken. Operators associate to the left, so what
stands on the right binds more tightly; comparisons do not associate, so what stands on the left of
one does as well. -/
def BinaryOp.operandLevel (op : BinaryOp) : Side → Nat
  | .left => if op.level = 2 then op.level + 1 else op.level
  | .right => op.level + 1

/-- What can be spelled by tokens. -/
inductive Phrase where
  /-- An expression whose operators bind at least as tightly as a level, outside of brackets. -/
  | expr (level : Nat) (value : Expr)
  /-- The arguments of a call. -/
  | args (values : List Expr)

/-- The rules of the grammar. An expression that is not put together by an operator is of a fifth
level, above those of the operators. -/
inductive Phrase.SpelledBy : Phrase → List ExprToken → Prop
  | literal (value : Literal) : SpelledBy (.expr 5 (.literal value)) [.literal value]
  | scalar (name : String) : SpelledBy (.expr 5 (.scalar name)) [.name name]
  | input (type : ScalarType) : SpelledBy (.expr 5 (.input type)) [.input type]
  | element (array : String) {index : Expr} {tokens : List ExprToken} :
      SpelledBy (.expr 1 index) tokens →
      SpelledBy (.expr 5 (.element array index))
        (.name array :: .leftBracket :: tokens ++ [.rightBracket])
  | call (function : String) {args : List Expr} {tokens : List ExprToken} :
      SpelledBy (.args args) tokens →
      SpelledBy (.expr 5 (.call function args))
        (.name function :: .leftParen :: tokens ++ [.rightParen])
  | group {expr : Expr} {tokens : List ExprToken} :
      SpelledBy (.expr 1 expr) tokens →
      SpelledBy (.expr 5 expr) (.leftParen :: tokens ++ [.rightParen])
  | tighter {level : Nat} {expr : Expr} {tokens : List ExprToken} :
      SpelledBy (.expr (level + 1) expr) tokens → SpelledBy (.expr level expr) tokens
  | binary {op : BinaryOp} {level : Nat} {lhs rhs : Expr} {left right : List ExprToken} :
      op.level = level →
      SpelledBy (.expr (op.operandLevel .left) lhs) left →
      SpelledBy (.expr (op.operandLevel .right) rhs) right →
      SpelledBy (.expr level (.binary op lhs rhs)) (left ++ .op op :: right)
  | noArgs : SpelledBy (.args []) []
  | lastArg {arg : Expr} {tokens : List ExprToken} :
      SpelledBy (.expr 1 arg) tokens → SpelledBy (.args [arg]) tokens
  | moreArgs {arg next : Expr} {args : List Expr} {tokens rest : List ExprToken} :
      SpelledBy (.expr 1 arg) tokens → SpelledBy (.args (next :: args)) rest →
      SpelledBy (.args (arg :: next :: args)) (tokens ++ .comma :: rest)

/-- An expression is read from tokens if they spell it at the loosest level. -/
def Expr.ReadFrom (expr : Expr) (tokens : List ExprToken) : Prop :=
  (Phrase.expr 1 expr).SpelledBy tokens

/-- Operators stand on the lower four levels. -/
theorem BinaryOp.level_bounds (op : BinaryOp) : 1 ≤ op.level ∧ op.level ≤ 4 := by
  cases op <;> decide

/-- Operands are taken from the operator's own level or the one above it. -/
theorem BinaryOp.operandLevel_bounds (op : BinaryOp) (side : Side) :
    op.level ≤ op.operandLevel side ∧ op.operandLevel side ≤ op.level + 1 := by
  cases side with
  | left =>
    simp only [operandLevel]
    split <;> omega
  | right => simp only [operandLevel]; omega

namespace ExprToken

/-- How many brackets a token opens, counting those that it closes as negative. -/
def nesting : ExprToken → Int
  | .leftParen | .leftBracket => 1
  | .rightParen | .rightBracket => -1
  | _ => 0

/-- How many brackets are open behind some tokens. -/
def depth : List ExprToken → Int
  | [] => 0
  | token :: rest => token.nesting + depth rest

/-- Brackets that are opened one after another add up. -/
@[simp] theorem depth_append (first second : List ExprToken) :
    depth (first ++ second) = depth first + depth second := by
  induction first with
  | nil => simp [depth]
  | cons token rest ih => simp [depth, ih, Int.add_assoc]

/-- All brackets are closed at the end, and none is closed before it has been opened. -/
structure Balanced (tokens : List ExprToken) : Prop where
  depth_eq : depth tokens = 0
  depth_nonneg : ∀ before after, tokens = before ++ after → 0 ≤ depth before

namespace Balanced

/-- No tokens are balanced. -/
theorem nil : Balanced [] where
  depth_eq := rfl
  depth_nonneg before after h := by simp [(List.append_eq_nil_iff.mp h.symm).1, depth]

/-- A token that is no bracket is balanced. -/
theorem cons {token : ExprToken} {tokens : List ExprToken} (h : Balanced tokens)
    (htoken : token.nesting = 0) : Balanced (token :: tokens) where
  depth_eq := by simp [depth, htoken, h.depth_eq]
  depth_nonneg before after heq := by
    cases before with
    | nil => simp [depth]
    | cons first rest =>
      obtain ⟨rfl, hrest⟩ := List.cons_eq_cons.mp heq
      have := h.depth_nonneg rest after hrest
      simpa [depth, htoken] using this

/-- Balanced tokens one after another. -/
theorem append {first second : List ExprToken} (h : Balanced first) (h' : Balanced second) :
    Balanced (first ++ second) where
  depth_eq := by simp [h.depth_eq, h'.depth_eq]
  depth_nonneg before after heq := by
    rcases List.append_eq_append_iff.mp heq with ⟨middle, rfl, hsecond⟩ | ⟨middle, rfl, hafter⟩
    · have := h'.depth_nonneg middle after hsecond
      simpa [h.depth_eq] using this
    · exact h.depth_nonneg before middle rfl

/-- In front of a further token, none of the brackets is missing. -/
theorem depth_nonneg_of_append {tokens before after : List ExprToken} {last : ExprToken}
    (h : Balanced tokens) (heq : tokens ++ [last] = before ++ after) (hafter : after ≠ []) :
    0 ≤ depth before := by
  rcases List.append_eq_append_iff.mp heq with ⟨middle, rfl, hmiddle⟩ | ⟨middle, rfl, -⟩
  · have hnil : middle = [] := by
      rcases List.singleton_eq_append_iff.mp hmiddle with ⟨hnil, -⟩ | ⟨-, hnil⟩
      · exact hnil
      · exact absurd hnil hafter
    simp [hnil, h.depth_eq]
  · exact h.depth_nonneg before middle rfl

/-- Balanced tokens between brackets. -/
theorem enclose {opening closing : ExprToken} {tokens : List ExprToken} (h : Balanced tokens)
    (hopening : opening.nesting = 1) (hclosing : closing.nesting = -1) :
    Balanced (opening :: tokens ++ [closing]) where
  depth_eq := by simp [depth, hopening, hclosing, h.depth_eq]
  depth_nonneg before after heq := by
    cases before with
    | nil => simp [depth]
    | cons first rest =>
      simp only [List.cons_append, List.cons.injEq] at heq
      obtain ⟨rfl, hrest⟩ := heq
      cases after with
      | nil =>
        rw [List.append_nil] at hrest
        simp [← hrest, depth, hopening, hclosing, h.depth_eq]
      | cons token after =>
        have := h.depth_nonneg_of_append hrest (List.cons_ne_nil token after)
        simp only [depth, hopening]
        omega

end Balanced

/-- A token stands outside of all brackets. -/
def Outer (token : ExprToken) (tokens : List ExprToken) : Prop :=
  ∃ before after, tokens = before ++ token :: after ∧ depth before = 0

/-- What stands outside in two parts stands outside in one of them. -/
theorem Outer.of_append {token : ExprToken} {first second : List ExprToken}
    (h : Outer token (first ++ second)) (hfirst : depth first = 0) :
    Outer token first ∨ Outer token second := by
  obtain ⟨before, after, heq, hdepth⟩ := h
  rcases List.append_eq_append_iff.mp heq with ⟨middle, rfl, hsecond⟩ | ⟨middle, rfl, hafter⟩
  · exact .inr ⟨middle, after, hsecond, by simpa [hfirst] using hdepth⟩
  · cases middle with
    | nil => exact .inr ⟨[], after, hafter.symm, rfl⟩
    | cons head middle =>
      obtain ⟨rfl, -⟩ := List.cons_eq_cons.mp hafter
      exact .inl ⟨before, middle, rfl, hdepth⟩

/-- What stands outside is the first token, if that is no bracket, or stands outside in the rest. -/
theorem Outer.of_cons {token first : ExprToken} {rest : List ExprToken}
    (h : Outer token (first :: rest)) (hfirst : first.nesting = 0) :
    token = first ∨ Outer token rest := by
  obtain ⟨before, after, heq, hdepth⟩ := h
  cases before with
  | nil => exact .inl (List.cons_eq_cons.mp heq).1.symm
  | cons head middle =>
    obtain ⟨rfl, hrest⟩ := List.cons_eq_cons.mp heq
    exact .inr ⟨middle, after, hrest, by simpa [depth, hfirst] using hdepth⟩

/-- Between brackets nothing stands outside. -/
theorem Outer.eq_of_enclosed {token opening closing : ExprToken} {tokens : List ExprToken}
    (h : Outer token (opening :: tokens ++ [closing])) (htokens : Balanced tokens)
    (hopening : opening.nesting = 1) : token = opening := by
  obtain ⟨before, after, heq, hdepth⟩ := h
  cases before with
  | nil => exact (List.cons_eq_cons.mp heq).1.symm
  | cons first rest =>
    simp only [List.cons_append, List.cons.injEq] at heq
    obtain ⟨rfl, hrest⟩ := heq
    have := htokens.depth_nonneg_of_append hrest (List.cons_ne_nil token after)
    simp only [depth, hopening] at hdepth
    omega

/-- Two ways to cut tokens at one that stands outside are the same, or each cuts off the other's
token. -/
theorem eq_or_outer_of_cut {first first' second second' : List ExprToken} {token token' : ExprToken}
    (h : first ++ token :: second = first' ++ token' :: second') (hfirst : depth first = 0)
    (hfirst' : depth first' = 0) (htoken : token.nesting = 0) (htoken' : token'.nesting = 0) :
    (first = first' ∧ token = token' ∧ second = second') ∨
      (Outer token' first ∧ Outer token second') ∨ (Outer token first' ∧ Outer token' second) := by
  rcases List.append_eq_append_iff.mp h with ⟨middle, rfl, hmiddle⟩ | ⟨middle, rfl, hmiddle⟩
  · cases middle with
    | nil =>
      obtain ⟨rfl, rfl⟩ := List.cons_eq_cons.mp hmiddle
      exact .inl ⟨by simp, rfl, rfl⟩
    | cons head middle =>
      obtain ⟨rfl, rfl⟩ := List.cons_eq_cons.mp hmiddle
      have hdepth : depth middle = 0 := by simpa [depth, hfirst, htoken] using hfirst'
      exact .inr (.inr ⟨⟨first, middle, rfl, hfirst⟩, ⟨middle, second', rfl, hdepth⟩⟩)
  · cases middle with
    | nil =>
      obtain ⟨rfl, rfl⟩ := List.cons_eq_cons.mp hmiddle
      exact .inl ⟨by simp, rfl, rfl⟩
    | cons head middle =>
      obtain ⟨rfl, rfl⟩ := List.cons_eq_cons.mp hmiddle
      have hdepth : depth middle = 0 := by simpa [depth, hfirst', htoken'] using hfirst
      exact .inr (.inl ⟨⟨first', middle, rfl, hfirst'⟩, ⟨middle, second, rfl, hdepth⟩⟩)

/-- A token may stand outside in an expression of a level: operators of that level or above, and no
commas. -/
def Fits (level : Nat) : ExprToken → Prop
  | .op sign => level ≤ sign.level
  | .comma => False
  | _ => True

/-- What fits a level fits all below. -/
theorem Fits.mono {low high : Nat} {token : ExprToken} (h : token.Fits high) (hle : low ≤ high) :
    token.Fits low := by
  cases token with
  | op sign => exact Nat.le_trans hle h
  | comma => exact h
  | _ => trivial

end ExprToken

namespace Phrase

open ExprToken

variable {phrase : Phrase} {tokens : List ExprToken}

/-- A phrase closes the brackets that it opens. -/
theorem SpelledBy.balanced (h : phrase.SpelledBy tokens) : Balanced tokens := by
  induction h with
  | literal | scalar | input => exact Balanced.nil.cons rfl
  | element array _ ih => exact (ih.enclose rfl rfl).cons rfl
  | call function _ ih => exact (ih.enclose rfl rfl).cons rfl
  | group _ ih => exact ih.enclose rfl rfl
  | tighter _ ih => exact ih
  | binary _ _ _ ihl ihr => exact ihl.append (ihr.cons rfl)
  | noArgs => exact .nil
  | lastArg _ ih => exact ih
  | moreArgs _ _ ih ihrest => exact ih.append (ihrest.cons rfl)

/-- Expressions are spelled by some token, and on the levels up to the fifth. -/
theorem SpelledBy.level_le {level : Nat} {expr : Expr}
    (h : (Phrase.expr level expr).SpelledBy tokens) : tokens ≠ [] ∧ level ≤ 5 := by
  generalize hphrase : Phrase.expr level expr = phrase at h
  induction h generalizing level with
  | literal | scalar | input | element | call | group =>
    cases hphrase
    simp
  | tighter _ ih =>
    cases hphrase
    obtain ⟨hne, hle⟩ := ih rfl
    exact ⟨hne, Nat.le_of_succ_le hle⟩
  | @binary op level lhs rhs left right hlevel _ _ _ _ =>
    cases hphrase
    have := op.level_bounds
    exact ⟨by simp, by omega⟩
  | noArgs | lastArg | moreArgs => cases hphrase

/-- Outside of all brackets, an expression has no operators of a looser level, and no commas. -/
theorem SpelledBy.fits {level : Nat} {expr : Expr} (h : (Phrase.expr level expr).SpelledBy tokens)
    {token : ExprToken} (htoken : Outer token tokens) : token.Fits level := by
  generalize hphrase : Phrase.expr level expr = phrase at h
  induction h generalizing level expr with
  | literal value | scalar name | input type =>
    rcases htoken.of_cons rfl with rfl | ⟨before, after, heq, -⟩
    · trivial
    · simp at heq
  | element array hinner _ | call function hinner _ =>
    rcases htoken.of_cons rfl with rfl | htoken
    · trivial
    · rw [htoken.eq_of_enclosed hinner.balanced rfl]
      trivial
  | group hinner _ =>
    rw [htoken.eq_of_enclosed hinner.balanced rfl]
    trivial
  | tighter _ ih =>
    cases hphrase
    exact (ih htoken rfl).mono (Nat.le_succ _)
  | @binary op level lhs rhs left right hlevel hleft _ ihl ihr =>
    cases hphrase
    subst hlevel
    rcases htoken.of_append hleft.balanced.depth_eq with htoken | htoken
    · exact (ihl htoken rfl).mono (op.operandLevel_bounds .left).1
    · rcases htoken.of_cons rfl with rfl | htoken
      · exact Nat.le_refl op.level
      · exact (ihr htoken rfl).mono (op.operandLevel_bounds .right).1
  | noArgs | lastArg | moreArgs => cases hphrase

/-- What is spelled on the fifth level is not put together by an operator. -/
theorem SpelledBy.unit_cases {expr : Expr} (h : (Phrase.expr 5 expr).SpelledBy tokens) :
    (∃ value, tokens = [.literal value] ∧ expr = .literal value) ∨
      (∃ name, tokens = [.name name] ∧ expr = .scalar name) ∨
      (∃ type, tokens = [.input type] ∧ expr = .input type) ∨
      (∃ array index inner, tokens = .name array :: .leftBracket :: inner ++ [.rightBracket] ∧
        expr = .element array index ∧ (Phrase.expr 1 index).SpelledBy inner) ∨
      (∃ function args inner, tokens = .name function :: .leftParen :: inner ++ [.rightParen] ∧
        expr = .call function args ∧ (Phrase.args args).SpelledBy inner) ∨
      ∃ inner, tokens = .leftParen :: inner ++ [.rightParen] ∧
        (Phrase.expr 1 expr).SpelledBy inner := by
  cases h with
  | literal value => exact .inl ⟨value, rfl, rfl⟩
  | scalar name => exact .inr (.inl ⟨name, rfl, rfl⟩)
  | input type => exact .inr (.inr (.inl ⟨type, rfl, rfl⟩))
  | element array hinner => exact .inr (.inr (.inr (.inl ⟨array, _, _, rfl, rfl, hinner⟩)))
  | call function hinner =>
    exact .inr (.inr (.inr (.inr (.inl ⟨function, _, _, rfl, rfl, hinner⟩))))
  | group hinner => exact .inr (.inr (.inr (.inr (.inr ⟨_, rfl, hinner⟩))))
  | tighter htighter => exact absurd htighter.level_le.2 (by decide)
  | @binary op _ _ _ _ _ hlevel =>
    have := op.level_bounds
    omega

/-- What is spelled on a lower level is spelled on the next one, or put together by an operator of
that level. -/
theorem SpelledBy.level_cases {level : Nat} {expr : Expr}
    (h : (Phrase.expr level expr).SpelledBy tokens) :
    level = 5 ∨ (Phrase.expr (level + 1) expr).SpelledBy tokens ∨
      ∃ op lhs rhs left right, op.level = level ∧ tokens = left ++ .op op :: right ∧
        expr = .binary op lhs rhs ∧
        (Phrase.expr (op.operandLevel .left) lhs).SpelledBy left ∧
        (Phrase.expr (op.operandLevel .right) rhs).SpelledBy right := by
  cases h with
  | literal | scalar | input | element | call | group => exact .inl rfl
  | tighter h => exact .inr (.inl h)
  | binary hlevel hleft hright =>
    exact .inr (.inr ⟨_, _, _, _, _, hlevel, rfl, rfl, hleft, hright⟩)

/-- What is put together by an operator is not spelled on a level above. -/
theorem SpelledBy.not_tighter {op : BinaryOp} {lhs expr : Expr} {left right : List ExprToken}
    (hleft : (Phrase.expr (op.operandLevel .left) lhs).SpelledBy left) :
    ¬ (Phrase.expr (op.level + 1) expr).SpelledBy (left ++ .op op :: right) := by
  intro h
  have hfits : (ExprToken.op op).Fits (op.level + 1) :=
    h.fits ⟨left, right, rfl, hleft.balanced.depth_eq⟩
  exact absurd hfits (Nat.not_succ_le_self op.level)

/-- What stands on the right of an operator has no operators of its level outside. -/
theorem SpelledBy.not_outer_right {op op' : BinaryOp} {rhs : Expr} {right : List ExprToken}
    (hright : (Phrase.expr (op.operandLevel .right) rhs).SpelledBy right)
    (hlevel : op'.level = op.level) : ¬ Outer (.op op') right := by
  intro houter
  have hfits : op.level + 1 ≤ op'.level := hright.fits houter
  omega

/-- Of the operators outside of all brackets that are of one level, only the last can be the root: two
ways to cut tokens at the root are the same. -/
theorem SpelledBy.eq_of_cut_at_root {op op' : BinaryOp} {lhs rhs lhs' rhs' : Expr}
    {left right left' right' : List ExprToken}
    (hleft : (Phrase.expr (op.operandLevel .left) lhs).SpelledBy left)
    (hright : (Phrase.expr (op.operandLevel .right) rhs).SpelledBy right)
    (hleft' : (Phrase.expr (op'.operandLevel .left) lhs').SpelledBy left')
    (hright' : (Phrase.expr (op'.operandLevel .right) rhs').SpelledBy right')
    (hlevel : op'.level = op.level) (h : left ++ .op op :: right = left' ++ .op op' :: right') :
    left = left' ∧ op = op' ∧ right = right' := by
  rcases eq_or_outer_of_cut h hleft.balanced.depth_eq hleft'.balanced.depth_eq rfl rfl with
    ⟨hsame, hop, hsame'⟩ | ⟨-, houter⟩ | ⟨-, houter⟩
  · exact ⟨hsame, by simpa using hop, hsame'⟩
  · exact absurd houter (hright'.not_outer_right hlevel.symm)
  · exact absurd houter (hright.not_outer_right hlevel)

/-- The first argument ends at the first comma outside of all brackets. -/
theorem SpelledBy.eq_of_cut_at_comma {arg arg' : Expr} {first rest first' rest' : List ExprToken}
    (h : (Phrase.expr 1 arg).SpelledBy first) (h' : (Phrase.expr 1 arg').SpelledBy first')
    (htokens : first ++ .comma :: rest = first' ++ .comma :: rest') : first = first' ∧ rest = rest' := by
  rcases eq_or_outer_of_cut htokens h.balanced.depth_eq h'.balanced.depth_eq rfl rfl with
    ⟨hsame, -, hsame'⟩ | ⟨houter, -⟩ | ⟨houter, -⟩
  · exact ⟨hsame, hsame'⟩
  · exact (h.fits houter).elim
  · exact (h'.fits houter).elim

/-- A phrase is the only one of its kind that some tokens spell. -/
def IsOnly (tokens : List ExprToken) : Phrase → Prop
  | .expr level value => ∀ other, (Phrase.expr level other).SpelledBy tokens → other = value
  | .args values => ∀ others, (Phrase.args others).SpelledBy tokens → others = values

/-- The grammar is unambiguous: tokens spell at most one expression of each level, and at most one
list of arguments. -/
theorem SpelledBy.isOnly (h : phrase.SpelledBy tokens) : phrase.IsOnly tokens := by
  induction h with
  | literal value | scalar name | input type =>
    intro other hother
    rcases hother.unit_cases with h | h | h | h | h | h <;> simp_all
  | @element array index inner _ ih =>
    intro other hother
    rcases hother.unit_cases with h | h | h | ⟨array', index', inner', htokens, rfl, hinner⟩ | h | h
    case inr.inr.inr.inl =>
      obtain ⟨rfl, rfl⟩ : array = array' ∧ inner = inner' := by simpa using htokens
      rw [ih index' hinner]
    all_goals simp_all
  | @call function args inner _ ih =>
    intro other hother
    rcases hother.unit_cases with h | h | h | h | ⟨function', args', inner', htokens, rfl, hinner⟩ | h
    case inr.inr.inr.inr.inl =>
      obtain ⟨rfl, rfl⟩ : function = function' ∧ inner = inner' := by simpa using htokens
      rw [ih args' hinner]
    all_goals simp_all
  | @group expr inner _ ih =>
    intro other hother
    rcases hother.unit_cases with h | h | h | h | h | ⟨inner', htokens, hinner⟩
    case inr.inr.inr.inr.inr =>
      obtain rfl : inner = inner' := by simpa using htokens
      exact ih other hinner
    all_goals simp_all
  | @tighter level expr tokens htighter ih =>
    intro other hother
    rcases hother.level_cases with
      rfl | hother | ⟨op, lhs, rhs, left, right, rfl, rfl, rfl, hleft, hright⟩
    · exact absurd htighter.level_le.2 (by decide)
    · exact ih other hother
    · exact absurd htighter hleft.not_tighter
  | @binary op level lhs rhs left right hlevel hleft hright ihl ihr =>
    subst hlevel
    intro other hother
    rcases hother.level_cases with
      hfive | hother | ⟨op', lhs', rhs', left', right', hlevel, htokens, rfl, hleft', hright'⟩
    · have := op.level_bounds
      omega
    · exact absurd hother hleft.not_tighter
    · obtain ⟨rfl, rfl, rfl⟩ := hleft.eq_of_cut_at_root hright hleft' hright' hlevel htokens
      rw [ihl lhs' hleft', ihr rhs' hright']
  | noArgs =>
    intro others hothers
    generalize htokens : ([] : List ExprToken) = tokens at hothers
    cases hothers with
    | noArgs => rfl
    | lastArg harg => exact absurd htokens.symm harg.level_le.1
    | moreArgs => simp at htokens
  | @lastArg arg tokens harg ih =>
    intro others hothers
    cases hothers with
    | noArgs => exact absurd rfl harg.level_le.1
    | lastArg hother => rw [ih _ hother]
    | moreArgs hfirst hrest =>
      exact (harg.fits ⟨_, _, rfl, hfirst.balanced.depth_eq⟩).elim
  | @moreArgs arg next args tokens rest harg hrest ih ihrest =>
    intro others hothers
    generalize htokens : tokens ++ ExprToken.comma :: rest = whole at hothers
    cases hothers with
    | noArgs => simp at htokens
    | lastArg hother =>
      subst htokens
      exact (hother.fits ⟨_, _, rfl, harg.balanced.depth_eq⟩).elim
    | moreArgs harg' hrest' =>
      obtain ⟨rfl, rfl⟩ := harg.eq_of_cut_at_comma harg' htokens
      rw [ih _ harg', ihrest _ hrest']

end Phrase

/-- Tokens are read as at most one expression. -/
theorem Expr.ReadFrom.unique {first second : Expr} {tokens : List ExprToken}
    (h : first.ReadFrom tokens) (h' : second.ReadFrom tokens) : first = second :=
  Phrase.SpelledBy.isOnly h' first h

end ThreeAddress
