import ThreeAddress.Proofs.Syntax.Words

/-!
# Printed statements

Statements are read by a grammar in which an `else` belongs to the nearest `if` that has none. The
printer writes the branches of a conditional as they are, also a first branch that ends in an `if`
without an `else`. That `if` is then the nearest, and takes what was meant for the conditional around
it. So what is read from the text of a statement is the statement with every `else` handed to the
nearest `if`; this is the statement itself if none of its first branches ends in that way, and only
then.
-/

namespace ThreeAddress

mutual

/-- A statement is read off the front of some tokens, and the others are left. -/
inductive Stmt.ReadOff : Stmt → List StmtToken → List StmtToken → Prop
  | assign (target : String) (value : Expr) (rest : List StmtToken) :
      ReadOff (.assign target value) (.name target :: .sign '=' :: .expr value :: .sign ';' :: rest)
        rest
  | assignElement (array : String) (index value : Expr) (rest : List StmtToken) :
      ReadOff (.assignElement array index value)
        (.name array :: .sign '[' :: .expr index :: .sign ']' ::
          .sign '=' :: .expr value :: .sign ';' :: rest) rest
  | print (value : Expr) (rest : List StmtToken) :
      ReadOff (.print value) (.keyword .print :: .expr value :: .sign ';' :: rest) rest
  | ret (value : Expr) (rest : List StmtToken) :
      ReadOff (.ret value) (.keyword .ret :: .expr value :: .sign ';' :: rest) rest
  /-- A conditional ends behind its first branch only if no `else` follows. -/
  | ifThen {condition : Expr} {positive : Stmt} {tokens rest : List StmtToken} :
      positive.ReadOff tokens rest → rest.head? ≠ some (.keyword .else) →
      ReadOff (.ifThen condition positive)
        (.keyword .if :: .sign '(' :: .expr condition :: .sign ')' :: tokens) rest
  | ifElse {condition : Expr} {positive negative : Stmt} {tokens middle rest : List StmtToken} :
      positive.ReadOff tokens (.keyword .else :: middle) → negative.ReadOff middle rest →
      ReadOff (.ifElse condition positive negative)
        (.keyword .if :: .sign '(' :: .expr condition :: .sign ')' :: tokens) rest
  | loop {condition : Expr} {body : Stmt} {tokens rest : List StmtToken} :
      body.ReadOff tokens rest →
      ReadOff (.loop condition body)
        (.keyword .while :: .sign '(' :: .expr condition :: .sign ')' :: tokens) rest
  | block {body : List Stmt} {tokens rest : List StmtToken} :
      Stmt.ReadAllOff body tokens (.sign '\x7d' :: rest) →
      ReadOff (.block body) (.sign '\x7b' :: tokens) rest
  | empty (rest : List StmtToken) : ReadOff .empty (.sign ';' :: rest) rest

/-- Statements are read off the front of some tokens one after another. -/
inductive Stmt.ReadAllOff : List Stmt → List StmtToken → List StmtToken → Prop
  | nil (tokens : List StmtToken) : ReadAllOff [] tokens tokens
  | cons {stmt : Stmt} {body : List Stmt} {tokens middle rest : List StmtToken} :
      stmt.ReadOff tokens middle → Stmt.ReadAllOff body middle rest →
      ReadAllOff (stmt :: body) tokens rest

end

namespace Stmt

/-- A statement is read from a text if it is read off the tokens of that text and none is left. -/
def ReadFrom (stmt : Stmt) (text : List TextUnit) : Prop :=
  stmt.ReadOff (StmtToken.scan [] text) []

/-- No statement begins with a closing brace. -/
theorem ReadOff.ne_rightBrace {stmt : Stmt} {tokens rest after : List StmtToken}
    (h : stmt.ReadOff tokens rest) : tokens ≠ .sign '\x7d' :: after := by
  cases h <;> simp

/-- Up to a closing brace, statements are read in one way only, if each of them is. -/
theorem ReadAllOff.unique {body : List Stmt}
    (h : ∀ stmt ∈ body, ∀ {other : Stmt} {tokens rest rest' : List StmtToken},
      stmt.ReadOff tokens rest → other.ReadOff tokens rest' → stmt = other ∧ rest = rest')
    {others : List Stmt} {tokens rest rest' : List StmtToken}
    (hbody : ReadAllOff body tokens (.sign '\x7d' :: rest))
    (hothers : ReadAllOff others tokens (.sign '\x7d' :: rest')) : body = others ∧ rest = rest' := by
  induction body generalizing others tokens with
  | nil =>
    cases hbody with
    | nil =>
      cases hothers with
      | nil => exact ⟨rfl, rfl⟩
      | cons hother => exact absurd rfl hother.ne_rightBrace
  | cons stmt body ih =>
    obtain ⟨hstmt, hrest⟩ := List.forall_mem_cons.mp h
    cases hbody with
    | cons hfirst hbody =>
      cases hothers with
      | nil => exact absurd rfl hfirst.ne_rightBrace
      | cons hother hothers =>
        obtain ⟨rfl, rfl⟩ := hstmt hfirst hother
        obtain ⟨rfl, rfl⟩ := ih hrest hbody hothers
        exact ⟨rfl, rfl⟩

/-- The grammar leaves no choice: off the front of some tokens, one statement is read at most. -/
theorem ReadOff.unique {stmt other : Stmt} {tokens rest rest' : List StmtToken}
    (h : stmt.ReadOff tokens rest) (h' : other.ReadOff tokens rest') :
    stmt = other ∧ rest = rest' := by
  induction stmt generalizing other tokens rest rest' with
  | assign | assignElement | print | ret | empty =>
    cases h
    cases h'
    exact ⟨rfl, rfl⟩
  | ifThen condition positive ih =>
    cases h with
    | ifThen hpositive hrest =>
      cases h' with
      | ifThen hpositive' _ =>
        obtain ⟨rfl, rfl⟩ := ih hpositive hpositive'
        exact ⟨rfl, rfl⟩
      | ifElse hpositive' _ =>
        -- the same branch is read either way, and an `else` follows it or does not
        obtain ⟨-, rfl⟩ := ih hpositive hpositive'
        exact absurd rfl hrest
  | ifElse condition positive negative ihp ihn =>
    cases h with
    | ifElse hpositive hnegative =>
      cases h' with
      | ifThen hpositive' hrest' =>
        obtain ⟨-, rfl⟩ := ihp hpositive hpositive'
        exact absurd rfl hrest'
      | ifElse hpositive' hnegative' =>
        obtain ⟨rfl, heq⟩ := ihp hpositive hpositive'
        obtain rfl := (List.cons_eq_cons.mp heq).2
        obtain ⟨rfl, rfl⟩ := ihn hnegative hnegative'
        exact ⟨rfl, rfl⟩
  | loop condition body ih =>
    cases h with
    | loop hbody =>
      cases h' with
      | loop hbody' =>
        obtain ⟨rfl, rfl⟩ := ih hbody hbody'
        exact ⟨rfl, rfl⟩
  | block body ih =>
    cases h with
    | block hbody =>
      cases h' with
      | block hbody' =>
        obtain ⟨rfl, rfl⟩ := hbody.unique ih hbody'
        exact ⟨rfl, rfl⟩

/-- Whether a statement ends in a conditional without a second branch, which takes an `else` that
follows. -/
def endsOpen : Stmt → Bool
  | .ifThen _ _ => true
  | .ifElse _ _ negative => negative.endsOpen
  | .loop _ body => body.endsOpen
  | _ => false

/-- Whether a statement is a conditional with two branches of which the first takes the `else`. -/
def losesElse : Stmt → Bool
  | .ifElse _ positive _ => positive.endsOpen
  | _ => false

/-- Nowhere in a statement does a first branch take the `else`. -/
def KeepsElse (stmt : Stmt) : Prop :=
  ∀ part ∈ stmt.parts, part.losesElse = false

instance : DecidablePred KeepsElse := fun stmt =>
  inferInstanceAs (Decidable (∀ part ∈ stmt.parts, _))

/-- A statement that ends open, with a second branch for the last conditional in it that has none. -/
def withElse : Stmt → Stmt → Stmt
  | .ifThen condition positive, negative =>
    if positive.endsOpen then .ifThen condition (positive.withElse negative)
    else .ifElse condition positive negative
  | .ifElse condition first second, negative => .ifElse condition first (second.withElse negative)
  | .loop condition body, negative => .loop condition (body.withElse negative)
  | stmt, _ => stmt

end Stmt

mutual

/-- The statement with every `else` handed to the nearest `if`. -/
def Stmt.regrouped : Stmt → Stmt
  | .ifThen condition positive => .ifThen condition positive.regrouped
  | .ifElse condition positive negative =>
    if positive.regrouped.endsOpen then
      .ifThen condition (positive.regrouped.withElse negative.regrouped)
    else .ifElse condition positive.regrouped negative.regrouped
  | .loop condition body => .loop condition body.regrouped
  | .block body => .block (Stmt.regroupedAll body)
  | stmt => stmt

/-- The members of a block, each regrouped on its own. -/
def Stmt.regroupedAll : List Stmt → List Stmt
  | [] => []
  | stmt :: rest => stmt.regrouped :: Stmt.regroupedAll rest

end

namespace Stmt

/-- Regrouping goes through the members of a block one by one. -/
theorem regroupedAll_eq_map (body : List Stmt) : regroupedAll body = body.map regrouped := by
  induction body with
  | nil => rfl
  | cons stmt rest ih => rw [regroupedAll, ih, List.map_cons]

section

variable (condition : Expr) (positive negative : Stmt) (body : List Stmt)

@[simp] theorem keepsElse_ifThen : (ifThen condition positive).KeepsElse ↔ positive.KeepsElse := by
  simp [KeepsElse, parts, losesElse]

@[simp] theorem keepsElse_ifElse :
    (ifElse condition positive negative).KeepsElse ↔
      positive.endsOpen = false ∧ positive.KeepsElse ∧ negative.KeepsElse := by
  simp [KeepsElse, parts, losesElse, or_imp, forall_and]

@[simp] theorem keepsElse_loop : (loop condition positive).KeepsElse ↔ positive.KeepsElse := by
  simp [KeepsElse, parts, losesElse]

@[simp] theorem keepsElse_block : (block body).KeepsElse ↔ ∀ stmt ∈ body, stmt.KeepsElse := by
  simp only [KeepsElse, parts, losesElse, List.forall_mem_cons, true_and, mem_partsAll]
  exact ⟨fun h stmt hstmt part hpart => h part ⟨stmt, hstmt, hpart⟩,
    fun h part ⟨stmt, hstmt, hpart⟩ => h stmt hstmt part hpart⟩

end

/-- The second branch is printed behind the statement that gets it. -/
theorem pieces_withElse {stmt : Stmt} (h : stmt.endsOpen = true) (negative : Stmt) (level : Nat) :
    (stmt.withElse negative).pieces level =
      stmt.pieces level ++ [.space, .keyword .else, .space] ++ negative.pieces level := by
  induction stmt with
  | assign | assignElement | print | ret | block | empty => cases h
  | ifThen condition positive ih =>
    rw [withElse]
    split
    case isTrue hopen => simp [pieces, ih hopen]
    case isFalse => simp [pieces]
  | ifElse condition first second _ ih =>
    rw [endsOpen] at h
    simp [withElse, pieces, ih h]
  | loop condition body ih =>
    rw [endsOpen] at h
    simp [withElse, pieces, ih h]

/-- With a second branch for the last conditional, every `else` is still kept. -/
theorem KeepsElse.withElse {stmt negative : Stmt} (h : stmt.KeepsElse)
    (hnegative : negative.KeepsElse) : (stmt.withElse negative).KeepsElse := by
  induction stmt with
  | assign | assignElement | print | ret | block | empty => exact h
  | ifThen condition positive ih =>
    rw [keepsElse_ifThen] at h
    rw [Stmt.withElse]
    split
    case isTrue => simpa using ih h
    case isFalse hclosed => simp [hclosed, h, hnegative]
  | ifElse condition first second _ ih =>
    obtain ⟨hclosed, hfirst, hsecond⟩ := (keepsElse_ifElse condition first second).mp h
    simp [Stmt.withElse, hclosed, hfirst, ih hsecond]
  | loop condition body ih =>
    rw [keepsElse_loop] at h
    simpa [Stmt.withElse] using ih h

/-- The members of a block are printed alike if each of them is. -/
theorem memberPieces_map {f : Stmt → Stmt} {body : List Stmt}
    (h : ∀ stmt ∈ body, ∀ level, (f stmt).pieces level = stmt.pieces level) (level : Nat) :
    memberPieces level (body.map f) = memberPieces level body := by
  induction body with
  | nil => rfl
  | cons stmt rest ih =>
    obtain ⟨hstmt, hrest⟩ := List.forall_mem_cons.mp h
    rw [List.map_cons, memberPieces, memberPieces, hstmt, ih hrest]

/-- Regrouping cannot be seen in the text. -/
theorem pieces_regrouped (stmt : Stmt) (level : Nat) :
    stmt.regrouped.pieces level = stmt.pieces level := by
  induction stmt generalizing level with
  | assign | assignElement | print | ret | empty => rfl
  | ifThen condition positive ih | loop condition positive ih =>
    rw [regrouped, pieces, pieces, ih]
  | ifElse condition positive negative ihp ihn =>
    rw [regrouped]
    split
    case isTrue hopen => simp [pieces, pieces_withElse hopen, ihp, ihn]
    case isFalse => rw [pieces, pieces, ihp, ihn]
  | block body ih =>
    rw [regrouped, regroupedAll_eq_map]
    cases body with
    | nil => rfl
    | cons first rest =>
      have hmembers := memberPieces_map ih (level + 1)
      rw [List.map_cons] at hmembers ⊢
      rw [pieces, pieces, hmembers]

/-- After regrouping, every `else` is kept. -/
theorem keepsElse_regrouped (stmt : Stmt) : stmt.regrouped.KeepsElse := by
  induction stmt with
  | assign | assignElement | print | ret | empty => simp [KeepsElse, regrouped, parts, losesElse]
  | ifThen condition positive ih | loop condition positive ih => simpa [regrouped] using ih
  | ifElse condition positive negative ihp ihn =>
    rw [regrouped]
    split
    case isTrue => simpa using ihp.withElse ihn
    case isFalse hclosed => simp [hclosed, ihp, ihn]
  | block body ih => simpa [regrouped, regroupedAll_eq_map] using ih

/-- Where every `else` is kept, there is nothing to regroup. -/
theorem KeepsElse.regrouped_eq {stmt : Stmt} (h : stmt.KeepsElse) : stmt.regrouped = stmt := by
  induction stmt with
  | assign | assignElement | print | ret | empty => rfl
  | ifThen condition positive ih =>
    rw [regrouped, ih ((keepsElse_ifThen condition positive).mp h)]
  | ifElse condition positive negative ihp ihn =>
    obtain ⟨hclosed, hpositive, hnegative⟩ := (keepsElse_ifElse condition positive negative).mp h
    simp [regrouped, ihp hpositive, ihn hnegative, hclosed]
  | loop condition body ih =>
    rw [regrouped, ih ((keepsElse_loop condition body).mp h)]
  | block body ih =>
    rw [keepsElse_block] at h
    rw [regrouped, regroupedAll_eq_map, List.map_congr_left fun stmt hstmt => ih stmt hstmt (h stmt hstmt),
      List.map_id']

/-- No statement is printed with an `else` in front. -/
theorem head?_tokens_append_ne (stmt : Stmt) (level : Nat) (rest : List StmtToken) :
    (stmt.tokens level ++ rest).head? ≠ some (.keyword .else) := by
  cases stmt with
  | block body => cases body <;> simp [tokens, pieces, StmtPiece.tokens]
  | _ => simp [tokens, pieces, StmtPiece.head, StmtPiece.tokens]

/-- The members of a block are read off, up to the brace that closes it. -/
theorem readAllOff_memberPieces {body : List Stmt}
    (h : ∀ stmt ∈ body, ∀ level rest, rest.head? ≠ some (.keyword .else) →
      stmt.ReadOff (stmt.tokens level ++ rest) rest) (level : Nat) (rest : List StmtToken) :
    ReadAllOff body ((memberPieces level body).flatMap StmtPiece.tokens ++ .sign '\x7d' :: rest)
      (.sign '\x7d' :: rest) := by
  induction body with
  | nil => exact .nil _
  | cons stmt body ih =>
    obtain ⟨hstmt, hbody⟩ := List.forall_mem_cons.mp h
    have htokens : (memberPieces level (stmt :: body)).flatMap StmtPiece.tokens ++ .sign '\x7d' :: rest =
        stmt.tokens level ++
          ((memberPieces level body).flatMap StmtPiece.tokens ++ .sign '\x7d' :: rest) := by
      simp [memberPieces, tokens, StmtPiece.tokens]
    rw [htokens]
    refine .cons (hstmt level _ ?_) (ih hbody)
    -- what follows a member is the next one or the brace
    cases body with
    | nil => simp [memberPieces]
    | cons next body =>
      rw [memberPieces, List.cons_append, List.flatMap_cons, List.flatMap_append, List.append_assoc,
        List.append_assoc]
      exact next.head?_tokens_append_ne level _

/-- Where every `else` is kept, a statement is read off its tokens. -/
theorem KeepsElse.readOff {stmt : Stmt} (h : stmt.KeepsElse) (level : Nat) {rest : List StmtToken}
    (hrest : stmt.endsOpen = true → rest.head? ≠ some (.keyword .else)) :
    stmt.ReadOff (stmt.tokens level ++ rest) rest := by
  induction stmt generalizing level rest with
  | assign target value => exact .assign target value rest
  | assignElement array index value => exact .assignElement array index value rest
  | print value => exact .print value rest
  | ret value => exact .ret value rest
  | empty => exact .empty rest
  | ifThen condition positive ih =>
    exact .ifThen (ih ((keepsElse_ifThen condition positive).mp h) level fun _ => hrest rfl) (hrest rfl)
  | ifElse condition positive negative ihp ihn =>
    obtain ⟨hclosed, hpositive, hnegative⟩ := (keepsElse_ifElse condition positive negative).mp h
    have htokens : (ifElse condition positive negative).tokens level ++ rest =
        .keyword .if :: .sign '(' :: .expr condition :: .sign ')' ::
          (positive.tokens level ++ .keyword .else :: (negative.tokens level ++ rest)) := by
      simp [tokens, pieces, StmtPiece.head, StmtPiece.tokens]
    rw [htokens]
    -- the first branch does not end open, so it leaves the `else`
    refine .ifElse (ihp hpositive level fun hopen => ?_) (ihn hnegative level hrest)
    exact absurd hopen (by simp [hclosed])
  | loop condition body ih =>
    exact .loop (ih ((keepsElse_loop condition body).mp h) level hrest)
  | block body ih =>
    rw [keepsElse_block] at h
    cases body with
    | nil => exact .block (.nil _)
    | cons first body =>
      have htokens : (block (first :: body)).tokens level ++ rest = .sign '\x7b' ::
          ((memberPieces (level + 1) (first :: body)).flatMap StmtPiece.tokens ++
            .sign '\x7d' :: rest) := by
        simp [tokens, pieces, StmtPiece.tokens]
      rw [htokens]
      exact .block (readAllOff_memberPieces
        (fun stmt hstmt level rest hrest => ih stmt hstmt (h stmt hstmt) level fun _ => hrest) _ _)

/-- From the text of a statement, the regrouped statement is read and nothing else. -/
theorem readFrom_units_iff {stmt : Stmt} (h : stmt.WellNamed) (other : Stmt) :
    other.ReadFrom stmt.units ↔ other = stmt.regrouped := by
  have htokens : stmt.tokens 0 = stmt.regrouped.tokens 0 := by
    rw [tokens, tokens, pieces_regrouped]
  have hread : stmt.regrouped.ReadFrom stmt.units := by
    rw [ReadFrom, scan_units h, htokens, ← List.append_nil (stmt.regrouped.tokens 0)]
    exact stmt.keepsElse_regrouped.readOff 0 (by simp)
  constructor
  · intro hother
    exact (hother.unique hread).1
  · rintro rfl
    exact hread

/-- Regrouping changes nothing exactly where every `else` is kept. -/
theorem eq_regrouped_iff {stmt : Stmt} : stmt = stmt.regrouped ↔ stmt.KeepsElse := by
  constructor
  · intro heq
    rw [heq]
    exact stmt.keepsElse_regrouped
  · intro h
    exact h.regrouped_eq.symm

end Stmt

/-- From the text of a statement whose names are identifiers other than the keywords, the statement
is read with every `else` handed to the nearest `if`, and nothing else is. So it is read back as
itself exactly if no first branch in it takes an `else`, and two statements are printed alike exactly
if they are the same after regrouping. -/
theorem statement_read_regrouped (stmt : Stmt) (hnames : stmt.WellNamed) :
    (∀ other : Stmt, other.ReadFrom stmt.units ↔ other = stmt.regrouped) ∧
      (stmt.ReadFrom stmt.units ↔ stmt.KeepsElse) ∧
      ∀ other : Stmt, other.WellNamed →
        (stmt.units = other.units ↔ stmt.regrouped = other.regrouped) := by
  refine ⟨Stmt.readFrom_units_iff hnames, ?_, fun other hother => ?_⟩
  · rw [Stmt.readFrom_units_iff hnames, Stmt.eq_regrouped_iff]
  · constructor
    · intro hunits
      have hread : stmt.regrouped.ReadFrom other.units := by
        rw [← hunits, Stmt.readFrom_units_iff hnames]
      exact (Stmt.readFrom_units_iff hother _).mp hread
    · intro heq
      rw [Stmt.units, Stmt.units, ← Stmt.pieces_regrouped stmt, heq, Stmt.pieces_regrouped]

/-- Two conditionals, and the `else` belongs to the outer one: if `a` and `b`, then `x` becomes 1, and
if not `a`, then it becomes 2. -/
def choosingOuter : Stmt :=
  .ifElse (.scalar "a") (.ifThen (.scalar "b") (.assign "x" (.literal (.int 1))))
    (.assign "x" (.literal (.int 2)))

/-- The same with the `else` belonging to the inner conditional: if `a` but not `b`, then `x` becomes
2. -/
def choosingInner : Stmt :=
  .ifThen (.scalar "a") (.ifElse (.scalar "b") (.assign "x" (.literal (.int 1)))
    (.assign "x" (.literal (.int 2))))

/-- The outer conditional with its first branch in a block. -/
def choosingBlock : Stmt :=
  .ifElse (.scalar "a") (.block [.ifThen (.scalar "b") (.assign "x" (.literal (.int 1)))])
    (.assign "x" (.literal (.int 2)))

/-- The two are different, but print as the same text, and what is read from it is the one in which
the `else` belongs to the inner conditional. -/
theorem choosing_printed_alike :
    choosingOuter.WellNamed ∧ choosingInner.WellNamed ∧ choosingOuter ≠ choosingInner ∧
      choosingOuter.units = choosingInner.units ∧ choosingOuter.text = choosingInner.text ∧
      choosingInner.ReadFrom choosingOuter.units ∧ ¬ choosingOuter.ReadFrom choosingOuter.units := by
  have hnames : choosingOuter.WellNamed := by decide
  have hne : choosingOuter ≠ choosingInner := nofun
  have hunits : choosingOuter.units = choosingInner.units := rfl
  refine ⟨hnames, by decide, hne, hunits, ?_, ?_, ?_⟩
  · rw [← Stmt.join_units, hunits, Stmt.join_units]
  · exact (Stmt.readFrom_units_iff hnames _).mpr rfl
  · intro hread
    exact hne ((Stmt.readFrom_units_iff hnames _).mp hread)

/-- In a block, the inner conditional cannot take the `else`, and the statement is read back. It is
printed differently from the one without the block, which is not read back. -/
theorem choosing_block_read_back :
    choosingBlock.WellNamed ∧ choosingOuter.WellNamed ∧
      choosingBlock.ReadFrom choosingBlock.units ∧ ¬ choosingOuter.ReadFrom choosingOuter.units ∧
      choosingInner.ReadFrom choosingOuter.units ∧ choosingBlock.units ≠ choosingOuter.units := by
  have hblock : choosingBlock.WellNamed := by decide
  have houter : choosingOuter.WellNamed := by decide
  obtain ⟨-, hback, halike⟩ := statement_read_regrouped choosingBlock hblock
  obtain ⟨hread, hback', -⟩ := statement_read_regrouped choosingOuter houter
  refine ⟨hblock, houter, hback.mpr (by decide), fun h => ?_, (hread choosingInner).mpr rfl, fun h => ?_⟩
  · exact absurd (hback'.mp h) (by decide)
  · exact absurd ((halike choosingOuter houter).mp h) nofun

end ThreeAddress
