import ThreeAddress.Proofs.Assembly.Symbols
import ThreeAddress.Proofs.Lowering.Supply
import ThreeAddress.Proofs.Number.Order
import ThreeAddress.Proofs.Processor.Straight
import ThreeAddress.Typing

/-!
# What comparisons compare

A comparison takes two words and compares them as signed numbers. That is the comparison of the
values if these are integers or characters. The words of floats are ordered like their values as
long as one of the two has no sign; two that have signs are compared the wrong way round, and zeros
of different signs are told apart. A string is used by its address, and every literal has one of its
own, so two string literals are never equal.
-/

namespace ThreeAddress

/-- The relation that a relational operator stands for. -/
def BinaryOp.Relates {α : Type*} [LinearOrder α] (op : BinaryOp) (x y : α) : Prop :=
  match op with
  | .lt => x < y
  | .gt => y < x
  | .le => x ≤ y
  | .ge => y ≤ x
  | .eq => x = y
  | .ne => x ≠ y
  | .add | .sub | .mul | .div | .and | .or | .xor => False

/-- All relations between two elements follow from which of them is less. -/
theorem BinaryOp.relates_congr {α β : Type*} [LinearOrder α] [LinearOrder β] (op : BinaryOp)
    {x y : α} {x' y' : β} (hlt : x < y ↔ x' < y') (hgt : y < x ↔ y' < x') :
    op.Relates x y ↔ op.Relates x' y' := by
  have hle : x ≤ y ↔ x' ≤ y' := by rw [← not_lt, hgt, not_lt]
  have hge : y ≤ x ↔ y' ≤ x' := by rw [← not_lt, hlt, not_lt]
  have heq : x = y ↔ x' = y' := by rw [le_antisymm_iff, hle, hge, ← le_antisymm_iff]
  cases op with
  | lt => exact hlt
  | gt => exact hgt
  | le => exact hle
  | ge => exact hge
  | eq => exact heq
  | ne => exact not_congr heq
  | add | sub | mul | div | and | or | xor => exact Iff.rfl

namespace Processor

open Assembly LowerM

section Flags

/-- The sign of a difference is wrong exactly if it overflows, so that both together tell which of
two words is less. -/
theorem msb_eq_ssubOverflow_iff (left right : Word) :
    (left - right).msb = left.ssubOverflow right ↔ right.toInt ≤ left.toInt := by
  have hleft := left.toInt_lt
  have hleft' := left.le_toInt
  have hright := right.toInt_lt
  have hright' := right.le_toInt
  rw [BitVec.msb_eq_toInt, BitVec.toInt_sub, BitVec.ssubOverflow, Int.bmod_def, Bool.eq_iff_iff,
    Bool.or_eq_true, decide_eq_true_iff, decide_eq_true_iff, decide_eq_true_iff]
  omega

/-- A difference is zero exactly if the words are equal. -/
theorem sub_eq_zero_iff_toInt (left right : Word) :
    left - right = 0 ↔ left.toInt = right.toInt := by
  rw [BitVec.toInt_inj]
  constructor
  · intro h
    have hadd := congrArg (· + right) h
    simpa [BitVec.sub_add_cancel] using hadd
  · rintro rfl
    exact BitVec.sub_self left

/-- The zero flag of a difference says that the words are equal. -/
theorem zero_difference_iff (left right : Word) :
    (Flags.difference left right).zero = true ↔ left.toInt = right.toInt := by
  rw [← sub_eq_zero_iff_toInt]
  exact decide_eq_true_iff

/-- The sign of a difference and its overflow are alike unless the left word is less. -/
theorem sign_difference_eq_iff (left right : Word) :
    (Flags.difference left right).sign = (Flags.difference left right).overflow ↔
      right.toInt ≤ left.toInt :=
  msb_eq_ssubOverflow_iff left right

/-- A relational operator stores the condition that says whether its relation holds between the
signed numbers that were compared. -/
theorem exists_combine_eq_comparison {op : BinaryOp} (hop : op.kind = .relational) :
    ∃ condition, combine op = comparison condition ∧ ∀ left right : Word,
      holds (.difference left right) condition = true ↔
        op.Relates left.toInt right.toInt := by
  cases op with
  | add | sub | mul | div | and | or | xor => contradiction
  | lt =>
    refine ⟨.less, rfl, fun left right => ?_⟩
    rw [holds, bne_iff_ne, ne_eq, sign_difference_eq_iff, not_le]
    rfl
  | gt =>
    refine ⟨.greater, rfl, fun left right => ?_⟩
    rw [holds, Bool.and_eq_true, Bool.not_eq_true', ← Bool.not_eq_true, zero_difference_iff,
      beq_iff_eq, sign_difference_eq_iff, and_comm, eq_comm, ← lt_iff_le_and_ne]
    rfl
  | le =>
    refine ⟨.lessOrEqual, rfl, fun left right => ?_⟩
    rw [holds, Bool.or_eq_true, zero_difference_iff, bne_iff_ne, ne_eq, sign_difference_eq_iff,
      not_le, ← le_iff_eq_or_lt]
    rfl
  | ge =>
    refine ⟨.greaterOrEqual, rfl, fun left right => ?_⟩
    rw [holds, beq_iff_eq, sign_difference_eq_iff]
    rfl
  | eq =>
    refine ⟨.equal, rfl, fun left right => ?_⟩
    rw [holds, zero_difference_iff]
    rfl
  | ne =>
    refine ⟨.notEqual, rfl, fun left right => ?_⟩
    rw [holds, Bool.not_eq_true', ← Bool.not_eq_true, zero_difference_iff]
    rfl

end Flags

section Lines

variable {host : Host} {state : State} {lines : List Line} {place : Storage} {truth truth' : Prop}

/-- A byte of truth, widened to a word, is `1` or `0`. -/
theorem zeroExtend_truth (high : BitVec 56) (truth : Bool) :
    ((high ++ (BitVec.ofBool truth).zeroExtend 8).setWidth 8).zeroExtend 64 =
      if truth then (1 : Word) else 0 := by
  have hlow : (high ++ (BitVec.ofBool truth).zeroExtend 8).setWidth 8 =
      (BitVec.ofBool truth).zeroExtend 8 := by
    exact BitVec.setWidth_append_eq_right
  rw [hlow]
  cases truth <;> rfl

/-- The lines of a comparison leave in `rax` whether the condition holds, and all else as it was. -/
theorem exists_after?_comparison (condition : Condition) :
    ∃ final, State.after? host (comparison condition) state = some final ∧
      final.memory = state.memory ∧
      (final.registers .rax =
        if holds (.difference (state.registers .rax) (state.registers .rcx)) condition then 1
        else 0) ∧
      state.Keeps [.rax] final := by
  have hmem : WordRegister.rax ∈ [WordRegister.rax] := List.mem_singleton_self _
  refine ⟨_, rfl, rfl, ?_, ((State.Keeps.refl _ _).setRegister hmem _).setRegister hmem _⟩
  simp only [State.setRegister, Function.update_self]
  exact zeroExtend_truth _ _

/-- Wherever some lines stand, the processor comes to their end, in as many steps and in no other
state; and there a place holds `1` if a statement is true, and `0` if it is false. -/
def State.Leaves (host : Host) (lines : List Line) (state : State) (place : Storage)
    (truth : Prop) : Prop :=
  ∃ final : State, (truth → final.contents host place = 1) ∧
    (¬ truth → final.contents host place = 0) ∧
    ∀ front back : List Line,
      (∃ passed, passed.length = lines.length ∧
        Runs host (front ++ lines ++ back) ⟨front.length, state⟩ passed
          ⟨front.length + lines.length, final⟩) ∧
      ∀ passed config, passed.length = lines.length →
        Runs host (front ++ lines ++ back) ⟨front.length, state⟩ passed config →
          config = ⟨front.length + lines.length, final⟩

/-- What is left is the truth of one statement only. -/
theorem State.Leaves.iff (h : state.Leaves host lines place truth)
    (h' : state.Leaves host lines place truth') : truth ↔ truth' := by
  obtain ⟨final, htrue, hfalse, hruns⟩ := h
  obtain ⟨final', htrue', hfalse', hruns'⟩ := h'
  obtain ⟨⟨passed, hlength, hpassed⟩, -⟩ := hruns [] []
  have hfinal := congrArg Config.state ((hruns' [] []).2 passed _ hlength hpassed)
  change final = final' at hfinal
  subst hfinal
  have hne : (1 : Word) ≠ 0 := by decide
  constructor
  · intro hyes
    by_contra hno
    exact hne ((htrue hyes).symm.trans (hfalse' hno))
  · intro hyes
    by_contra hno
    exact hne ((htrue' hyes).symm.trans (hfalse hno))

/-- Statements that are equivalent are left alike. -/
theorem State.Leaves.congr (h : state.Leaves host lines place truth) (hiff : truth ↔ truth') :
    state.Leaves host lines place truth' :=
  propext hiff ▸ h

/-- Lines that are executed one after the other leave what stands in the place at their end. -/
theorem State.Leaves.of_after? {final : State}
    (hafter : State.after? host lines state = some final)
    (htrue : truth → final.contents host place = 1)
    (hfalse : ¬ truth → final.contents host place = 0) : state.Leaves host lines place truth :=
  ⟨final, htrue, hfalse, fun _ _ => ⟨exists_runs_of_after? hafter,
    fun _ _ hlength hruns => eq_of_runs_of_after? hafter hruns hlength⟩⟩

/-- A label and a comment change nothing. -/
theorem after?_labelled (options : Options) (instruction : ThreeAddress.Instruction) :
    State.after? host
        (labelLines instruction.label? ++ annotationLines options instruction.operation ++ lines)
        state =
      State.after? host lines state := by
  have hlabel : ∀ rest, State.after? host (labelLines instruction.label? ++ rest) state =
      State.after? host rest state := by
    intro rest
    cases instruction.label? <;> rfl
  rw [List.append_assoc, hlabel]
  unfold annotationLines
  split
  · rfl
  · split <;> rfl

/-- The lines of a relational operator compare the words in the places of its operands as signed
numbers. -/
theorem exists_leaves_of_relational {op : BinaryOp} (hop : op.kind = .relational)
    (options : Options) (label? : Option Label) (id : Temporary) (left right : Storage) :
    ∃ lines, instructionLines options ⟨label?, .binary op (.temporary id) left right⟩ = .ok lines ∧
      ∀ (host : Host) (state : State), state.Leaves host lines (.temporary id)
        (op.Relates (state.contents host left).toInt (state.contents host right).toInt) := by
  obtain ⟨condition, hcombine, hholds⟩ := exists_combine_eq_comparison hop
  refine ⟨_, rfl, fun host state => ?_⟩
  have hloadLeft := @executeLine_load host state .rax .rax rfl left
  have hloadRight := @executeLine_load host (state.setRegister .rax (state.contents host left))
    .rcx .rcx rfl right
  have hright : (state.setRegister .rax (state.contents host left)).contents host right =
      state.contents host right := State.contents_congr rfl right
  rw [hright] at hloadRight
  obtain ⟨compared, hcompared, hmemory, hrax, -⟩ := @exists_after?_comparison host
    ((state.setRegister .rax (state.contents host left)).setRegister .rcx
      (state.contents host right)) condition
  have hafter : State.after? host
      (labelLines label? ++ annotationLines options (.binary op (.temporary id) left right) ++
        ([load .rax left, load .rcx right] ++ combine op ++
          [.instruction (.mov (.register .rax) (.memory id.symbol))])) state =
      some (compared.setWord (host.address id.symbol) (compared.registers .rax)) := by
    rw [after?_labelled options ⟨label?, .binary op (.temporary id) left right⟩, hcombine,
      List.append_assoc, List.cons_append, List.cons_append, List.nil_append,
      State.after?_cons hloadLeft, State.after?_cons hloadRight, State.after?_append, hcompared]
    exact State.after?_cons (executeLine_store rfl)
  have hwords := hholds (state.contents host left) (state.contents host right)
  have hresult : compared.registers .rax =
      if holds (.difference (state.contents host left) (state.contents host right)) condition
      then 1 else 0 := hrax
  refine .of_after? hafter (fun htrue => ?_) (fun hfalse => ?_)
  · rw [State.contents, State.setWord, Memory.word_setWord, hresult, if_pos (hwords.mpr htrue)]
  · rw [State.contents, State.setWord, Memory.word_setWord, hresult, if_neg (mt hwords.mp hfalse)]

end Lines

section Values

/-- A word stands for an integer as a signed number, for a float by its bits, and for a character by
its code point. -/
def Represents (word : Word) : Immediate → Prop
  | .int value => word.toInt = value.toInt
  | .float value => word.toNat = value.bits.toNat
  | .char value => word.toNat = value.toNat

/-- A constant is used by the word that stands for it. -/
theorem represents_constant (host : Host) (state : State) (value : Immediate) :
    Represents (state.contents host (.constant value)) value := by
  cases value with
  | int value => rfl
  | float value => rfl
  | char value =>
    have hlt : value.toNat < 2 ^ 64 := lt_trans value.val.toNat_lt (by decide)
    exact Nat.mod_eq_of_lt hlt

/-- The signed number in the word of a float. -/
theorem Represents.toInt_eq_signed {word : Word} {x : Binary64} (h : Represents word (.float x)) :
    word.toInt = x.signed :=
  congrArg BitVec.toInt (BitVec.eq_of_toNat_eq h : word = x.bits.toBitVec)

/-- The signed number in the word of a character. -/
theorem Represents.toInt_eq_codePoint {word : Word} {x : Char} (h : Represents word (.char x)) :
    word.toInt = x.toNat := by
  have hlt : x.toNat < 2 ^ 32 := x.val.toNat_lt
  have hword : word.toNat = x.toNat := h
  rw [BitVec.toInt_eq_toNat_cond, if_pos (by omega), hword]

/-- What is left by a comparison of two words, in terms of the values that they stand for. -/
structure ComparesValues (op : BinaryOp) (left right : Word) (leaves : Prop → Prop) : Prop where
  /-- Integers are compared. -/
  integers : ∀ x y : Int64, Represents left (.int x) → Represents right (.int y) →
    leaves (op.Relates x.toInt y.toInt)
  /-- Characters are compared by their code points. -/
  characters : ∀ x y : Char, Represents left (.char x) → Represents right (.char y) →
    leaves (op.Relates x.toNat y.toNat)
  /-- Floats are compared by their values unless both have a sign or they are zeros of different
  signs. -/
  floats : ∀ x y : Binary64, Represents left (.float x) → Represents right (.float y) →
    ¬ (x.isNegative = true ∧ y.isNegative = true) →
    ¬ (x.value = 0 ∧ y.value = 0 ∧ x.isNegative ≠ y.isNegative) →
      leaves (op.Relates x.value y.value)
  /-- Two floats with a sign are compared the wrong way round. -/
  negatives : ∀ x y : Binary64, Represents left (.float x) → Represents right (.float y) →
    x.isNegative = true → y.isNegative = true → leaves (op.Relates y.value x.value)
  /-- A zero with a sign comes before one without. -/
  zeros : ∀ x y : Binary64, Represents left (.float x) → Represents right (.float y) →
    x.value = 0 → y.value = 0 → x.isNegative ≠ y.isNegative →
      leaves (op.Relates (!x.isNegative) (!y.isNegative))

/-- Words of floats that do not both have a sign are ordered like the values, and zeros by their
signs. -/
theorem relates_signed_of_signs (op : BinaryOp) {x y : Binary64}
    (h : ¬ (x.isNegative = true ∧ y.isNegative = true))
    (hzeros : ¬ (x.value = 0 ∧ y.value = 0 ∧ x.isNegative ≠ y.isNegative)) :
    op.Relates x.signed y.signed ↔ op.Relates x.value y.value := by
  cases hx : x.isNegative with
  | false =>
    cases hy : y.isNegative with
    | false => exact op.relates_congr (Binary64.signed_lt_iff hx hy) (Binary64.signed_lt_iff hy hx)
    | true =>
      have hwords := Binary64.signed_lt_of_signs hy hx
      have hvalues := Binary64.value_lt_of_signs hy hx fun ⟨hy', hx'⟩ =>
        hzeros ⟨hx', hy', by simp [hx, hy]⟩
      exact op.relates_congr (iff_of_false hwords.not_gt hvalues.not_gt)
        (iff_of_true hwords hvalues)
  | true =>
    have hy : y.isNegative = false := by simpa [hx] using h
    have hwords := Binary64.signed_lt_of_signs hx hy
    have hvalues := Binary64.value_lt_of_signs hx hy fun ⟨hx', hy'⟩ =>
      hzeros ⟨hx', hy', by simp [hx, hy]⟩
    exact op.relates_congr (iff_of_true hwords hvalues)
      (iff_of_false hwords.not_gt hvalues.not_gt)

/-- Of two floats with different signs, the one that has a sign is the one with the smaller
word. -/
theorem relates_signed_of_ne (op : BinaryOp) {x y : Binary64}
    (h : x.isNegative ≠ y.isNegative) :
    op.Relates x.signed y.signed ↔ op.Relates (!x.isNegative) (!y.isNegative) := by
  cases hx : x.isNegative with
  | false =>
    have hy : y.isNegative = true := by simpa [hx] using h
    have hwords := Binary64.signed_lt_of_signs hy hx
    rw [hy]
    exact op.relates_congr (iff_of_false hwords.not_gt (by decide)) (iff_of_true hwords (by decide))
  | true =>
    have hy : y.isNegative = false := by simpa [hx] using h
    have hwords := Binary64.signed_lt_of_signs hx hy
    rw [hy]
    exact op.relates_congr (iff_of_true hwords (by decide)) (iff_of_false hwords.not_gt (by decide))

/-- A comparison of signed numbers compares the values that their words stand for. -/
theorem State.Leaves.comparesValues {host : Host} {state : State} {lines : List Line}
    {place : Storage} {op : BinaryOp} {left right : Word}
    (h : state.Leaves host lines place (op.Relates left.toInt right.toInt)) :
    ComparesValues op left right (state.Leaves host lines place) where
  integers x y hx hy := by
    have hleft : left.toInt = x.toInt := hx
    have hright : right.toInt = y.toInt := hy
    rwa [hleft, hright] at h
  characters x y hx hy := by
    rw [hx.toInt_eq_codePoint, hy.toInt_eq_codePoint] at h
    exact h.congr (op.relates_congr Int.ofNat_lt Int.ofNat_lt)
  floats x y hx hy hsigns hzeros := by
    rw [hx.toInt_eq_signed, hy.toInt_eq_signed] at h
    exact h.congr (relates_signed_of_signs op hsigns hzeros)
  negatives x y hx hy hxsign hysign := by
    rw [hx.toInt_eq_signed, hy.toInt_eq_signed] at h
    exact h.congr (op.relates_congr (Binary64.signed_lt_iff_of_isNegative hxsign hysign)
      (Binary64.signed_lt_iff_of_isNegative hysign hxsign))
  zeros x y hx hy _ _ hne := by
    rw [hx.toInt_eq_signed, hy.toInt_eq_signed] at h
    exact h.congr (relates_signed_of_ne op hne)

end Values

section Strings

/-- Different string constants have different addresses. -/
def Host.Separates (host : Host) (strings : StringPool) : Prop :=
  ∀ first second : Temporary, (strings.find? first).isSome → (strings.find? second).isSome →
    first ≠ second → host.address first.symbol ≠ host.address second.symbol

/-- Whatever string constants there are, their addresses can be different. -/
theorem exists_separates (strings : StringPool) : ∃ host : Host, host.Separates strings := by
  have hinjective : Function.Injective Temporary.symbol := fun _ _ => Temporary.symbol_inj
  refine ⟨⟨Function.extend Temporary.symbol (fun id => BitVec.ofNat 64 id.id.toNat) 0,
    fun _ state => state.flags, fun _ _ _ => True⟩, fun first second _ _ hne heq => hne ?_⟩
  dsimp only at heq
  rw [hinjective.extend_apply, hinjective.extend_apply] at heq
  have hnat := congrArg BitVec.toNat heq
  have hfirst := first.id.toNat_lt
  have hsecond := second.id.toNat_lt
  rw [BitVec.toNat_ofNat, BitVec.toNat_ofNat, Nat.mod_eq_of_lt (by omega),
    Nat.mod_eq_of_lt (by omega)] at hnat
  exact Temporary.ext (UInt32.toNat_inj.mp hnat)

/-- String literals that are lowered one after the other have different addresses. -/
theorem contents_ne_of_strings {host : Host} {env : Environment} {before middle last : Supply}
    {leftCode rightCode : Code} {left right : Storage} {text text' : String}
    (hleft : (lowerExpr env (.literal (.string text))).Yields before (leftCode, left) middle)
    (hright : (lowerExpr env (.literal (.string text'))).Yields middle (rightCode, right) last)
    (hfit : last.temporaries ≤ 2 ^ 32) (hhost : host.Separates last.strings) (state : State) :
    state.contents host left ≠ state.contents host right := by
  obtain ⟨-, rfl, rfl⟩ := yields_string_iff.mp hleft
  obtain ⟨-, rfl, rfl⟩ := yields_string_iff.mp hright
  change before.temporaries + 2 ≤ 2 ^ 32 at hfit
  have hne : Temporary.numbered before.temporaries ≠ .numbered (before.temporaries + 1) := by
    intro heq
    have hnumber := Temporary.numbered_inj (by omega) (by omega) heq
    omega
  refine hhost _ _ ?_ ?_ hne
  · change (((before.afterString text).strings.insert (.numbered (before.temporaries + 1))
      text').find? (.numbered before.temporaries)).isSome
    rw [StringPool.find?_insert_of_ne _ _ hne, Supply.afterString, StringPool.find?_insert_self]
    rfl
  · change (((before.afterString text).strings.insert (.numbered (before.temporaries + 1))
      text').find? (.numbered (before.temporaries + 1))).isSome
    rw [StringPool.find?_insert_self]
    rfl

end Strings

section Expressions

variable {env : Environment} {op : BinaryOp} {lhs rhs : Expr} {before after : Supply} {code : Code}
  {place : Storage}

/-- A literal is used by the word that stands for it. -/
theorem represents_of_yields {value : Immediate}
    (h : (lowerExpr env (.literal value.literal)).Yields before (code, place) after) (host : Host)
    (state : State) : Represents (state.contents host place) value := by
  obtain ⟨-, rfl, -⟩ := (yields_constant_iff value).mp h
  exact represents_constant host state value

/-- The code of a comparison computes both operands and ends with an instruction that leaves `1` in
its destination if the relation holds, and `0` if it does not. What is related are the values of
integers and characters, and those of floats up to the order of two that have a sign and of zeros
with different signs; two string literals are never equal, as long as the numbers do not run out. -/
theorem comparison_leaves_relation (hop : op.kind = .relational)
    (h : (lowerExpr env (.binary op lhs rhs)).Yields before (code, place) after) :
    ∃ leftCode left middle rightCode right last,
      (lowerExpr env lhs).Yields before (leftCode, left) middle ∧
      (lowerExpr env rhs).Yields middle (rightCode, right) last ∧
      code = (leftCode ++ rightCode).push (.binary op place left right) ∧
      ∀ options label?, ∃ lines,
        instructionLines options ⟨label?, .binary op place left right⟩ = .ok lines ∧
        ∀ (host : Host) (state : State),
          (∀ value : Immediate, lhs = .literal value.literal →
            Represents (state.contents host left) value) ∧
          (∀ value : Immediate, rhs = .literal value.literal →
            Represents (state.contents host right) value) ∧
          ComparesValues op (state.contents host left) (state.contents host right)
            (state.Leaves host lines place) ∧
          ∀ text text', lhs = .literal (.string text) → rhs = .literal (.string text') →
            after.temporaries ≤ 2 ^ 32 → host.Separates after.strings →
              (op = .eq → state.Leaves host lines place False) ∧
              (op = .ne → state.Leaves host lines place True) := by
  obtain ⟨leftCode, left, middle, rightCode, right, last, hleft, hright, rfl, rfl, rfl⟩ :=
    yields_binary_iff.mp h
  refine ⟨leftCode, left, middle, rightCode, right, last, hleft, hright, rfl,
    fun options label? => ?_⟩
  obtain ⟨lines, hlines, hleaves⟩ := exists_leaves_of_relational hop options label?
    (.numbered last.temporaries) left right
  refine ⟨lines, hlines, fun host state => ⟨?left, ?right, (hleaves host state).comparesValues,
    ?strings⟩⟩
  case left =>
    rintro value rfl
    exact represents_of_yields hleft host state
  case right =>
    rintro value rfl
    exact represents_of_yields hright host state
  case strings =>
    rintro text text' rfl rfl hfit hhost
    have hne : (state.contents host left).toInt ≠ (state.contents host right).toInt := fun heq =>
      contents_ne_of_strings hleft hright (Nat.le_of_succ_le hfit) hhost state
        (BitVec.eq_of_toInt_eq heq)
    constructor
    · rintro rfl
      exact (hleaves host state).congr (iff_false_intro hne)
    · rintro rfl
      exact (hleaves host state).congr (iff_true_intro hne)

end Expressions

section Literals

open Binary64 (minusOne minusTwo minusZero plusZero value_minusOne value_minusTwo value_minusZero
  value_plusZero)

/-- The code of a comparison of two literals is one instruction, and what this leaves is not the
truth of a statement. -/
def Misses (op : BinaryOp) (lhs rhs : Literal) (truth : Prop) : Prop :=
  ∃ instruction place after lines,
    (lowerExpr (.outside ⟨[]⟩) (.binary op (.literal lhs) (.literal rhs))).Yields .full
      ([instruction], place) after ∧
    instructionLines ⟨false, false⟩ instruction = .ok lines ∧
    (∃ host : Host, host.Separates after.strings) ∧
    ∀ host : Host, host.Separates after.strings →
      ∀ state : State, ¬ state.Leaves host lines place truth

/-- Constants are compared by their words, whatever these stand for. -/
theorem misses_of_constants {op : BinaryOp} (hop : op.kind = .relational) (x y : Immediate)
    {truth : Prop} (h : ¬ (op.Relates x.word.toInt y.word.toInt ↔ truth)) :
    Misses op x.literal y.literal truth := by
  obtain ⟨lines, hlines, hleaves⟩ := exists_leaves_of_relational hop ⟨false, false⟩ none
    (.numbered 0) (.constant x) (.constant y)
  refine ⟨_, _, _, lines, yields_binary_iff.mpr ⟨[], .constant x, .full, [], .constant y, .full,
    (yields_constant_iff x).mpr ⟨rfl, rfl, rfl⟩, (yields_constant_iff y).mpr ⟨rfl, rfl, rfl⟩,
    rfl, rfl, rfl⟩, hlines, exists_separates _, fun host _ state hmissed => ?_⟩
  exact h ((hleaves host state).iff hmissed)

/-- A string literal is not found equal to another one of the same text. -/
theorem misses_of_strings (text : String) :
    Misses .eq (.string text) (.string text) (text = text) := by
  have hleft : (lowerExpr (.outside ⟨[]⟩) (.literal (.string text))).Yields .full
      ([], .string (.numbered 0)) (Supply.full.afterString text) :=
    yields_string_iff.mpr ⟨rfl, rfl, rfl⟩
  have hright : (lowerExpr (.outside ⟨[]⟩) (.literal (.string text))).Yields
      (Supply.full.afterString text) ([], .string (.numbered 1))
      ((Supply.full.afterString text).afterString text) :=
    yields_string_iff.mpr ⟨rfl, rfl, rfl⟩
  obtain ⟨lines, hlines, hleaves⟩ := exists_leaves_of_relational (rfl : BinaryOp.eq.kind = _)
    ⟨false, false⟩ none (.numbered 2) (.string (.numbered 0)) (.string (.numbered 1))
  refine ⟨_, _, _, lines, yields_binary_iff.mpr ⟨_, _, _, _, _, _, hleft, hright, rfl, rfl, rfl⟩,
    hlines, exists_separates _, fun host hhost state htexts => ?_⟩
  have hwords := ((hleaves host state).iff htexts).mpr rfl
  have hfit : ((Supply.full.afterString text).afterString text).temporaries ≤ 2 ^ 32 := by
    change 2 ≤ 2 ^ 32
    decide
  exact contents_ne_of_strings hleft hright hfit hhost state (BitVec.eq_of_toInt_eq hwords)

/-- The code for `-1.0 < 0.0` leaves `1`. -/
theorem comparison_leaves_one :
    BinaryOp.lt.kind = .relational ∧ ∃ code place after,
      (lowerExpr (.outside ⟨[]⟩) (.binary .lt (.literal (.float minusOne))
        (.literal (.float plusZero)))).Yields .full (code, place) after ∧
      ∃ operation, code = Code.ofOperation operation ∧
        ∃ lines, instructionLines ⟨false, false⟩ ⟨none, operation⟩ = .ok lines ∧
          ∀ (host : Host) (state : State), state.Leaves host lines place ((-1 : ℚ) < 0) := by
  have hlower : (lowerExpr (.outside ⟨[]⟩) (.binary .lt (.literal (.float minusOne))
      (.literal (.float plusZero)))).Yields .full
        (Code.ofOperation (.binary .lt (.temporary (.numbered 0)) (.constant (.float minusOne))
          (.constant (.float plusZero))), .temporary (.numbered 0)) Supply.full.afterTemporary :=
    rfl
  obtain ⟨_, left, middle, _, right, _, hleft, hright, -, hcompared⟩ :=
    comparison_leaves_relation rfl hlower
  obtain ⟨-, rfl, rfl⟩ := (yields_constant_iff (.float minusOne)).mp hleft
  obtain ⟨-, rfl, -⟩ := (yields_constant_iff (.float plusZero)).mp hright
  obtain ⟨lines, hlines, hcompared⟩ := hcompared ⟨false, false⟩ none
  refine ⟨rfl, _, _, _, hlower, _, rfl, lines, hlines, fun host state => ?_⟩
  obtain ⟨hleft, hright, hvalues, -⟩ := hcompared host state
  have hleaves := hvalues.floats minusOne plusZero (hleft (.float minusOne) rfl)
    (hright (.float plusZero) rfl) (by decide) (by rw [value_minusOne]; norm_num)
  rwa [value_minusOne, value_plusZero] at hleaves

/-- The code for `-2.0 < -1.0` does not leave whether `-2.0` is less, the code for `-0.0 == 0.0`
does not leave whether the zeros are equal, and the code for a comparison of a string with itself
does not leave whether the strings are equal. -/
theorem comparison_misses_values :
    BinaryOp.lt.resultType? .float .float = some .bool ∧
      BinaryOp.eq.resultType? .float .float = some .bool ∧
      BinaryOp.eq.resultType? .string .string = some .bool ∧
      Misses .lt (.float minusTwo) (.float minusOne) (minusTwo.value < minusOne.value) ∧
      Misses .eq (.float minusZero) (.float plusZero) (minusZero.value = plusZero.value) ∧
      Misses .eq (.string "a") (.string "a") ("a" = "a") := by
  refine ⟨rfl, rfl, rfl, ?negatives, ?zeros, misses_of_strings "a"⟩
  case negatives =>
    have hless : minusTwo.value < minusOne.value := by
      rw [value_minusOne, value_minusTwo]
      norm_num
    have hwords : ¬ minusTwo.signed < minusOne.signed := by decide
    exact misses_of_constants rfl (.float minusTwo) (.float minusOne) fun h =>
      hwords (h.mpr hless)
  case zeros =>
    have hequal : minusZero.value = plusZero.value := value_minusZero.trans value_plusZero.symm
    have hwords : ¬ minusZero.signed = plusZero.signed := by decide
    exact misses_of_constants rfl (.float minusZero) (.float plusZero) fun h =>
      hwords (h.mpr hequal)

end Literals

end Processor

end ThreeAddress
