import ThreeAddress.Proofs.Processor.Comparison

/-!
# Combining words

The lines of an operator combine the words in `rax` and `rcx` into `rax`. Sums, differences and
products wrap around. A quotient is that of signed numbers, truncated towards zero; there is none
for a divisor of zero, and none that is no signed word. Only a division writes another register,
`rdx`, where it leaves the remainder.
-/

namespace ThreeAddress

/-- A relation is decided like the order behind it. -/
instance {α : Type*} [LinearOrder α] (op : BinaryOp) (x y : α) : Decidable (op.Relates x y) :=
  match op with
  | .lt => inferInstanceAs (Decidable (x < y))
  | .gt => inferInstanceAs (Decidable (y < x))
  | .le => inferInstanceAs (Decidable (x ≤ y))
  | .ge => inferInstanceAs (Decidable (y ≤ x))
  | .eq => inferInstanceAs (Decidable (x = y))
  | .ne => inferInstanceAs (Decidable (x ≠ y))
  | .add | .sub | .mul | .div | .and | .or | .xor => inferInstanceAs (Decidable False)

namespace Processor

open Assembly

/-- What an operator makes of two words, if it makes a word of them. Arithmetic wraps around but for
a quotient, and comparisons are of signed numbers. -/
def onWords? (op : BinaryOp) (left right : Word) : Option Word :=
  match op with
  | .add => some (left + right)
  | .sub => some (left - right)
  | .mul => some (left * right)
  | .div =>
    let quotient := left.toInt.tdiv right.toInt
    if right = 0 ∨ quotient < -2 ^ 63 ∨ 2 ^ 63 ≤ quotient then none
    else some (.ofInt 64 quotient)
  | .and => some (left &&& right)
  | .or => some (left ||| right)
  | .xor => some (left ^^^ right)
  | .lt | .gt | .le | .ge | .eq | .ne =>
    some (if op.Relates left.toInt right.toInt then 1 else 0)

variable {host : Host} {state : State} {op : BinaryOp} {left right value : Word}

/-- A word that its sign is put in front of is the same signed number. -/
theorem toInt_extended (low : Word) :
    ((if low.msb then BitVec.allOnes 64 else 0) ++ low).toInt = low.toInt := by
  rw [BitVec.toInt_append, BitVec.toInt_eq_msb_cond]
  cases low.msb with
  | true =>
    simp
    omega
  | false => simp

/-- If there is a quotient, the division of a word with its sign in front yields it. -/
theorem divided?_extended (h : onWords? .div left right = some value) :
    ∃ remainder, divided? (if left.msb then BitVec.allOnes 64 else 0) left right =
      some (value, remainder) := by
  simp only [onWords?] at h
  split at h
  · contradiction
  · next hquotient =>
    obtain rfl := Option.some.inj h
    rw [divided?, toInt_extended]
    exact ⟨_, if_neg hquotient⟩

/-- The registers that the lines of an operator write. -/
def combined : BinaryOp → List WordRegister
  | .div => [.rax, .rdx]
  | _ => [.rax]

/-- An operation on words leaves its result in `rax`. -/
theorem exists_leadsTo_word (wordOp : WordOp) :
    ∃ final, state.LeadsTo host [.rax] [.instruction (.word wordOp .rcx .rax)] final ∧
      final.registers .rax = resultOf wordOp (state.registers .rax) (state.registers .rcx) :=
  ⟨_, ⟨rfl, rfl, (State.Keeps.refl _ _).setRegister (List.mem_singleton_self _) _⟩,
    State.registers_setRegister state .rax _⟩

/-- The lines of a relational operator leave in `rax` whether its relation holds. -/
theorem exists_leadsTo_relation (hop : op.kind = .relational) :
    ∃ final, state.LeadsTo host [.rax] (combine op) final ∧
      final.registers .rax =
        if op.Relates (state.registers .rax).toInt (state.registers .rcx).toInt then 1 else 0 := by
  obtain ⟨condition, hcombine, hholds⟩ := exists_combine_eq_comparison hop
  obtain ⟨final, hafter, hmemory, hrax, hkeeps⟩ :=
    @exists_after?_comparison host state condition
  rw [if_congr (hholds _ _) rfl rfl] at hrax
  exact ⟨final, ⟨hcombine ▸ hafter, hmemory, hkeeps⟩, hrax⟩

/-- A division by `rcx` writes the quotient and the remainder. -/
theorem execute_divide {quotient remainder : Word}
    (h : divided? (state.registers .rdx) (state.registers .rax) (state.registers .rcx) =
      some (quotient, remainder)) :
    state.execute host (.divide .rcx) =
      .next { (state.setRegister .rax quotient).setRegister .rdx remainder with
        flags := host.undefined (.divide .rcx) state } := by
  simp [State.execute, State.read?, word?, h, Outcome.ofOption]

/-- A division leaves its quotient in `rax`. -/
theorem exists_leadsTo_divide
    (h : onWords? .div (state.registers .rax) (state.registers .rcx) = some value) :
    ∃ final, state.LeadsTo host [.rax, .rdx] (combine .div) final ∧
      final.registers .rax = value := by
  obtain ⟨remainder, hdivided⟩ := divided?_extended h
  have hdivide := @execute_divide host (state.setRegister .rdx
    (if (state.registers .rax).msb then BitVec.allOnes 64 else 0)) _ _ hdivided
  refine ⟨_, ⟨(State.after?_cons rfl).trans (State.after?_cons hdivide), rfl, ?_⟩, rfl⟩
  exact (((State.Keeps.refl _ _).setRegister (by decide) _).setRegister (by decide)
    _).setRegister (by decide) _

/-- The lines of an operator leave in `rax` what it makes of the words in `rax` and `rcx`. -/
theorem exists_leadsTo_combine
    (h : onWords? op (state.registers .rax) (state.registers .rcx) = some value) :
    ∃ final, state.LeadsTo host (combined op) (combine op) final ∧
      final.registers .rax = value := by
  cases op with
  | div => exact exists_leadsTo_divide h
  | add | sub | mul | and | or | xor =>
    obtain rfl := Option.some.inj h
    exact exists_leadsTo_word _
  | lt | gt | le | ge | eq | ne =>
    obtain rfl := Option.some.inj h
    exact exists_leadsTo_relation rfl

end Processor

end ThreeAddress
