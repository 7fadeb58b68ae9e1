import ThreeAddress.Proofs.Execution.Machine
import ThreeAddress.Proofs.Lowering.Labels

/-!
# Code inside code

The code of a part of a program is found inside the code of the whole, at a position of its own.
It stands there as it was lowered, except that a head without a label may have been given one by
the construct around it. Since no label is attached twice, a label of the part marks, in the
whole, the very instruction that it marks in the part.
-/

namespace ThreeAddress

namespace Code

/-- An operation at the end makes code longer by one. -/
@[simp] theorem length_push (code : Code) (operation : Operation) :
    (code.push operation).length = code.length + 1 :=
  List.length_append

/-- Some code stands at a position of other code, up to a label put on its head. -/
def Located (code : Code) (base : Nat) (part : Code) : Prop :=
  ∀ index instruction, part[index]? = some instruction →
    ∃ whole, code[base + index]? = some whole ∧ whole.operation = instruction.operation ∧
      (whole.label? = instruction.label? ∨ (index = 0 ∧ instruction.label? = none))

/-- A label that is attached once marks the instruction that carries it. -/
theorem position?_eq_some {code : Code} (hnodup : code.labels.Nodup) {index : Nat}
    {instruction : Instruction} {label : Label} (h : code[index]? = some instruction)
    (hlabel : instruction.label? = some label) : code.position? label = some index := by
  induction code generalizing index with
  | nil => simp at h
  | cons head rest ih =>
    cases index with
    | zero =>
      obtain rfl : head = instruction := by simpa using h
      simp [position?, List.findIdx?_cons, hlabel]
    | succ index =>
      have hrest : rest[index]? = some instruction := by simpa using h
      have hmem : label ∈ labels rest :=
        List.mem_filterMap.mpr ⟨instruction, List.mem_of_getElem? hrest, hlabel⟩
      have hhead : head.label? ≠ some label := by
        intro heq
        have : labels (head :: rest) = label :: labels rest := by simp [labels, heq]
        rw [this] at hnodup
        exact (List.nodup_cons.mp hnodup).1 hmem
      have hnodup' : (labels rest).Nodup :=
        hnodup.sublist ((List.sublist_cons_self head rest).filterMap _)
      have hfound := ih hnodup' hrest
      unfold position? at hfound ⊢
      simp [List.findIdx?_cons, hhead, hfound]

/-- Marked code starts with its label. -/
theorem exists_getElem?_marked (label : Label) (code : Code) :
    ∃ operation, (code.marked label)[0]? = some ⟨some label, operation⟩ := by
  match code with
  | [] => exact ⟨_, rfl⟩
  | ⟨none, _⟩ :: _ => exact ⟨_, rfl⟩
  | ⟨some _, _⟩ :: _ => exact ⟨_, rfl⟩

/-- Marking some code puts an instruction without effect in front of it, or only puts a label on its
head. -/
theorem marked_cases (label : Label) (code : Code) :
    code.marked label = ⟨some label, .nop⟩ :: code ∨
      (code.marked label).Located 0 code ∧ (code.marked label).length = code.length := by
  match code with
  | [] => exact .inl rfl
  | ⟨some _, _⟩ :: _ => exact .inl rfl
  | ⟨none, operation⟩ :: rest =>
    refine .inr ⟨fun index instruction hindex => ?_, rfl⟩
    rw [Nat.zero_add]
    cases index with
    | zero =>
      obtain rfl : (⟨none, operation⟩ : Instruction) = instruction := by simpa using hindex
      exact ⟨_, rfl, rfl, .inr ⟨rfl, rfl⟩⟩
    | succ index => exact ⟨instruction, hindex, rfl, .inl rfl⟩

namespace Located

variable {code part first second : Code} {base : Nat}

/-- Code stands at its own beginning. -/
theorem self (code : Code) : code.Located 0 code := by
  intro index instruction h
  exact ⟨instruction, by simpa using h, rfl, .inl rfl⟩

/-- The front of some code stands where that code stands. -/
theorem left (h : code.Located base (first ++ second)) : code.Located base first := by
  intro index instruction hindex
  refine h index instruction ?_
  have hlt := (List.getElem?_eq_some_iff.mp hindex).1
  rwa [List.getElem?_append_left hlt]

/-- The rest of some code stands behind its front. -/
theorem right (h : code.Located base (first ++ second)) :
    code.Located (base + first.length) second := by
  intro index instruction hindex
  have happend : (first ++ second)[first.length + index]? = some instruction := by
    rwa [List.getElem?_append_right (Nat.le_add_right _ _), Nat.add_sub_cancel_left]
  obtain ⟨whole, hwhole, hoperation, hlabel⟩ := h _ _ happend
  refine ⟨whole, by rwa [Nat.add_assoc], hoperation, hlabel.imp_right fun hzero => ?_⟩
  exact ⟨by omega, hzero.2⟩

/-- Code inside code that stands somewhere stands there too. -/
theorem trans {inner : Code} {offset : Nat} (h : code.Located base part)
    (h' : part.Located offset inner) : code.Located (base + offset) inner := by
  intro index instruction hindex
  obtain ⟨middle, hmiddle, hoperation, hlabel⟩ := h' index instruction hindex
  obtain ⟨whole, hwhole, hoperation', hlabel'⟩ := h _ _ hmiddle
  refine ⟨whole, by rwa [Nat.add_assoc], hoperation'.trans hoperation, ?_⟩
  rcases hlabel with hsame | ⟨rfl, hnone⟩
  · rcases hlabel' with hsame' | ⟨hzero, hnone⟩
    · exact .inl (hsame'.trans hsame)
    · exact .inr ⟨by omega, hsame ▸ hnone⟩
  · exact .inr ⟨rfl, hnone⟩

/-- The operation at the end of some code stands behind the rest of it. -/
theorem last {operation : Operation} (h : code.Located base (part.push operation)) :
    ∃ whole, code[base + part.length]? = some whole ∧ whole.operation = operation := by
  obtain ⟨whole, hwhole, hoperation, -⟩ := h.right 0 operation.unlabelled rfl
  exact ⟨whole, hwhole, hoperation⟩

/-- Code stands inside itself when it is marked. -/
theorem exists_marked (label : Label) (code : Code) :
    ∃ base, (code.marked label).Located base code := by
  rcases marked_cases label code with hnop | ⟨hlocated, -⟩
  · have hself : Located ([⟨some label, .nop⟩] ++ code) 0 ([⟨some label, .nop⟩] ++ code) := self _
    rw [hnop]
    exact ⟨_, hself.right⟩
  · exact ⟨0, hlocated⟩

/-- A label of some code marks the same operation where the code stands. -/
theorem labelled (h : code.Located base part) (index : Nat) {instruction : Instruction}
    {label : Label} (hinstruction : part[index]? = some instruction)
    (hlabel : instruction.label? = some label) :
    ∃ whole, code[base + index]? = some whole ∧ whole.operation = instruction.operation ∧
      whole.label? = some label := by
  obtain ⟨whole, hwhole, hoperation, hsame⟩ := h index instruction hinstruction
  refine ⟨whole, hwhole, hoperation, ?_⟩
  rcases hsame with hsame | ⟨-, hnone⟩
  · exact hsame.trans hlabel
  · rw [hnone] at hlabel
    contradiction

/-- The place behind a construct is an instruction without effect that its label marks. -/
theorem landing {label : Label} (h : code.Located base (Code.landing label))
    (hnodup : code.labels.Nodup) :
    code.position? label = some base ∧
      ∃ whole, code[base]? = some whole ∧ whole.operation = .nop := by
  obtain ⟨whole, hwhole, hoperation, hmark⟩ := h.labelled 0 rfl rfl
  exact ⟨position?_eq_some hnodup hwhole hmark, whole, hwhole, hoperation⟩

/-- Marked code stands behind its label, with at most an instruction without effect between. -/
theorem marked {label : Label} (h : code.Located base (part.marked label))
    (hnodup : code.labels.Nodup) :
    code.position? label = some base ∧
      ((code.Located base part ∧ (part.marked label).length = part.length) ∨
        (code.Located (base + 1) part ∧ (part.marked label).length = part.length + 1 ∧
          ∃ whole, code[base]? = some whole ∧ whole.operation = .nop)) := by
  obtain ⟨operation, hhead⟩ := exists_getElem?_marked label part
  obtain ⟨whole, hwhole, -, hmark⟩ := h.labelled 0 hhead rfl
  refine ⟨position?_eq_some hnodup hwhole hmark, ?_⟩
  rcases marked_cases label part with hnop | ⟨hpart, hlength⟩
  · rw [hnop] at h
    obtain ⟨first, hfirst, hnop', -⟩ := h 0 ⟨some label, .nop⟩ rfl
    have hbehind : code.Located base ([⟨some label, .nop⟩] ++ part) := h
    exact .inr ⟨hbehind.right, by simp [hnop], first, hfirst, hnop'⟩
  · exact .inl ⟨h.trans hpart, hlength⟩

end Located

end Code

end ThreeAddress
