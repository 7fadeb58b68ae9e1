import ThreeAddress.Proofs.Lowering.Supply
import Mathlib.Data.List.Nodup

/-!
# Labels and jumps of lowered code

The labels on the code of a statement are the ones that were taken while it was lowered, each of
them once, and a jump never leaves the statement it belongs to: the label it names sits on some
instruction of the same code. The same holds of a whole function body.
-/

namespace ThreeAddress

open LowerM

/-- The label an operation can jump to, if it jumps. -/
def Operation.target? : Operation → Option Label
  | .jump target => some target
  | .jumpIfFalse _ target => some target
  | _ => none

namespace Code

/-- The labels that some code can jump to, in order. -/
def targets (code : Code) : List Label :=
  code.filterMap fun instruction => instruction.operation.target?

/-- Labelling puts at most an operation without effect in front. So it changes nothing that is
collected from operations, if nothing is collected from that one. -/
theorem filterMap_marked (collect? : Operation → Option α) (hnop : collect? .nop = none)
    (label : Label) (code : Code) :
    ((code.marked label).filterMap fun instruction => collect? instruction.operation) =
      code.filterMap fun instruction => collect? instruction.operation := by
  match code with
  | ⟨none, _⟩ :: _ => rfl
  | [] | ⟨some _, _⟩ :: _ => exact List.filterMap_cons_none hnop

/-- Nor does labelling change what is collected if that is a list for each operation. -/
theorem flatMap_marked (collect : Operation → List α) (hnop : collect .nop = [])
    (label : Label) (code : Code) :
    ((code.marked label).flatMap fun instruction => collect instruction.operation) =
      code.flatMap fun instruction => collect instruction.operation := by
  match code with
  | ⟨none, _⟩ :: _ => rfl
  | [] | ⟨some _, _⟩ :: _ => simp only [marked, List.flatMap_cons, hnop, List.nil_append]

/-- Labels of a sequence are those of its parts. -/
@[simp] theorem labels_append (first second : Code) :
    labels (first ++ second) = labels first ++ labels second :=
  List.filterMap_append

/-- An operation at the end of some code has no label. -/
@[simp] theorem labels_push (code : Code) (operation : Operation) :
    (code.push operation).labels = code.labels := by
  simp [push, labels, ofOperation, Operation.unlabelled]

/-- A single operation has no label. -/
@[simp] theorem labels_ofOperation (operation : Operation) : (ofOperation operation).labels = [] :=
  rfl

/-- The place behind a construct has its label only. -/
@[simp] theorem labels_landing (label : Label) : (landing label).labels = [label] := rfl

/-- Jumps of a sequence are those of its parts. -/
@[simp] theorem targets_append (first second : Code) :
    targets (first ++ second) = targets first ++ targets second :=
  List.filterMap_append

/-- An operation at the end of some code adds its jump. -/
@[simp] theorem targets_push (code : Code) (operation : Operation) :
    (code.push operation).targets = code.targets ++ operation.target?.toList := by
  cases h : operation.target? <;> simp [push, targets, ofOperation, Operation.unlabelled, h]

/-- A single operation has its own jump. -/
@[simp] theorem targets_ofOperation (operation : Operation) :
    (ofOperation operation).targets = operation.target?.toList := by
  cases h : operation.target? <;> simp [targets, ofOperation, Operation.unlabelled, h]

/-- The place behind a construct does not jump. -/
@[simp] theorem targets_landing (label : Label) : (landing label).targets = [] := rfl

/-- Labelling changes no jump. -/
@[simp] theorem targets_marked (label : Label) (code : Code) :
    (code.marked label).targets = code.targets :=
  filterMap_marked Operation.target? rfl label code

end Code

/-- Code with the labels taken between two supplies, none of them twice, and jumps among them. -/
structure Labelled (before : Supply) (code : Code) (after : Supply) : Prop where
  drawn : before.Drawn after
  count : after.labels = before.labels + code.labels.length
  targets_subset : code.targets ⊆ code.labels
  took : ∀ label ∈ code.labels, before.TookLabel after label
  nodup : after.labels ≤ 2 ^ 32 → code.labels.Nodup

namespace StraightLine

variable {before after : Supply} {code : Code}

/-- A straight line has no labels. -/
theorem labels_eq_nil (h : StraightLine before code after) : code.labels = [] := by
  simpa [Code.labels] using h.unlabelled

/-- A straight line has no jumps. -/
theorem targets_eq_nil (h : StraightLine before code after) : code.targets = [] := by
  simp only [Code.targets, List.filterMap_eq_nil_iff]
  intro instruction hmem
  have hstraight := h.straight instruction hmem
  cases hoperation : instruction.operation <;>
    simp_all [Operation.isStraight, Operation.target?]

/-- A straight line is free of labels. -/
theorem labelled (h : StraightLine before code after) : Labelled before code after where
  drawn := h.drawn
  count := by simp [h.labels_eq_nil, h.labels_eq]
  targets_subset := by simp [h.targets_eq_nil]
  took := by simp [h.labels_eq_nil]
  nodup := by simp [h.labels_eq_nil]

/-- A straight line with an operation behind it that does not jump is free of labels. -/
theorem labelled_push (h : StraightLine before code after) {operation : Operation}
    (hoperation : operation.target? = none) : Labelled before (code.push operation) after where
  drawn := h.drawn
  count := by simp [h.labels_eq_nil, h.labels_eq]
  targets_subset := by simp [h.targets_eq_nil, hoperation]
  took := by simp [h.labels_eq_nil]
  nodup := by simp [h.labels_eq_nil]

end StraightLine

namespace Labelled

variable {first second third : Supply} {code rest : Code}

/-- Nothing at all has no labels. -/
theorem nil (supply : Supply) : Labelled supply [] supply where
  drawn := .refl
  count := rfl
  targets_subset := by simp [Code.targets]
  took := by simp [Code.labels]
  nodup := by simp [Code.labels]

/-- Code that is lowered one part after the other keeps its labels apart. -/
theorem append (h : Labelled first code second) (h' : Labelled second rest third) :
    Labelled first (code ++ rest) third where
  drawn := h.drawn.trans h'.drawn
  count := by rw [h'.count, h.count, Code.labels_append, List.length_append, Nat.add_assoc]
  targets_subset := by
    rw [Code.targets_append, Code.labels_append]
    exact List.append_subset.mpr
      ⟨List.subset_append_of_subset_left _ h.targets_subset,
        List.subset_append_of_subset_right _ h'.targets_subset⟩
  took := by
    intro label hmem
    rw [Code.labels_append] at hmem
    rcases List.mem_append.mp hmem with hmem | hmem
    · exact (h.took label hmem).mono (Nat.le_refl _) h'.drawn.labels_le
    · exact (h'.took label hmem).mono h.drawn.labels_le (Nat.le_refl _)
  nodup hfit := by
    have hgrow := h'.drawn.labels_le
    rw [Code.labels_append, List.nodup_append]
    refine ⟨h.nodup (by omega), h'.nodup hfit, ?_⟩
    rintro label hmem _ hmem' rfl
    exact (h.took label hmem).not_later hfit hgrow (h'.took label hmem')

/-- A construct puts labels of its own, taken before its parts were lowered, around the parts. -/
theorem enclose {whole : Code} (h : Labelled second code third) (hdrawn : first.Drawn second)
    (numbers : List Nat) (hnumbers : numbers.Nodup)
    (hcount : second.labels = first.labels + numbers.length)
    (hrange : ∀ number ∈ numbers, first.labels ≤ number ∧ number < second.labels)
    (hlabels : whole.labels.Perm (numbers.map Label.numbered ++ code.labels))
    (htargets : whole.targets ⊆ numbers.map Label.numbered ++ code.targets) :
    Labelled first whole third where
  drawn := hdrawn.trans h.drawn
  count := by rw [h.count, hcount, hlabels.length_eq, List.length_append, List.length_map,
    Nat.add_assoc]
  targets_subset := by
    intro label hlabel
    rw [hlabels.mem_iff]
    rcases List.mem_append.mp (htargets hlabel) with hown | hpart
    · exact List.mem_append_left _ hown
    · exact List.mem_append_right _ (h.targets_subset hpart)
  took := by
    intro label hlabel
    rw [hlabels.mem_iff] at hlabel
    rcases List.mem_append.mp hlabel with hown | hpart
    · obtain ⟨number, hnumber, rfl⟩ := List.mem_map.mp hown
      obtain ⟨hle, hlt⟩ := hrange number hnumber
      exact ⟨number, hle, Nat.lt_of_lt_of_le hlt h.drawn.labels_le, rfl⟩
    · exact (h.took label hpart).mono hdrawn.labels_le (Nat.le_refl _)
  nodup hfit := by
    have hgrow := h.drawn.labels_le
    rw [hlabels.nodup_iff, List.nodup_append]
    refine ⟨List.Nodup.map_on ?_ hnumbers, h.nodup hfit, ?_⟩
    · intro number hnumber other hother heq
      obtain ⟨-, hlt⟩ := hrange number hnumber
      obtain ⟨-, hlt'⟩ := hrange other hother
      exact Label.numbered_inj (by omega) (by omega) heq
    · rintro label hown _ hpart rfl
      obtain ⟨number, hnumber, rfl⟩ := List.mem_map.mp hown
      obtain ⟨other, hle, hlt, heq⟩ := h.took _ hpart
      obtain ⟨-, hlt'⟩ := hrange number hnumber
      have := Label.numbered_inj (by omega) (by omega) heq
      omega

end Labelled

/-- Lowering a statement keeps its labels apart and its jumps inside. -/
theorem labelled_of_lowerStmt {env : Environment} {stmt : Stmt} {before after : Supply}
    {code : Code} (h : (lowerStmt env stmt).Yields before code after) :
    Labelled before code after := by
  refine lowerStmt_induction (P := fun _ before code after => Labelled before code after)
    (Q := fun _ before code after => Labelled before code after)
    ?assign ?assignElement ?print ?ret ?ifThen ?ifElse ?loop ?block ?empty ?nil ?cons h
  case assign => exact fun _ _ _ _ _ _ hvalue => (straightLine_of_yields hvalue).labelled_push rfl
  case assignElement =>
    intro array index value before valueCode source middle indexCode place after hvalue hindex
    exact ((straightLine_of_yields hvalue).append (straightLine_of_yields hindex)).labelled_push rfl
  case print => exact fun _ _ _ _ _ hvalue => (straightLine_of_yields hvalue).labelled_push rfl
  case ret => exact fun _ _ _ _ _ hvalue => (straightLine_of_yields hvalue).labelled_push rfl
  case ifThen =>
    intro condition positive before test place middle branch after htest hbranch
    have hline := straightLine_of_yields htest
    refine hbranch.enclose hline.drawn.label [middle.labels] (by simp) ?_ ?_ ?_ ?_
    · exact congrArg (· + 1) hline.labels_eq
    · simp [hline.labels_eq, Supply.afterLabel]
    · simp [hline.labels_eq_nil]
    · simp [hline.targets_eq_nil, Operation.target?]
  case ifElse =>
    intro condition positive negative before test place middle branch last alternative after htest
      hbranch halternative
    have hline := straightLine_of_yields htest
    refine (hbranch.append halternative).enclose hline.drawn.label.label
      [middle.labels, middle.labels + 1] (by simp) ?_ ?_ ?_ ?_
    · exact congrArg (· + 2) hline.labels_eq
    · intro number hnumber
      have hsame := hline.labels_eq
      have hnext : middle.afterLabel.afterLabel.labels = middle.labels + 2 := rfl
      simp only [List.mem_cons, List.not_mem_nil, or_false] at hnumber
      omega
    · have hbehind := List.perm_append_singleton (Label.numbered (middle.labels + 1))
        alternative.labels
      simpa [hline.labels_eq_nil] using
        List.perm_middle.trans (((hbehind.append_left _).trans List.perm_middle).cons _)
    · intro label hlabel
      simp only [hline.targets_eq_nil, Operation.target?, Code.targets_append, Code.targets_push,
        Code.targets_marked, Code.targets_landing, Option.toList_some, List.nil_append,
        List.mem_append, List.mem_singleton, List.not_mem_nil, or_false] at hlabel
      simp only [List.map_cons, List.map_nil, Code.targets_append, List.mem_append, List.mem_cons]
      grind
  case loop =>
    intro condition body before test place middle round after htest hround
    have hline := straightLine_of_yields htest
    refine hround.enclose (Supply.Drawn.refl.label.label.trans hline.drawn)
      [before.labels, before.labels + 1] (by simp) ?_ ?_ ?_ ?_
    · exact hline.labels_eq
    · intro number hnumber
      have hsame := hline.labels_eq
      have hnext : before.afterLabel.afterLabel.labels = before.labels + 2 := rfl
      simp only [List.mem_cons, List.not_mem_nil, or_false] at hnumber
      omega
    · simp [hline.labels_eq_nil]
    · simp [hline.targets_eq_nil, Operation.target?]
  case block => exact fun _ _ _ _ h => h
  case empty => exact .nil
  case nil => exact .nil
  case cons => exact fun _ _ _ _ _ _ _ hfirst hrest => hfirst.append hrest

section Programs

variable {scope : Scope} {before after : Supply} {code : Code}

/-- The labels of a body are those of its statement. -/
theorem labelled_of_lowerImplementation {implementation : Implementation}
    (h : (lowerImplementation scope implementation).Yields before code after) :
    Labelled before code after := by
  obtain ⟨body, hbody, rfl⟩ := yields_implementation_iff.mp h
  refine (labelled_of_lowerStmt hbody).enclose .refl [] List.nodup_nil rfl (by simp) ?_ ?_
  · simp
  · simp [Operation.target?]

/-- Bodies keep their labels apart from each other. -/
theorem labelled_of_lowerImplementations {implementations : List Implementation}
    (h : (lowerImplementations scope implementations).Yields before code after) :
    Labelled before code after := by
  induction implementations generalizing before code with
  | nil =>
    obtain ⟨rfl, rfl⟩ := yields_implementations_nil_iff.mp h
    exact .nil after
  | cons implementation rest ih =>
    obtain ⟨first, middle, others, hfirst, hothers, rfl⟩ :=
      yields_implementations_cons_iff.mp h
    exact (labelled_of_lowerImplementation hfirst).append (ih hothers)

/-- The code of a program has the labels that were taken for it. -/
theorem Program.labelled_of_lower {program : Program} {unit : CodeUnit}
    (h : program.lower = .ok unit) : Labelled .full unit.code program.supply := by
  obtain ⟨code, after, hyields, rfl⟩ := Program.lower_eq_ok_iff.mp h
  rw [Program.supply_eq hyields]
  exact labelled_of_lowerImplementations hyields

/-- No label of a program is attached twice, as long as the labels do not run out. -/
theorem Program.nodup_labels {program : Program} {unit : CodeUnit} (h : program.lower = .ok unit)
    (hlabels : unit.code.labels.length ≤ 2 ^ 32) : unit.code.labels.Nodup := by
  have hlabelled := Program.labelled_of_lower h
  have hcount : program.supply.labels = 0 + unit.code.labels.length := hlabelled.count
  exact hlabelled.nodup (by omega)

end Programs

end ThreeAddress
