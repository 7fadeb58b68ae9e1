import ThreeAddress.Proofs.Lowering.Steps
import Mathlib.Algebra.Group.Nat.Defs

/-!
# What lowering draws from its supply

Lowering only ever takes the next temporary, takes the next label or registers a string under
the next number. From this alone it follows that numbers grow, and that a string constant keeps
its text for as long as the numbers do not run out. The code of an expression is a straight line:
it has no labels, no jumps, and writes no temporary but those it took itself.
-/

namespace ThreeAddress

open LowerM

/-- The temporaries below the bound on identifiers are all different. -/
theorem Temporary.numbered_inj {first second : Nat} (hfirst : first < 2 ^ 32)
    (hsecond : second < 2 ^ 32) (h : Temporary.numbered first = .numbered second) :
    first = second := by
  have hid : UInt32.ofNat first = UInt32.ofNat second := congrArg Temporary.id h
  have hnat := congrArg UInt32.toNat hid
  rwa [UInt32.toNat_ofNat_of_lt' hfirst, UInt32.toNat_ofNat_of_lt' hsecond] at hnat

/-- The labels below the bound on identifiers are all different. -/
theorem Label.numbered_inj {first second : Nat} (hfirst : first < 2 ^ 32)
    (hsecond : second < 2 ^ 32) (h : Label.numbered first = .numbered second) :
    first = second := by
  have hid : UInt32.ofNat first = UInt32.ofNat second := congrArg Label.id h
  have hnat := congrArg UInt32.toNat hid
  rwa [UInt32.toNat_ofNat_of_lt' hfirst, UInt32.toNat_ofNat_of_lt' hsecond] at hnat

namespace StringPool

/-- A constant that was just registered is found. -/
theorem find?_insert_self (pool : StringPool) (id : Temporary) (text : String) :
    (pool.insert id text).find? id = some text := by
  have hplace : ∀ entries : List (Temporary × String),
      (place id text entries).find? (fun entry => decide (entry.1 = id)) = some (id, text) := by
    intro entries
    induction entries with
    | nil => simp [place]
    | cons head rest ih =>
      unfold place
      split
      · simp
      · split
        · simp
        · next hne => simp [Ne.symm hne, ih]
  simp [find?, insert, hplace]

/-- Registering a constant changes nothing under other numbers. -/
theorem find?_insert_of_ne (pool : StringPool) {id other : Temporary} (text : String)
    (h : other ≠ id) : (pool.insert id text).find? other = pool.find? other := by
  have hplace : ∀ entries : List (Temporary × String),
      (place id text entries).find? (fun entry => decide (entry.1 = other)) =
        entries.find? (fun entry => decide (entry.1 = other)) := by
    intro entries
    induction entries with
    | nil => simp [place, Ne.symm h]
    | cons head rest ih =>
      unfold place
      split
      · simp [Ne.symm h]
      · split
        · next heq => simp [← heq, Ne.symm h]
        · simp [List.find?_cons, ih]
  simp [find?, insert, hplace]

end StringPool

namespace Supply

/-- One supply is left after drawing from another. -/
inductive Drawn (start : Supply) : Supply → Prop
  | refl : Drawn start start
  | temporary {supply : Supply} : Drawn start supply → Drawn start supply.afterTemporary
  | label {supply : Supply} : Drawn start supply → Drawn start supply.afterLabel
  | string {supply : Supply} (text : String) :
      Drawn start supply → Drawn start (supply.afterString text)

/-- A temporary was taken between two supplies. -/
def Took (before after : Supply) (id : Temporary) : Prop :=
  ∃ number, before.temporaries ≤ number ∧ number < after.temporaries ∧ id = .numbered number

/-- A label was taken between two supplies. -/
def TookLabel (before after : Supply) (label : Label) : Prop :=
  ∃ number, before.labels ≤ number ∧ number < after.labels ∧ label = .numbered number

/-- A pool has the texts that were registered between two supplies. -/
def Registered (pool : StringPool) (before after : Supply) : Prop :=
  ∀ number, before.temporaries ≤ number → number < after.temporaries →
    pool.find? (.numbered number) = after.strings.find? (.numbered number)

namespace Drawn

variable {first second third : Supply}

/-- Drawing goes on where it stopped. -/
theorem trans (h : Drawn first second) (h' : Drawn second third) : Drawn first third := by
  induction h' with
  | refl => exact h
  | temporary _ ih => exact ih.temporary
  | label _ ih => exact ih.label
  | string text _ ih => exact ih.string text

/-- The number of temporaries taken never falls. -/
theorem temporaries_le (h : Drawn first second) : first.temporaries ≤ second.temporaries := by
  induction h with
  | refl => exact Nat.le_refl _
  | temporary _ ih => exact Nat.le_succ_of_le ih
  | label _ ih => exact ih
  | string _ _ ih => exact Nat.le_succ_of_le ih

/-- The number of labels taken never falls. -/
theorem labels_le (h : Drawn first second) : first.labels ≤ second.labels := by
  induction h with
  | refl => exact Nat.le_refl _
  | temporary _ ih => exact ih
  | label _ ih => exact Nat.le_succ_of_le ih
  | string _ _ ih => exact ih

/-- Only the numbers taken in between can have got another text. -/
theorem find?_strings_eq (h : Drawn first second) (hfit : second.temporaries ≤ 2 ^ 32)
    {number : Nat} (hnumber : number < 2 ^ 32)
    (houtside : number < first.temporaries ∨ second.temporaries ≤ number) :
    second.strings.find? (.numbered number) = first.strings.find? (.numbered number) := by
  induction h with
  | refl => rfl
  | @temporary supply _ ih =>
    have hnext : supply.afterTemporary.temporaries = supply.temporaries + 1 := rfl
    exact ih (by omega) (by omega)
  | label _ ih => exact ih hfit houtside
  | @string supply text h ih =>
    have hnext : (supply.afterString text).temporaries = supply.temporaries + 1 := rfl
    have hle := h.temporaries_le
    have hne : Temporary.numbered number ≠ .numbered supply.temporaries := by
      intro heq
      have := Temporary.numbered_inj hnumber (by omega) heq
      omega
    rw [Supply.afterString, StringPool.find?_insert_of_ne _ _ hne]
    exact ih (by omega) (by omega)

/-- A pool that has all texts has those registered first. -/
theorem registered_left {pool : StringPool} (h : Drawn second third)
    (hfit : third.temporaries ≤ 2 ^ 32) (hpool : Registered pool first third) :
    Registered pool first second := by
  intro number hle hlt
  have hgrow := h.temporaries_le
  rw [hpool number hle (by omega), h.find?_strings_eq hfit (by omega) (.inl hlt)]

/-- A pool that has all texts has those registered last. -/
theorem registered_right {pool : StringPool} (h : Drawn first second)
    (hpool : Registered pool first third) : Registered pool second third := by
  intro number hle hlt
  have hgrow := h.temporaries_le
  exact hpool number (by omega) hlt

end Drawn

/-- What a shorter stretch took, a longer one took. -/
theorem Took.mono {before before' after after' : Supply} {id : Temporary}
    (h : before.Took after id) (hbefore : before'.temporaries ≤ before.temporaries)
    (hafter : after.temporaries ≤ after'.temporaries) : before'.Took after' id := by
  obtain ⟨number, hle, hlt, rfl⟩ := h
  exact ⟨number, by omega, by omega, rfl⟩

/-- Two stretches that follow each other take different temporaries. -/
theorem Took.not_later {first second third : Supply} {id : Temporary}
    (h : first.Took second id) (hfit : third.temporaries ≤ 2 ^ 32)
    (hgrow : second.temporaries ≤ third.temporaries) : ¬ second.Took third id := by
  rintro ⟨number', hle', hlt', heq⟩
  obtain ⟨number, hle, hlt, rfl⟩ := h
  have := Temporary.numbered_inj (by omega) (by omega) heq
  omega

/-- What a shorter stretch took, a longer one took. -/
theorem TookLabel.mono {before before' after after' : Supply} {label : Label}
    (h : before.TookLabel after label) (hbefore : before'.labels ≤ before.labels)
    (hafter : after.labels ≤ after'.labels) : before'.TookLabel after' label := by
  obtain ⟨number, hle, hlt, rfl⟩ := h
  exact ⟨number, by omega, by omega, rfl⟩

/-- Two stretches that follow each other take different labels. -/
theorem TookLabel.not_later {first second third : Supply} {label : Label}
    (h : first.TookLabel second label) (hfit : third.labels ≤ 2 ^ 32)
    (hgrow : second.labels ≤ third.labels) : ¬ second.TookLabel third label := by
  rintro ⟨number', hle', hlt', heq⟩
  obtain ⟨number, hle, hlt, rfl⟩ := h
  have := Label.numbered_inj (by omega) (by omega) heq
  omega

end Supply

/-- Whether control goes on behind an operation, in the same function. -/
def Operation.isStraight : Operation → Bool
  | .enter _ | .leave | .jump _ | .jumpIfFalse .. | .ret _ => false
  | _ => true

/-- A straight line of code that takes no labels and writes no temporary but those it took. -/
structure StraightLine (before : Supply) (code : Code) (after : Supply) : Prop where
  drawn : before.Drawn after
  labels_eq : after.labels = before.labels
  unlabelled : ∀ instruction ∈ code, instruction.label? = none
  straight : ∀ instruction ∈ code, instruction.operation.isStraight = true
  writes : ∀ instruction ∈ code, ∀ id,
    instruction.operation.destination? = some (.temporary id) → before.Took after id

namespace StraightLine

variable {first second third : Supply} {code rest : Code}

/-- Nothing at all is a straight line. -/
theorem nil (supply : Supply) : StraightLine supply [] supply where
  drawn := .refl
  labels_eq := rfl
  unlabelled := by simp
  straight := by simp
  writes := by simp

/-- One straight line behind another is one straight line. -/
theorem append (h : StraightLine first code second) (h' : StraightLine second rest third) :
    StraightLine first (code ++ rest) third where
  drawn := h.drawn.trans h'.drawn
  labels_eq := h'.labels_eq.trans h.labels_eq
  unlabelled instruction hmem :=
    (List.mem_append.mp hmem).elim (h.unlabelled instruction) (h'.unlabelled instruction)
  straight instruction hmem :=
    (List.mem_append.mp hmem).elim (h.straight instruction) (h'.straight instruction)
  writes instruction hmem id hid :=
    (List.mem_append.mp hmem).elim
      (fun hmem => (h.writes instruction hmem id hid).mono (Nat.le_refl _) h'.drawn.temporaries_le)
      (fun hmem => (h'.writes instruction hmem id hid).mono h.drawn.temporaries_le (Nat.le_refl _))

/-- An operation that writes no temporary is a straight line of its own. -/
theorem ofOperation {operation : Operation} (supply : Supply)
    (hstraight : operation.isStraight = true)
    (hwrites : ∀ id, operation.destination? ≠ some (.temporary id)) :
    StraightLine supply (Code.ofOperation operation) supply where
  drawn := .refl
  labels_eq := rfl
  unlabelled := by simp [Code.ofOperation, Operation.unlabelled]
  straight := by simpa [Code.ofOperation, Operation.unlabelled] using hstraight
  writes := by simp [Code.ofOperation, Operation.unlabelled, hwrites]

/-- An operation that writes the next temporary is a straight line of its own. -/
theorem ofFresh {operation : Operation} (supply : Supply)
    (hstraight : operation.isStraight = true)
    (hwrites : operation.destination? = some (.temporary (.numbered supply.temporaries))) :
    StraightLine supply (Code.ofOperation operation) supply.afterTemporary where
  drawn := .temporary .refl
  labels_eq := rfl
  unlabelled := by simp [Code.ofOperation, Operation.unlabelled]
  straight := by simpa [Code.ofOperation, Operation.unlabelled] using hstraight
  writes := by
    simp only [Code.ofOperation, Operation.unlabelled, List.mem_singleton, forall_eq, hwrites,
      Option.some.injEq, Storage.temporary.injEq]
    rintro id rfl
    exact ⟨supply.temporaries, Nat.le_refl _, Nat.lt_succ_self _, rfl⟩

end StraightLine

/-- The code of an expression is a straight line. -/
theorem straightLine_of_yields {env : Environment} {expr : Expr} {before after : Supply}
    {code : Code} {place : Storage} (h : (lowerExpr env expr).Yields before (code, place) after) :
    StraightLine before code after := by
  refine lowerExpr_induction (P := fun _ before code _ after => StraightLine before code after)
    (Q := fun _ _ _ before code after => StraightLine before code after)
    ?constant ?string ?scalar ?element ?call ?input ?binary ?surplus ?argument h
  case constant => exact fun _ supply => .nil supply
  case string =>
    intro text supply
    exact { StraightLine.nil supply with drawn := .string text .refl, writes := by simp }
  case scalar => exact fun _ supply => .nil supply
  case element =>
    intro array index before code place after _ hindex
    exact hindex.append (.ofFresh after rfl rfl)
  case call =>
    intro function args params before code after _ _ hargs
    exact hargs.append (.ofFresh after rfl rfl)
  case input => exact fun type supply => .ofFresh supply rfl rfl
  case binary =>
    intro op lhs rhs before leftCode left middle rightCode right after _ _ hleft hright
    exact (hleft.append hright).append (.ofFresh after rfl rfl)
  case surplus => exact fun _ _ _ supply _ => .nil supply
  case argument =>
    intro function arg args param params before argCode source middle rest after _ _ harg hrest
    have hcopy : StraightLine middle
        (Code.ofOperation (.copy (.parameter function param.name) source)) middle :=
      .ofOperation middle rfl (by simp [Operation.destination?])
    exact (harg.append hcopy).append hrest

/-- The code of the arguments of a call is a straight line. -/
theorem straightLine_of_args {env : Environment} {function : String} {args : List Expr}
    {params : List Param} {before after : Supply} {code : Code}
    (h : (lowerArgs env function args params).Yields before code after) :
    StraightLine before code after := by
  induction args generalizing params before code with
  | nil =>
    obtain ⟨rfl, rfl⟩ := (yields_args_nil_iff (.inl rfl)).mp h
    exact .nil after
  | cons arg args ih =>
    cases params with
    | nil =>
      obtain ⟨rfl, rfl⟩ := (yields_args_nil_iff (.inr rfl)).mp h
      exact .nil after
    | cons param params =>
      obtain ⟨argCode, source, middle, rest, harg, hrest, rfl⟩ := yields_args_cons_iff.mp h
      have hcopy : StraightLine middle
          (Code.ofOperation (.copy (.parameter function param.name) source)) middle :=
        .ofOperation middle rfl (by simp [Operation.destination?])
      exact ((straightLine_of_yields harg).append hcopy).append (ih hrest)

end ThreeAddress
