import ThreeAddress.Proofs.Calls.Sites
import ThreeAddress.Proofs.Execution.History
import ThreeAddress.Check.Program
import Mathlib.Logic.Relation

/-!
# Where the bodies of a program stand

The code of a program is the code of its bodies. If their names differ, a call of a name enters
the body of that name, and every instruction belongs to exactly one of them. Control leaves a
body only by a call or at a return, so the bodies of functions that call none but each other are
never left by anything else than going back.
-/

namespace ThreeAddress

open LowerM

/-- Whether control crosses the border of a body at an operation. -/
def Operation.isBorder : Operation → Bool
  | .enter _ | .leave => true
  | _ => false

/-- Only the border of a body is at its border. -/
theorem Joins.not_isBorder {env : Environment} {calls : List (String × List Expr)} {code : Code}
    {index : Nat} {operation : Operation} (h : Joins env calls code index operation) :
    operation.isBorder = false := by
  rcases h with hglue | hemits
  · cases hglue <;> rfl
  · cases hemits with
    | value hdestination _ =>
      cases operation <;> simp_all [Operation.destination?, Operation.isBorder]
    | pass | call => rfl

namespace Code

/-- A position belongs to the body of a function: the body's end does not come before it. -/
def InBody (code : Code) (function : String) (position : Nat) : Prop :=
  ∃ entry, code.entry? function = some entry ∧ entry ≤ position ∧
    ∀ index whole, entry ≤ index → index < position → code[index]? = some whole →
      whole.operation ≠ .leave

/-- The code of a whole body: its entry, its statement and its end. -/
def framed (function : String) (inner : Code) : Code :=
  (ofOperation (.enter function) ++ inner).push .leave

/-- Entry and end are two instructions. -/
theorem length_framed (function : String) (inner : Code) :
    (framed function inner).length = inner.length + 2 := by
  simp [framed, ofOperation]

/-- The instructions of a whole body are its entry, those of its statement and its end. -/
theorem Located.framed_cases {code inner : Code} {function : String} {entry position : Nat}
    (h : code.Located entry (framed function inner)) {whole : Instruction} (hle : entry ≤ position)
    (hlt : position ≤ entry + inner.length + 1) (hwhole : code[position]? = some whole) :
    (position = entry ∧ whole.operation = .enter function) ∨
      (∃ index instruction, position = entry + 1 + index ∧ inner[index]? = some instruction ∧
        whole.operation = instruction.operation) ∨
      (position = entry + inner.length + 1 ∧ whole.operation = .leave) := by
  have hinner : code.Located (entry + 1) inner := h.left.right
  obtain ⟨offset, rfl⟩ := Nat.exists_eq_add_of_le hle
  rcases Nat.eq_zero_or_pos offset with rfl | hpos
  · obtain ⟨found, hfound, hoperation, -⟩ := h 0 (Operation.enter _).unlabelled rfl
    obtain rfl : whole = found := Option.some.inj (hwhole.symm.trans hfound)
    exact .inl ⟨rfl, hoperation⟩
  obtain ⟨index, rfl⟩ : ∃ index, offset = 1 + index := ⟨offset - 1, by omega⟩
  rcases Nat.lt_or_ge index inner.length with hindex | hindex
  · have hsome := List.getElem?_eq_getElem hindex
    obtain ⟨found, hfound, hoperation, -⟩ := hinner index _ hsome
    rw [Nat.add_assoc] at hfound
    obtain rfl : whole = found := Option.some.inj (hwhole.symm.trans hfound)
    exact .inr (.inl ⟨index, _, by omega, hsome, hoperation⟩)
  · obtain ⟨found, hfound, hoperation⟩ := h.last
    have hend : entry + (ofOperation (.enter function) ++ inner).length =
        entry + (1 + index) := by
      simp [ofOperation]
      omega
    rw [hend] at hfound
    obtain rfl : whole = found := Option.some.inj (hwhole.symm.trans hfound)
    exact .inr (.inr ⟨by omega, hoperation⟩)

/-- The code of a function's body stands at a position, and the function is not entered before. -/
structure BodyAt (code : Code) (scope : Scope) (implementation : Implementation) (entry : Nat)
    (inner : Code) : Prop where
  lowered : ∃ before after,
    (lowerStmt (.inside scope implementation.name) implementation.body).Yields before inner after
  located : code.Located entry (framed implementation.name inner)
  first : ∀ index whole, index < entry → code[index]? = some whole →
    whole.operation ≠ .enter implementation.name

namespace BodyAt

variable {code inner : Code} {scope : Scope} {implementation : Implementation}
  {entry position : Nat}

/-- Every instruction of a body is accounted for. -/
theorem joins (h : code.BodyAt scope implementation entry inner) :
    inner.Each (Joins (.inside scope implementation.name) implementation.body.calls) := by
  obtain ⟨before, after, hlowered⟩ := h.lowered
  exact joins_of_lowerStmt hlowered

/-- An instruction of a body is its entry, its end or accounted for. -/
theorem operation_cases (h : code.BodyAt scope implementation entry inner)
    {whole : Instruction} (hle : entry ≤ position) (hlt : position ≤ entry + inner.length + 1)
    (hwhole : code[position]? = some whole) :
    (position = entry ∧ whole.operation = .enter implementation.name) ∨
      (∃ index instruction, position = entry + 1 + index ∧ inner[index]? = some instruction ∧
        whole.operation = instruction.operation ∧
          Joins (.inside scope implementation.name) implementation.body.calls code position
            whole.operation) ∨
      (position = entry + inner.length + 1 ∧ whole.operation = .leave) := by
  have hinner : code.Located (entry + 1) inner := h.located.left.right
  rcases h.located.framed_cases hle hlt hwhole with henter |
    ⟨index, instruction, rfl, hinstruction, hoperation⟩ | hleave
  · exact .inl henter
  · have hjoins := Joins.isLocal _ _ hinner (h.joins index instruction hinstruction)
    rw [← hoperation] at hjoins
    exact .inr (.inl ⟨index, instruction, rfl, hinstruction, hoperation, hjoins⟩)
  · exact .inr (.inr hleave)

/-- Inside its border every instruction of a body is accounted for. -/
theorem joins_of_not_isBorder (h : code.BodyAt scope implementation entry inner)
    {whole : Instruction} (hle : entry ≤ position) (hlt : position ≤ entry + inner.length + 1)
    (hwhole : code[position]? = some whole) (hborder : whole.operation.isBorder = false) :
    Joins (.inside scope implementation.name) implementation.body.calls code position
      whole.operation := by
  rcases h.operation_cases hle hlt hwhole with ⟨-, henter⟩ | ⟨_, _, _, _, _, hjoins⟩ | ⟨-, hleave⟩
  · simp [henter, Operation.isBorder] at hborder
  · exact hjoins
  · simp [hleave, Operation.isBorder] at hborder

/-- A body enters its own function only. -/
theorem name_eq_of_enter (h : code.BodyAt scope implementation entry inner)
    {whole : Instruction} {function : String} (hle : entry ≤ position)
    (hlt : position ≤ entry + inner.length + 1) (hwhole : code[position]? = some whole)
    (henter : whole.operation = .enter function) : implementation.name = function := by
  rcases h.operation_cases hle hlt hwhole with ⟨-, hname⟩ | ⟨_, _, _, _, _, hjoins⟩ | ⟨-, hleave⟩
  · rw [henter, Operation.enter.injEq] at hname
    exact hname.symm
  · have hborder := hjoins.not_isBorder
    rw [henter] at hborder
    contradiction
  · rw [henter] at hleave
    contradiction

/-- A call of the function enters its body. -/
theorem entry?_eq (h : code.BodyAt scope implementation entry inner) :
    code.entry? implementation.name = some entry := by
  obtain ⟨whole, hwhole, hoperation, -⟩ := h.located 0 (Operation.enter _).unlabelled rfl
  obtain ⟨hlt, hget⟩ := List.getElem?_eq_some_iff.mp hwhole
  refine List.findIdx?_eq_some_iff_getElem.mpr ⟨hlt, ?_, fun index hindex => ?_⟩
  · change code[entry] = whole at hget
    rw [decide_eq_true_eq, hget]
    exact hoperation
  · have hne := h.first index _ hindex (List.getElem?_eq_getElem (Nat.lt_trans hindex hlt))
    simpa using hne

/-- The positions of a body are those from its entry to its end. -/
theorem inBody_iff (h : code.BodyAt scope implementation entry inner) :
    code.InBody implementation.name position ↔
      entry ≤ position ∧ position ≤ entry + inner.length + 1 := by
  obtain ⟨last, hlast, hleave⟩ := h.located.last
  have hend : entry + (ofOperation (.enter implementation.name) ++ inner).length =
      entry + inner.length + 1 := by
    simp [ofOperation]
    omega
  rw [hend] at hlast
  constructor
  · rintro ⟨entry', hentry, hle, hbefore⟩
    obtain rfl : entry = entry' := Option.some.inj (h.entry?_eq.symm.trans hentry)
    refine ⟨hle, Nat.le_of_not_lt fun hlt => ?_⟩
    exact hbefore _ last (by omega) hlt hlast hleave
  · rintro ⟨hle, hlt⟩
    refine ⟨entry, h.entry?_eq, hle, fun index whole hle' hlt' hwhole hoperation => ?_⟩
    rcases h.operation_cases hle' (by omega) hwhole with ⟨-, henter⟩ | ⟨_, _, _, _, _, hjoins⟩ |
      ⟨heq, -⟩
    · rw [hoperation] at henter
      contradiction
    · have hborder := hjoins.not_isBorder
      rw [hoperation] at hborder
      contradiction
    · omega

/-- A body stands in more code, if that has other bodies in front only. -/
theorem append_left {front : Code} (h : code.BodyAt scope implementation entry inner)
    (hfront : ∀ instruction ∈ front, instruction.operation ≠ .enter implementation.name) :
    (front ++ code : Code).BodyAt scope implementation (front.length + entry) inner where
  lowered := h.lowered
  located := by
    have hbehind : (front ++ code : Code).Located front.length code := by
      simpa using (Located.self (front ++ code)).right
    exact hbehind.trans h.located
  first index whole hlt hwhole := by
    rcases Nat.lt_or_ge index front.length with hbefore | hbehind
    · rw [List.getElem?_append_left hbefore] at hwhole
      exact hfront whole (List.mem_of_getElem? hwhole)
    · rw [List.getElem?_append_right hbehind] at hwhole
      exact h.first _ whole (by omega) hwhole

end BodyAt

/-- The bodies of different functions stand one after the other. -/
theorem exists_bodyAt {scope : Scope} {implementations : List Implementation}
    {before after : Supply} {code : Code}
    (h : (lowerImplementations scope implementations).Yields before code after)
    (hnodup : (implementations.map Implementation.name).Nodup) :
    (∀ implementation ∈ implementations, ∃ entry inner,
      code.BodyAt scope implementation entry inner) ∧
    ∀ position < code.length, ∃ implementation ∈ implementations, ∃ entry inner,
      code.BodyAt scope implementation entry inner ∧ entry ≤ position ∧
        position ≤ entry + inner.length + 1 := by
  induction implementations generalizing before code with
  | nil =>
    obtain ⟨rfl, rfl⟩ := yields_implementations_nil_iff.mp h
    simp
  | cons implementation rest ih =>
    obtain ⟨code, middle, others, hfirst, hothers, rfl⟩ := yields_implementations_cons_iff.mp h
    obtain ⟨inner, hinner, hcode⟩ := yields_implementation_iff.mp hfirst
    obtain rfl : code = framed implementation.name inner := hcode
    rw [List.map_cons, List.nodup_cons] at hnodup
    obtain ⟨hbodies, hcovers⟩ := ih hothers hnodup.2
    have hhead : (framed implementation.name inner ++ others : Code).BodyAt scope implementation 0
        inner :=
      ⟨⟨before, middle, hinner⟩, (Located.self _).left,
        fun _ _ hlt => absurd hlt (Nat.not_lt_zero _)⟩
    have henter : ∀ other ∈ rest, ∀ instruction ∈ framed implementation.name inner,
        instruction.operation ≠ .enter other.name := by
      intro other hother instruction hmem hoperation
      obtain ⟨index, hindex⟩ := List.getElem?_of_mem hmem
      have hlt := (List.getElem?_eq_some_iff.mp hindex).1
      have hwhole : (framed implementation.name inner ++ others)[index]? = some instruction := by
        rw [List.getElem?_append_left hlt, hindex]
      rw [length_framed] at hlt
      have hname := hhead.name_eq_of_enter (Nat.zero_le index) (by omega) hwhole hoperation
      exact hnodup.1 (hname ▸ List.mem_map_of_mem hother)
    constructor
    · intro other hother
      rcases List.mem_cons.mp hother with rfl | hother
      · exact ⟨0, inner, hhead⟩
      · obtain ⟨entry, inner', hbody⟩ := hbodies other hother
        exact ⟨_, inner', hbody.append_left (henter other hother)⟩
    · intro position hlt
      rcases Nat.lt_or_ge position (framed implementation.name inner).length with hbefore | hbehind
      · rw [length_framed] at hbefore
        exact ⟨implementation, List.mem_cons_self, 0, inner, hhead, Nat.zero_le _, by omega⟩
      · rw [List.length_append] at hlt
        obtain ⟨other, hother, entry, inner', hbody, hle, hle'⟩ :=
          hcovers (position - (framed implementation.name inner).length) (by omega)
        exact ⟨other, List.mem_cons_of_mem _ hother, _, inner',
          hbody.append_left (henter other hother), by omega, by omega⟩

end Code

namespace Program

/-- A function's body contains a call of another. -/
def Calls (program : Program) (caller callee : String) : Prop :=
  ∃ implementation ∈ program.implementations, implementation.name = caller ∧
    ∃ args, (callee, args) ∈ implementation.body.calls

/-- The code of a program lies as its bodies do, and no label is attached twice unless the labels
run out. -/
structure Laid (program : Program) (unit : CodeUnit) : Prop where
  bodies : ∀ implementation ∈ program.implementations, ∃ entry inner,
    unit.code.BodyAt program.scope implementation entry inner
  covers : ∀ position < unit.code.length, ∃ implementation ∈ program.implementations,
    ∃ entry inner, unit.code.BodyAt program.scope implementation entry inner ∧
      entry ≤ position ∧ position ≤ entry + inner.length + 1
  labels : unit.code.labels.length ≤ 2 ^ 32 → unit.code.labels.Nodup

/-- The code of a program whose bodies have different names lies as they do. -/
theorem laid_of_lower {program : Program} {unit : CodeUnit} (h : program.lower = .ok unit)
    (hnodup : (program.implementations.map Implementation.name).Nodup) : program.Laid unit := by
  have hlabels := Program.nodup_labels h
  obtain ⟨code, after, hyields, rfl⟩ := Program.lower_eq_ok_iff.mp h
  obtain ⟨hbodies, hcovers⟩ := Code.exists_bodyAt hyields hnodup
  exact ⟨hbodies, hcovers, hlabels⟩

namespace Laid

variable {program : Program} {unit : CodeUnit}

/-- A position of a function's body is a position of the body of that name. -/
theorem exists_of_inBody (h : program.Laid unit) {function : String} {position : Nat}
    (hbody : unit.code.InBody function position) :
    ∃ implementation ∈ program.implementations, implementation.name = function ∧
      ∃ entry inner, unit.code.BodyAt program.scope implementation entry inner ∧
        entry ≤ position ∧ position ≤ entry + inner.length + 1 := by
  obtain ⟨entry, hentry, -⟩ := id hbody
  obtain ⟨whole, hwhole, hoperation⟩ := Code.enter_of_entry? hentry
  obtain ⟨implementation, hmem, entry', inner, hat, hle, hle'⟩ :=
    h.covers entry (List.getElem?_eq_some_iff.mp hwhole).1
  obtain rfl : implementation.name = function :=
    hat.name_eq_of_enter hle hle' hwhole hoperation
  obtain ⟨hle, hle'⟩ := hat.inBody_iff.mp hbody
  exact ⟨implementation, hmem, rfl, entry', inner, hat, hle, hle'⟩

/-- Inside its border a position of a function's body is accounted for. -/
theorem joins_of_inBody (h : program.Laid unit) {function : String} {position : Nat}
    {whole : Instruction} (hbody : unit.code.InBody function position)
    (hwhole : unit.code[position]? = some whole) (hborder : whole.operation.isBorder = false) :
    ∃ implementation ∈ program.implementations, implementation.name = function ∧
      Joins (.inside program.scope function) implementation.body.calls unit.code position
        whole.operation := by
  obtain ⟨implementation, hmem, rfl, entry, inner, hat, hle, hle'⟩ := h.exists_of_inBody hbody
  exact ⟨implementation, hmem, rfl, hat.joins_of_not_isBorder hle hle' hwhole hborder⟩

/-- A call in a function's body is a call of the program. -/
theorem calls_of_inBody (h : program.Laid unit) {function callee : String} {position : Nat}
    {whole : Instruction} {destination : Storage} (hbody : unit.code.InBody function position)
    (hwhole : unit.code[position]? = some whole)
    (hcall : whole.operation = .call callee destination) : program.Calls function callee := by
  obtain ⟨implementation, hmem, hname, hjoins⟩ :=
    h.joins_of_inBody hbody hwhole (by rw [hcall]; rfl)
  rw [hcall] at hjoins
  obtain ⟨-, args, -, hcalls, -⟩ := hjoins.exists_site
  exact ⟨implementation, hmem, hname, args, hcalls⟩

/-- The bodies of functions that call none but each other are left only by going back. -/
theorem closed (h : program.Laid unit) (hlabels : unit.code.labels.length ≤ 2 ^ 32)
    (chosen : String → Prop)
    (hchosen : ∀ caller callee, chosen caller → program.Calls caller callee → chosen callee) :
    Machine.Closed unit fun position =>
      ∃ function, chosen function ∧ unit.code.InBody function position where
  onward := by
    rintro position whole ⟨function, hfunction, entry, hentry, hle, hbefore⟩ hwhole hleave
    refine ⟨function, hfunction, entry, hentry, Nat.le_succ_of_le hle, ?_⟩
    intro index other hle' hlt hother
    rcases Nat.lt_or_eq_of_le (Nat.le_of_lt_succ hlt) with hlt | rfl
    · exact hbefore index other hle' hlt hother
    · obtain rfl : whole = other := Option.some.inj (hwhole.symm.trans hother)
      exact hleave
  jump := by
    rintro position target whole label ⟨function, hfunction, hbody⟩ hwhole htarget hposition
    obtain ⟨implementation, -, rfl, entry, inner, hat, hle, hle'⟩ := h.exists_of_inBody hbody
    refine ⟨implementation.name, hfunction, hat.inBody_iff.mpr ?_⟩
    rcases hat.operation_cases hle hle' hwhole with ⟨-, henter⟩ |
      ⟨index, instruction, -, hinstruction, hsame, -⟩ | ⟨-, hleave⟩
    · simp [henter, Operation.target?] at htarget
    · -- the label sits in the same body, and nowhere else
      obtain ⟨before, after, hlowered⟩ := hat.lowered
      have hmem : label ∈ inner.targets :=
        List.mem_filterMap.mpr ⟨instruction, List.mem_of_getElem? hinstruction, by
          rw [← hsame, htarget]⟩
      obtain ⟨marked, hmarked, hlabel⟩ := List.mem_filterMap.mp
        ((labelled_of_lowerStmt hlowered).targets_subset hmem)
      obtain ⟨offset, hoffset⟩ := List.getElem?_of_mem hmarked
      have hlt := (List.getElem?_eq_some_iff.mp hoffset).1
      have hcons : Code.framed implementation.name inner =
          (Operation.enter implementation.name).unlabelled :: (inner ++ Code.ofOperation .leave) :=
        rfl
      have hframed : (Code.framed implementation.name inner)[offset + 1]? = some marked := by
        rw [hcons, List.getElem?_cons_succ, List.getElem?_append_left hlt, hoffset]
      obtain ⟨found, hfound, -, hfoundLabel⟩ := hat.located _ _ hframed
      have hmark : found.label? = some label := by
        rcases hfoundLabel with heq | ⟨hzero, -⟩
        · exact heq.trans hlabel
        · omega
      have htarget' := Option.some.inj
        (hposition.symm.trans (Code.position?_eq_some (h.labels hlabels) hfound hmark))
      omega
    · simp [hleave, Operation.target?] at htarget
  call := by
    rintro position entry whole callee destination ⟨function, hfunction, hbody⟩ hwhole hcall hentry
    exact ⟨callee, hchosen function callee hfunction (h.calls_of_inBody hbody hwhole hcall), entry,
      hentry, Nat.le_refl _, fun index _ hle hlt => absurd hlt (Nat.not_lt.mpr hle)⟩

end Laid

end Program

end ThreeAddress
