import ThreeAddress.Proofs.Calls.Bodies
import Mathlib.Data.List.Forall2

/-!
# The code of a program, function by function

Cut behind every end of a function, the code of a program falls into one segment for each body, in
their order, and each segment is an entry, code without entries and ends, and an end. A label sits
on one instruction only, and a jump leads to a label of its own segment. So a run leaves a segment
by a call or by a return only: it comes in at the entry, or back to the place behind a call.
-/

namespace ThreeAddress

open LowerM

namespace Code

/-- Code cut behind every end of a function. -/
def segments : Code → List Code
  | [] => []
  | instruction :: rest =>
    if instruction.operation = .leave then [instruction] :: segments rest
    else
      match segments rest with
      | [] => [[instruction]]
      | segment :: others => (instruction :: segment) :: others

/-- The segments make up the whole code. -/
theorem flatten_segments (code : Code) : code.segments.flatten = code := by
  induction code with
  | nil => rfl
  | cons instruction rest ih =>
    rw [segments]
    split
    · rw [List.flatten_cons, ih, List.singleton_append]
    · split
      · next hnil =>
        rw [hnil, List.flatten_nil] at ih
        rw [← ih]
        rfl
      · next hcons =>
        rw [hcons, List.flatten_cons] at ih
        rw [List.flatten_cons, List.cons_append, ih]

/-- Code up to the first end of a function is a segment. -/
theorem segments_append {front others : Code} {last : Instruction}
    (hfront : ∀ instruction ∈ front, instruction.operation ≠ .leave)
    (hlast : last.operation = .leave) :
    segments (front ++ last :: others) = (front ++ [last]) :: segments others := by
  induction front with
  | nil => rw [List.nil_append, segments, if_pos hlast, List.nil_append]
  | cons instruction rest ih =>
    obtain ⟨hinstruction, hrest⟩ := List.forall_mem_cons.mp hfront
    rw [List.cons_append, segments, if_neg hinstruction, ih hrest]
    rfl

/-- The code of a body without ends inside is a segment. -/
theorem segments_framed_append {function : String} {inner others : Code}
    (hinner : ∀ instruction ∈ inner, instruction.operation ≠ .leave) :
    segments (framed function inner ++ others) = framed function inner :: segments others := by
  have hsplit : framed function inner ++ others =
      (ofOperation (.enter function) ++ inner) ++ Operation.leave.unlabelled :: others := by
    simp [framed, push, ofOperation]
  rw [hsplit, segments_append _ rfl]
  · rfl
  · intro instruction hmem
    rcases List.mem_append.mp hmem with hmem | hmem
    · obtain rfl := List.mem_singleton.mp hmem
      simp [Operation.unlabelled]
    · exact hinner instruction hmem

/-- The segment with a number goes from one position to another. -/
def Spans (code : Code) (number first last : Nat) : Prop :=
  ∃ segment, code.segments[number]? = some segment ∧
    first = (code.segments.take number).flatten.length ∧ last + 1 = first + segment.length

/-- A position belongs to the segment with a number. -/
def InSegment (code : Code) (number position : Nat) : Prop :=
  ∃ first last, code.Spans number first last ∧ first ≤ position ∧ position ≤ last

/-- A segment stands in the code behind those with smaller numbers. -/
theorem located_segment {code segment : Code} {number : Nat}
    (h : code.segments[number]? = some segment) :
    code.Located (code.segments.take number).flatten.length segment := by
  obtain ⟨hlt, hget⟩ := List.getElem?_eq_some_iff.mp h
  have hsplit : code = (code.segments.take number).flatten ++
      (segment ++ (code.segments.drop (number + 1)).flatten) := by
    rw [← hget, ← List.flatten_cons, ← List.drop_eq_getElem_cons hlt, ← List.flatten_append,
      List.take_append_drop, flatten_segments]
  have hbehind := ((Located.self ((code.segments.take number).flatten ++
    (segment ++ (code.segments.drop (number + 1)).flatten))).right).left
  rwa [← hsplit, Nat.zero_add] at hbehind

/-- Every position belongs to a segment. -/
theorem exists_inSegment {code : Code} {position : Nat} (h : position < code.length) :
    ∃ number, code.InSegment number position := by
  suffices hparts : ∀ (parts : List Code) (position : Nat), position < parts.flatten.length →
      ∃ number part, parts[number]? = some part ∧
        (parts.take number).flatten.length ≤ position ∧
        position < (parts.take number).flatten.length + part.length by
    rw [← flatten_segments code] at h
    obtain ⟨number, segment, hsegment, hle, hlt⟩ := hparts code.segments position h
    have hpos : 0 < segment.length := by omega
    exact ⟨number, _, _, ⟨segment, hsegment, rfl, Nat.sub_add_cancel (by omega)⟩, hle, by omega⟩
  intro parts
  induction parts with
  | nil => exact fun position h => absurd h (Nat.not_lt_zero position)
  | cons head rest ih =>
    intro position h
    rw [List.flatten_cons, List.length_append] at h
    rcases Nat.lt_or_ge position head.length with hlt | hge
    · exact ⟨0, head, rfl, Nat.zero_le position, by simpa using hlt⟩
    · obtain ⟨number, part, hpart, hle, hlt⟩ := ih (position - head.length) (by omega)
      refine ⟨number + 1, part, hpart, ?_, ?_⟩
      · rw [List.take_succ_cons, List.flatten_cons, List.length_append]
        omega
      · rw [List.take_succ_cons, List.flatten_cons, List.length_append]
        omega

/-- Every instruction belongs to a segment. -/
theorem exists_mem_segments {code : Code} {instruction : Instruction} (h : instruction ∈ code) :
    ∃ segment ∈ code.segments, instruction ∈ segment := by
  rw [← flatten_segments code] at h
  exact List.mem_flatten.mp h

/-- The code of a function's body, between its only entry and its only end. -/
def IsBodyOf (segment : Code) (implementation : Implementation) : Prop :=
  ∃ inner, segment = framed implementation.name inner ∧
    ∀ instruction ∈ inner, instruction.operation.isBorder = false

/-- The code that a body is lowered to. -/
def IsLoweredFrom (segment : Code) (scope : Scope) (implementation : Implementation) : Prop :=
  ∃ before inner after, (lowerStmt (.inside scope implementation.name) implementation.body).Yields
    before inner after ∧ segment = framed implementation.name inner

namespace IsLoweredFrom

variable {segment : Code} {scope : Scope} {implementation : Implementation}

/-- The code of a statement has no entries and no ends. -/
theorem isBodyOf (h : segment.IsLoweredFrom scope implementation) :
    segment.IsBodyOf implementation := by
  obtain ⟨before, inner, after, hinner, rfl⟩ := h
  refine ⟨inner, rfl, fun instruction hmem => ?_⟩
  obtain ⟨index, hindex⟩ := List.getElem?_of_mem hmem
  exact (joins_of_lowerStmt hinner index instruction hindex).not_isBorder

/-- The code of a body is the first segment of what it stands in front of. -/
theorem segments_append (h : segment.IsLoweredFrom scope implementation) (others : Code) :
    segments (segment ++ others) = segment :: segments others := by
  obtain ⟨inner, rfl, hborder⟩ := h.isBodyOf
  refine segments_framed_append fun instruction hmem hleave => ?_
  have hnot := hborder instruction hmem
  rw [hleave] at hnot
  contradiction

/-- Jumps lead to labels of the same body. -/
theorem targets_subset (h : segment.IsLoweredFrom scope implementation) :
    segment.targets ⊆ segment.labels := by
  obtain ⟨before, inner, after, hinner, rfl⟩ := h
  have hlabelled := labelled_of_lowerImplementation
    (yields_implementation_iff.mpr ⟨inner, hinner, rfl⟩)
  exact hlabelled.targets_subset

end IsLoweredFrom

/-- The segments of lowered code are what the bodies are lowered to, one after the other. -/
theorem segments_of_lowerImplementations {scope : Scope} {implementations : List Implementation}
    {before after : Supply} {code : Code}
    (h : (lowerImplementations scope implementations).Yields before code after) :
    List.Forall₂ (fun implementation segment => IsLoweredFrom segment scope implementation)
      implementations code.segments := by
  induction implementations generalizing before code with
  | nil =>
    obtain ⟨rfl, rfl⟩ := yields_implementations_nil_iff.mp h
    exact .nil
  | cons implementation rest ih =>
    obtain ⟨first, middle, others, hfirst, hothers, rfl⟩ := yields_implementations_cons_iff.mp h
    obtain ⟨inner, hinner, hcode⟩ := yields_implementation_iff.mp hfirst
    obtain rfl : first = framed implementation.name inner := hcode
    have hlowered : (framed implementation.name inner).IsLoweredFrom scope implementation :=
      ⟨before, inner, middle, hinner, rfl⟩
    rw [hlowered.segments_append]
    exact .cons hlowered (ih hothers)

end Code

/-- The segments of a program's code are what its bodies are lowered to. -/
theorem Program.segments_of_lower {program : Program} {unit : CodeUnit}
    (h : program.lower = .ok unit) :
    List.Forall₂
      (fun implementation segment => Code.IsLoweredFrom segment program.scope implementation)
      program.implementations unit.code.segments := by
  obtain ⟨code, after, hyields, rfl⟩ := Program.lower_eq_ok_iff.mp h
  exact Code.segments_of_lowerImplementations hyields

/-- Of two lists that match, the second has a matching element where the first has one. -/
theorem exists_getElem?_of_forall₂ {R : α → β → Prop} {xs : List α} {ys : List β}
    (h : List.Forall₂ R xs ys) {number : Nat} {x : α} (hx : xs[number]? = some x) :
    ∃ y, ys[number]? = some y ∧ R x y := by
  induction h generalizing number with
  | nil => simp at hx
  | @cons first second _ _ hfirst _ ih =>
    cases number with
    | zero =>
      obtain rfl : first = x := by simpa using hx
      exact ⟨second, rfl, hfirst⟩
    | succ number => exact ih (by simpa using hx)

/-- Of two lists that match, the second has an element that matches one of the first. -/
theorem exists_mem_of_forall₂ {R : α → β → Prop} {xs : List α} {ys : List β}
    (h : List.Forall₂ R xs ys) {x : α} (hx : x ∈ xs) : ∃ y ∈ ys, R x y := by
  obtain ⟨number, hnumber⟩ := List.getElem?_of_mem hx
  obtain ⟨y, hy, hmatch⟩ := exists_getElem?_of_forall₂ h hnumber
  exact ⟨y, List.mem_of_getElem? hy, hmatch⟩

/-- Some code is the code of a program: a segment for each body, in their order, every label on one
instruction only, and every jump to a label of its own segment. -/
structure Program.Segmented (program : Program) (code : Code) : Prop where
  concatenated : code.segments.flatten = code
  bodies : List.Forall₂ (fun implementation segment => Code.IsBodyOf segment implementation)
    program.implementations code.segments
  labels_nodup : code.labels.Nodup
  targets_subset : ∀ segment ∈ code.segments, segment.targets ⊆ segment.labels

namespace Program.Segmented

variable {program : Program} {code : Code} {number first last position : Nat} {whole : Instruction}

/-- An instruction of a segment is its entry, its end, or neither an entry nor an end. -/
theorem operation_cases (h : program.Segmented code) (hspans : code.Spans number first last)
    (hle : first ≤ position) (hle' : position ≤ last) (hwhole : code[position]? = some whole) :
    (position = first ∧ ∃ function, whole.operation = .enter function) ∨
      (first < position ∧ position < last ∧ whole.operation.isBorder = false) ∨
      (position = last ∧ whole.operation = .leave) := by
  obtain ⟨segment, hsegment, rfl, hlast⟩ := hspans
  obtain ⟨implementation, -, inner, rfl, hborder⟩ :=
    exists_getElem?_of_forall₂ (List.Forall₂.flip h.bodies) hsegment
  rw [Code.length_framed] at hlast
  rcases (Code.located_segment hsegment).framed_cases hle (by omega) hwhole with
    ⟨heq, henter⟩ | ⟨index, instruction, heq, hinstruction, hsame⟩ | ⟨heq, hleave⟩
  · exact .inl ⟨heq, _, henter⟩
  · have hlt := (List.getElem?_eq_some_iff.mp hinstruction).1
    exact .inr (.inl ⟨by omega, by omega,
      hsame ▸ hborder instruction (List.mem_of_getElem? hinstruction)⟩)
  · exact .inr (.inr ⟨by omega, hleave⟩)

/-- Behind the first instruction of a segment no function is entered. -/
theorem not_enter (h : program.Segmented code) (hspans : code.Spans number first last)
    (hlt : first < position) (hle : position ≤ last) (hwhole : code[position]? = some whole)
    (function : String) : whole.operation ≠ .enter function := by
  intro henter
  rcases h.operation_cases hspans (Nat.le_of_lt hlt) hle hwhole with
    ⟨heq, -⟩ | ⟨-, -, hborder⟩ | ⟨-, hleave⟩
  · omega
  · simp [henter, Operation.isBorder] at hborder
  · simp [henter] at hleave

/-- An instruction that is not an end is followed by another of its segment. -/
theorem lt_of_ne_leave (h : program.Segmented code) (hspans : code.Spans number first last)
    (hle : position ≤ last) (hwhole : code[position]? = some whole)
    (hleave : whole.operation ≠ .leave) : position < last := by
  refine Nat.lt_of_le_of_ne hle fun heq => hleave ?_
  obtain ⟨segment, hsegment, rfl, hlast⟩ := hspans
  obtain ⟨implementation, -, inner, rfl, -⟩ :=
    exists_getElem?_of_forall₂ (List.Forall₂.flip h.bodies) hsegment
  obtain ⟨found, hfound, hoperation⟩ := (Code.located_segment hsegment).last
  rw [Code.length_framed] at hlast
  have hend : (code.segments.take number).flatten.length +
      (Code.ofOperation (.enter implementation.name) ++ inner).length = position := by
    rw [List.length_append, Code.ofOperation, List.length_singleton]
    omega
  rw [hend, hwhole, Option.some.injEq] at hfound
  rw [hfound, hoperation]

/-- The label of a jump is behind the entry of the same segment. -/
theorem position?_of_target (h : program.Segmented code) (hspans : code.Spans number first last)
    (hle : first ≤ position) (hle' : position ≤ last) (hwhole : code[position]? = some whole)
    {label : Label} (htarget : whole.operation.target? = some label) :
    ∃ target, code.position? label = some target ∧ first < target ∧ target ≤ last := by
  obtain ⟨segment, hsegment, rfl, hlast⟩ := hspans
  obtain ⟨implementation, -, inner, rfl, -⟩ :=
    exists_getElem?_of_forall₂ (List.Forall₂.flip h.bodies) hsegment
  have hlocated := Code.located_segment hsegment
  -- the jump is an instruction of the segment, and its label is one of the segment's
  have hjump : label ∈ (Code.framed implementation.name inner).targets := by
    have hlt : position - (code.segments.take number).flatten.length <
        (Code.framed implementation.name inner).length := by omega
    obtain ⟨found, hfound, hoperation, -⟩ := hlocated _ _ (List.getElem?_eq_getElem hlt)
    rw [Nat.add_sub_cancel' hle, hwhole, Option.some.injEq] at hfound
    subst hfound
    exact List.mem_filterMap.mpr ⟨_, List.getElem_mem hlt, by rw [← hoperation, htarget]⟩
  obtain ⟨marked, hmem, hlabel⟩ := List.mem_filterMap.mp
    (h.targets_subset _ (List.mem_of_getElem? hsegment) hjump)
  obtain ⟨index, hindex⟩ := List.getElem?_of_mem hmem
  have hlt := (List.getElem?_eq_some_iff.mp hindex).1
  obtain ⟨found, hfound, -, hfoundLabel⟩ := hlocated index marked hindex
  have hpos : index ≠ 0 := by
    rintro rfl
    obtain rfl : (Operation.enter implementation.name).unlabelled = marked := by
      simpa [Code.framed, Code.push, Code.ofOperation] using hindex
    contradiction
  refine ⟨_, Code.position?_eq_some h.labels_nodup hfound ?_, by omega, by omega⟩
  exact (hfoundLabel.resolve_right fun hzero => hpos hzero.1).trans hlabel

end Program.Segmented

/-- The code of a program is segmented, as long as no label is attached twice. -/
theorem Program.segmented_of_lower {program : Program} {unit : CodeUnit}
    (h : program.lower = .ok unit) (hlabels : unit.code.labels.length ≤ 2 ^ 32) :
    program.Segmented unit.code := by
  have hsegments := Program.segments_of_lower h
  refine ⟨Code.flatten_segments unit.code, hsegments.imp fun _ _ h => h.isBodyOf,
    Program.nodup_labels h hlabels, fun segment hmem => ?_⟩
  obtain ⟨implementation, -, hlowered⟩ := exists_mem_of_forall₂ (List.Forall₂.flip hsegments) hmem
  exact Code.IsLoweredFrom.targets_subset hlowered

namespace Machine

variable {Value Input : Type} {meaning : Interpretation Value Input} {unit : CodeUnit}
  {start config config' : Config Value Input}

/-- How control passes from one instruction to the next, at some time of a run. -/
inductive Orderly (meaning : Interpretation Value Input) (unit : CodeUnit)
    (start : Config Value Input) (time : Nat) (config config' : Config Value Input) : Prop
  /-- Inside the code of a function, and not to its entry. -/
  | within (number : Nat) (hfrom : unit.code.InSegment number config.position)
      (hto : unit.code.InSegment number config'.position)
      (hentry : ∀ whole function, unit.code[config'.position]? = some whole →
        whole.operation ≠ .enter function)
      (hframes : config'.frames = config.frames)
  /-- By a call, to the entry of the called function. -/
  | call (whole : Instruction) (function : String) (destination : Storage)
      (hwhole : unit.code[config.position]? = some whole)
      (hcall : whole.operation = .call function destination)
      (hentry : unit.code.entry? function = some config'.position)
      (hframes : config'.frames = ⟨config.position + 1, destination⟩ :: config.frames)
  /-- By a return, to the place behind the call that came in. -/
  | back (frame : Frame) (earlier number position : Nat) (state : State Value Input)
      (whole : Instruction) (function : String) (hframes : config.frames = frame :: config'.frames)
      (hearlier : earlier < time)
      (hvisit : Visits meaning unit start earlier ⟨position, config'.frames, state⟩)
      (hwhole : unit.code[position]? = some whole)
      (hcall : whole.operation = .call function frame.destination)
      (hposition : config'.position = position + 1)
      (hfrom : unit.code.InSegment number position)
      (hto : unit.code.InSegment number config'.position)

/-- A step inside a segment stays there, unless it is a call or a return. -/
theorem orderly_of_step {program : Program} (hsegmented : program.Segmented unit.code)
    (hstart : start.frames = []) {time number : Nat}
    (hvisit : Visits meaning unit start time config)
    (hin : unit.code.InSegment number config.position)
    (hstep : step meaning unit config = .running config') :
    Orderly meaning unit start time config config' := by
  obtain ⟨whole, hwhole, hpasses⟩ := passes_of_step hstep
  have honward : ∀ {number position : Nat} {whole : Instruction},
      unit.code.InSegment number position → unit.code[position]? = some whole →
      whole.operation ≠ .leave → unit.code.InSegment number (position + 1) ∧
        ∀ next function, unit.code[position + 1]? = some next →
          next.operation ≠ .enter function := by
    rintro number position whole ⟨first, last, hspans, hle, hle'⟩ hwhole hleave
    have hlt := hsegmented.lt_of_ne_leave hspans hle' hwhole hleave
    exact ⟨⟨first, last, hspans, Nat.le_succ_of_le hle, hlt⟩, fun next function hnext =>
      hsegmented.not_enter hspans (Nat.lt_succ_of_le hle) hlt hnext function⟩
  cases hpasses with
  | onward hleave _ hposition hframes _ =>
    obtain ⟨hto, hentry⟩ := honward hin hwhole hleave
    exact .within number hin (hposition ▸ hto) (hposition ▸ hentry) hframes
  | jump label htarget hposition hframes _ =>
    obtain ⟨first, last, hspans, hle, hle'⟩ := id hin
    obtain ⟨target, htarget', hlt, hlast⟩ :=
      hsegmented.position?_of_target hspans hle hle' hwhole htarget
    obtain rfl : target = config'.position := Option.some.inj (htarget'.symm.trans hposition)
    exact .within number hin ⟨first, last, hspans, Nat.le_of_lt hlt, hlast⟩
      (fun next function hnext => hsegmented.not_enter hspans hlt hlast hnext function) hframes
  | call function destination hcall hentry hframes _ =>
    exact .call whole function destination hwhole hcall hentry hframes
  | back frame _ _ hframes hposition _ =>
    obtain ⟨earlier, hearlier, position, state, caller, function, hcaller, hcode, hcall, hresume,
      -⟩ := hvisit.exists_call hstart hframes
    obtain ⟨number, hfrom⟩ := Code.exists_inSegment (List.getElem?_eq_some_iff.mp hcode).1
    obtain ⟨hto, -⟩ := honward hfrom hcode (by rw [hcall]; simp)
    rw [← hresume, ← hposition] at hto
    exact .back frame earlier number position state caller function hframes hearlier hcaller hcode
      hcall (hposition.trans hresume) hfrom hto

/-- An orderly run is always at an instruction of some segment. -/
theorem Visits.exists_inSegment {program : Program} (hsegmented : program.Segmented unit.code)
    (hstart : start.Fresh unit) {time : Nat} (h : Visits meaning unit start time config) :
    ∃ number, unit.code.InSegment number config.position := by
  induction time generalizing config with
  | zero =>
    obtain rfl : start = config := Progress.running.inj h
    obtain ⟨whole, function, hwhole, -⟩ := hstart.enters
    exact Code.exists_inSegment (List.getElem?_eq_some_iff.mp hwhole).1
  | succ time ih =>
    obtain ⟨previous, hprevious, hstep⟩ := h.succ
    obtain ⟨number, hin⟩ := ih hprevious
    cases orderly_of_step hsegmented hstart.frames_eq hprevious hin hstep with
    | within number _ hto _ _ => exact ⟨number, hto⟩
    | call whole function destination _ _ hentry _ =>
      obtain ⟨entry, hwhole, -⟩ := Code.enter_of_entry? hentry
      exact Code.exists_inSegment (List.getElem?_eq_some_iff.mp hwhole).1
    | back frame earlier number position state whole function _ _ _ _ _ _ _ hto =>
      exact ⟨number, hto⟩

end Machine

/-- The code of a program is segmented, and control never gets from one segment into another but
by a call, to the entry of a function, and by a return, to the place behind the call. -/
theorem lower_segmented {program : Program} {unit : CodeUnit} (hlower : program.lower = .ok unit)
    (hlabels : unit.code.labels.length ≤ 2 ^ 32) :
    program.Segmented unit.code ∧
      ∀ {Value Input : Type} (meaning : Interpretation Value Input)
        (start : Machine.Config Value Input), start.Fresh unit →
          ∀ time config, Machine.Visits meaning unit start time config →
            (∃ number, unit.code.InSegment number config.position) ∧
              ∀ config', Machine.step meaning unit config = .running config' →
                Machine.Orderly meaning unit start time config config' := by
  have hsegmented := Program.segmented_of_lower hlower hlabels
  refine ⟨hsegmented, fun meaning start hstart time config hvisit => ?_⟩
  obtain ⟨number, hin⟩ := hvisit.exists_inSegment hsegmented hstart
  exact ⟨⟨number, hin⟩, fun config' hstep =>
    Machine.orderly_of_step hsegmented hstart.frames_eq hvisit hin hstep⟩

/-- A program with a loop behind a return, and with a call in a loop of the function that does not
return. -/
def branching : Program where
  decls := [.scalar .int "n" (.int 1), .function .int "f" [], .function .int "main" []]
  implementations :=
    [⟨"f", .ifElse (.scalar "n")
      (.block [.ret (.literal (.int 1)), .loop (.scalar "n") (.assign "n" (.literal (.int 0)))])
      (.ret (.literal (.int 2)))⟩,
     ⟨"main", .loop (.scalar "n") (.assign "n" (.call "f" []))⟩]

/-- The code of the program with branches. -/
def branchingUnit : CodeUnit where
  decls := branching.decls
  strings := .empty
  code :=
    [⟨none, .enter "f"⟩,
     ⟨none, .jumpIfFalse (.variable "n") (.numbered 0)⟩,
     ⟨none, .ret (.constant (.int 1))⟩,
     ⟨some (.numbered 2), .nop⟩,
     ⟨none, .jumpIfFalse (.variable "n") (.numbered 3)⟩,
     ⟨none, .copy (.variable "n") (.constant (.int 0))⟩,
     ⟨none, .jump (.numbered 2)⟩,
     ⟨some (.numbered 3), .nop⟩,
     ⟨none, .jump (.numbered 1)⟩,
     ⟨some (.numbered 0), .ret (.constant (.int 2))⟩,
     ⟨some (.numbered 1), .nop⟩,
     ⟨none, .leave⟩,
     ⟨none, .enter "main"⟩,
     ⟨some (.numbered 4), .nop⟩,
     ⟨none, .jumpIfFalse (.variable "n") (.numbered 5)⟩,
     ⟨none, .call "f" (.temporary (.numbered 0))⟩,
     ⟨none, .copy (.variable "n") (.temporary (.numbered 0))⟩,
     ⟨none, .jump (.numbered 4)⟩,
     ⟨some (.numbered 5), .nop⟩,
     ⟨none, .leave⟩]

/-- The program with branches is lowered to its code. -/
theorem branching_lower : branching.lower = .ok branchingUnit := rfl

/-- A run of the program with branches gets from its second segment into the first one by the
call. -/
theorem branching_orderly :
    branching.Segmented branchingUnit.code ∧
      ∃ start config config' : Machine.Config Int (List Int),
        config.position = 15 ∧ config'.position = 0 ∧
          Machine.Orderly .wholeNumbers branchingUnit start 3 config config' := by
  obtain ⟨hsegmented, hruns⟩ := lower_segmented branching_lower (by decide)
  obtain ⟨-, hsteps⟩ := hruns .wholeNumbers
    ⟨12, [], ⟨fun _ => 1, fun _ _ => 0, fun _ _ => 0, [], []⟩, fun _ => 0⟩
    ⟨rfl, _, _, rfl, rfl⟩ 3 _ rfl
  exact ⟨hsegmented, _, _, _, rfl, rfl, hsteps _ rfl⟩

end ThreeAddress
