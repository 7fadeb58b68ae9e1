import ThreeAddress.Proofs.Execution.Located
import Mathlib.Logic.Relation

/-!
# Paths through code

Control can go from an instruction to the next one or to the label that it names, whatever the
values are. A label marks one instruction only until the labels run out; so that nothing depends on
this, every jump is linked to one instruction that carries its label. Some code is traced once it is
known whether a path leads from its front to behind its end, and code that is put together from
traced parts is traced again.
-/

namespace ThreeAddress

open LowerM Relation

/-- Whether the next instruction can follow an operation. -/
def Operation.isOnward : Operation → Bool
  | .jump _ | .ret _ => false
  | _ => true

/-- A straight operation is followed by the next one and does not jump. -/
theorem Operation.onward_of_isStraight {operation : Operation} (h : operation.isStraight = true) :
    operation.isOnward = true ∧ operation.target? = none := by
  cases operation <;> simp_all [isStraight, isOnward, target?]

namespace Code

/-- A choice, for every jump of some code, of an instruction that carries the label it names. -/
def Links (code : Code) (target : Nat → Nat) : Prop :=
  ∀ position instruction label, code[position]? = some instruction →
    instruction.operation.target? = some label →
      ∃ marked, code[target position]? = some marked ∧ marked.label? = some label

/-- Control can go from one position to another: to the next one, unless the operation is a jump or
a return, or to where a jump is linked. -/
inductive Flows (code : Code) (target : Nat → Nat) (position : Nat) : Nat → Prop
  | next {instruction : Instruction} (hinstruction : code[position]? = some instruction)
      (honward : instruction.operation.isOnward = true) :
      Flows code target position (position + 1)
  | jump {instruction : Instruction} {label : Label}
      (hinstruction : code[position]? = some instruction)
      (htarget : instruction.operation.target? = some label) :
      Flows code target position (target position)

variable {code part first second : Code} {target own own' : Nat → Nat} {base position next : Nat}

/-- An instruction of a sequence belongs to one of its parts. -/
theorem getElem?_append_cases {instruction : Instruction}
    (h : (first ++ second)[position]? = some instruction) :
    first[position]? = some instruction ∨
      ∃ index, position = first.length + index ∧ second[index]? = some instruction := by
  rcases Nat.lt_or_ge position first.length with hlt | hge
  · exact .inl (by rwa [List.getElem?_append_left hlt] at h)
  · refine .inr ⟨position - first.length, by omega, ?_⟩
    rwa [List.getElem?_append_right hge] at h

/-- A straight instruction is followed by the next one only. -/
theorem Flows.eq_succ {instruction : Instruction} (h : code.Flows target position next)
    (hinstruction : code[position]? = some instruction)
    (hstraight : instruction.operation.isStraight = true) : next = position + 1 := by
  cases h with
  | next => rfl
  | jump hjump htarget =>
    obtain rfl := Option.some.inj (hinstruction.symm.trans hjump)
    rw [(Operation.onward_of_isStraight hstraight).2] at htarget
    contradiction

/-- Control comes through straight code. -/
theorem reaches_of_straight (hlocated : code.Located base part)
    (hstraight : ∀ instruction ∈ part, instruction.operation.isStraight = true) :
    ReflTransGen (code.Flows target) base (base + part.length) := by
  suffices h : ∀ count ≤ part.length, ReflTransGen (code.Flows target) base (base + count) from
    h part.length (Nat.le_refl _)
  intro count
  induction count with
  | zero => exact fun _ => .refl
  | succ count ih =>
    intro hle
    have hsome := List.getElem?_eq_getElem hle
    obtain ⟨whole, hwhole, hoperation, -⟩ := hlocated count _ hsome
    have hgoes := (Operation.onward_of_isStraight
      (hstraight _ (List.getElem_mem hle))).1
    exact (ih (Nat.le_of_succ_le hle)).tail (.next hwhole (by rw [hoperation]; exact hgoes))

/-- The jumps of some code that stands at a position of other code are linked there. -/
def LinkedAt (code : Code) (target : Nat → Nat) (base : Nat) (part : Code) : Prop :=
  ∀ position instruction label, part[position]? = some instruction →
    instruction.operation.target? = some label →
      ∃ marked, code[target (base + position)]? = some marked ∧ marked.label? = some label

/-- All jumps of some code are linked if they are linked where it stands. -/
theorem links_iff_linkedAt : code.Links target ↔ code.LinkedAt target 0 code := by
  simp only [Links, LinkedAt, Nat.zero_add]

/-- A sequence is linked if both its parts are. -/
theorem LinkedAt.append (h : code.LinkedAt target base first)
    (h' : code.LinkedAt target (base + first.length) second) :
    code.LinkedAt target base (first ++ second) := by
  intro position instruction label hinstruction htarget
  rcases getElem?_append_cases hinstruction with hfirst | ⟨index, rfl, hsecond⟩
  · exact h _ _ _ hfirst htarget
  · rw [← Nat.add_assoc]
    exact h' _ _ _ hsecond htarget

/-- Straight code has no jumps to link. -/
theorem linkedAt_of_straight
    (h : ∀ instruction ∈ part, instruction.operation.isStraight = true) :
    code.LinkedAt target base part := by
  intro position instruction label hinstruction htarget
  rw [(Operation.onward_of_isStraight (h _ (List.mem_of_getElem? hinstruction))).2] at htarget
  contradiction

/-- A jump at the end of linked code is linked to an instruction that carries its label. -/
theorem LinkedAt.push (h : code.LinkedAt target base part) {operation : Operation} {label : Label}
    {marked : Instruction} (htarget : operation.target? = some label)
    (hmarked : code[target (base + part.length)]? = some marked)
    (hlabel : marked.label? = some label) : code.LinkedAt target base (part.push operation) := by
  refine h.append fun position instruction label' hinstruction htarget' => ?_
  obtain ⟨rfl, rfl⟩ : position = 0 ∧ operation.unlabelled = instruction := by
    cases position <;> simp_all [ofOperation]
  obtain rfl : label = label' := Option.some.inj (htarget.symm.trans htarget')
  exact ⟨marked, hmarked, hlabel⟩

/-- Some code stands at a position of other code, and there its jumps go the same way. -/
structure Hosts (code : Code) (target : Nat → Nat) (base : Nat) (part : Code) (own : Nat → Nat) :
    Prop where
  located : code.Located base part
  same : ∀ position < part.length, target (base + position) = base + own position

namespace Hosts

/-- Where control can go in a part, it can go in the whole. -/
theorem flows (h : code.Hosts target base part own) (hflows : part.Flows own position next) :
    code.Flows target (base + position) (base + next) := by
  cases hflows with
  | next hinstruction honward =>
    obtain ⟨whole, hwhole, hoperation, -⟩ := h.located _ _ hinstruction
    exact .next hwhole (by rw [hoperation]; exact honward)
  | jump hinstruction htarget =>
    obtain ⟨whole, hwhole, hoperation, -⟩ := h.located _ _ hinstruction
    rw [← h.same _ (List.getElem?_eq_some_iff.mp hinstruction).1]
    exact .jump hwhole (by rw [hoperation]; exact htarget)

/-- Paths through a part are paths through the whole. -/
theorem reaches (h : code.Hosts target base part own)
    (hreaches : ReflTransGen (part.Flows own) position next) :
    ReflTransGen (code.Flows target) (base + position) (base + next) :=
  hreaches.lift (base + ·) fun _ _ => h.flows

/-- From an instruction of a part, control goes where it goes in the part. -/
theorem exists_flows (h : code.Hosts target base part own) (hlt : position < part.length)
    (hflows : code.Flows target (base + position) next) :
    ∃ inner, next = base + inner ∧ part.Flows own position inner := by
  have hsome := List.getElem?_eq_getElem hlt
  obtain ⟨whole, hwhole, hoperation, -⟩ := h.located _ _ hsome
  cases hflows with
  | next hinstruction honward =>
    obtain rfl := Option.some.inj (hwhole.symm.trans hinstruction)
    exact ⟨position + 1, rfl, .next hsome (by rw [← hoperation]; exact honward)⟩
  | jump hinstruction htarget =>
    obtain rfl := Option.some.inj (hwhole.symm.trans hinstruction)
    rw [hoperation] at htarget
    exact ⟨own position, h.same _ hlt, .jump hsome htarget⟩

/-- The instructions of a part are instructions of the whole. -/
theorem lt_length (h : code.Hosts target base part own) (hlt : position < part.length) :
    base + position < code.length := by
  obtain ⟨whole, hwhole, -⟩ := h.located _ _ (List.getElem?_eq_getElem hlt)
  exact (List.getElem?_eq_some_iff.mp hwhole).1

/-- A part of a part is a part. -/
theorem trans {inner : Code} {offset : Nat} {inmost : Nat → Nat}
    (h : code.Hosts target base part own) (h' : part.Hosts own offset inner inmost) :
    code.Hosts target (base + offset) inner inmost where
  located := h.located.trans h'.located
  same position hlt := by
    rw [Nat.add_assoc, h.same _ (h'.lt_length hlt), h'.same _ hlt, Nat.add_assoc]

/-- The jumps of a part are linked in the whole as they are in the part. -/
theorem linkedAt (h : code.Hosts target base part own) (hlinks : part.Links own) :
    code.LinkedAt target base part := by
  intro position instruction label hinstruction htarget
  obtain ⟨marked, hmarked, hlabel⟩ := hlinks _ _ _ hinstruction htarget
  obtain ⟨whole, hwhole, -, hsame⟩ := h.located.labelled _ hmarked hlabel
  rw [h.same _ (List.getElem?_eq_some_iff.mp hinstruction).1]
  exact ⟨whole, hwhole, hsame⟩

end Hosts

/-- The links of a sequence of two codes: each has its own. -/
def joined (own : Nat → Nat) (length : Nat) (own' : Nat → Nat) (position : Nat) : Nat :=
  if position < length then own position else length + own' (position - length)

/-- A sequence hosts its first part. -/
theorem hosts_left (first second : Code) (own own' : Nat → Nat) :
    (first ++ second : Code).Hosts (joined own first.length own') 0 first own where
  located := (Located.self _).left
  same position hlt := by rw [joined, Nat.zero_add, if_pos hlt, Nat.zero_add]

/-- A sequence hosts its second part. -/
theorem hosts_right (first second : Code) (own own' : Nat → Nat) :
    (first ++ second : Code).Hosts (joined own first.length own') first.length second own' where
  located := by simpa using (Located.self (first ++ second)).right
  same position _ := by rw [joined, if_neg (by omega), Nat.add_sub_cancel_left]

/-- A sequence is linked if its parts are. -/
theorem Links.append (h : first.Links own) (h' : second.Links own') :
    (first ++ second : Code).Links (joined own first.length own') := by
  rw [links_iff_linkedAt]
  refine ((hosts_left first second own own').linkedAt h).append ?_
  rw [Nat.zero_add]
  exact (hosts_right first second own own').linkedAt h'

/-- Control goes to the instructions of linked code or just behind them. -/
theorem Links.le_length (h : code.Links target) (hflows : code.Flows target position next) :
    next ≤ code.length := by
  cases hflows with
  | next hinstruction _ => exact (List.getElem?_eq_some_iff.mp hinstruction).1
  | jump hinstruction htarget =>
    obtain ⟨marked, hmarked, -⟩ := h _ _ _ hinstruction htarget
    exact Nat.le_of_lt (List.getElem?_eq_some_iff.mp hmarked).1

/-- Where no label is attached twice there is one way to link the jumps. -/
theorem Links.flows (h : code.Links target) (hnodup : code.labels.Nodup) (h' : code.Links own)
    (hflows : code.Flows own position next) : code.Flows target position next := by
  cases hflows with
  | next hinstruction honward => exact .next hinstruction honward
  | jump hinstruction htarget =>
    obtain ⟨marked, hmarked, hlabel⟩ := h _ _ _ hinstruction htarget
    obtain ⟨marked', hmarked', hlabel'⟩ := h' _ _ _ hinstruction htarget
    have hsame : target position = own position := Option.some.inj
      ((position?_eq_some hnodup hmarked hlabel).symm.trans
        (position?_eq_some hnodup hmarked' hlabel'))
    rw [← hsame]
    exact .jump hinstruction htarget

/-- Linked codes one after the other are linked, and each keeps its own links. -/
theorem exists_links_flatten (parts : List Code) (own : Nat → Nat → Nat)
    (h : ∀ number (part : Code), parts[number]? = some part → part.Links (own number)) :
    ∃ target, Links parts.flatten target ∧ ∀ number part, parts[number]? = some part →
      Hosts parts.flatten target (parts.take number).flatten.length part (own number) := by
  induction parts generalizing own with
  | nil => exact ⟨id, fun _ _ _ hnone => by simp at hnone, fun _ _ hnone => by simp at hnone⟩
  | cons head rest ih =>
    obtain ⟨target, hlinks, hhosts⟩ := ih (fun number => own (number + 1))
      fun number part hpart => h (number + 1) part hpart
    rw [List.flatten_cons]
    refine ⟨joined (own 0) head.length target, (h 0 head rfl).append hlinks, ?_⟩
    intro number part hpart
    cases number with
    | zero =>
      obtain rfl : head = part := by simpa using hpart
      exact hosts_left head rest.flatten (own 0) target
    | succ number =>
      rw [List.take_succ_cons, List.flatten_cons, List.length_append]
      exact (hosts_right head rest.flatten (own 0) target).trans (hhosts number part hpart)

/-- Control that comes in at the front of some code stays in a region of it. -/
structure Keeps (code : Code) (target : Nat → Nat) (region : Nat → Prop) : Prop where
  front : region 0
  inside : ∀ {position}, region position → position < code.length
  closed : ∀ {position next}, region position → code.Flows target position next → region next

/-- What paths there are through some code: one from its front to behind its end if it falls
through, and otherwise none that leaves it. -/
structure Traced (code : Code) (target : Nat → Nat) (falls : Prop) : Prop where
  links : code.Links target
  through : falls → ReflTransGen (code.Flows target) 0 code.length
  kept : ¬ falls → ∃ region, code.Keeps target region

namespace Traced

variable {falls falls' : Prop}

/-- Code falls through in the cases in which it does. -/
theorem congr (h : code.Traced own falls) (hiff : falls ↔ falls') : code.Traced own falls' :=
  propext hiff ▸ h

/-- Straight code falls through. -/
theorem ofStraight (h : ∀ instruction ∈ code, instruction.operation.isStraight = true) :
    Traced code own True where
  links := links_iff_linkedAt.mpr (linkedAt_of_straight h)
  through _ := by simpa using reaches_of_straight (Located.self code) h
  kept h := absurd trivial h

/-- One instruction that does not jump falls through, unless it is a return. -/
theorem single {instruction : Instruction} (h : instruction.operation.target? = none) :
    Traced [instruction] own (instruction.operation.isOnward = true) where
  links position found label hfound htarget := by
    obtain rfl := List.mem_singleton.mp (List.mem_of_getElem? hfound)
    rw [h] at htarget
    contradiction
  through honward := .single (.next rfl honward)
  kept hnot := by
    refine ⟨fun position => position = 0, rfl, fun hzero => hzero ▸ Nat.one_pos, ?_⟩
    rintro _ next rfl hflows
    cases hflows with
    | next hfound honward =>
      obtain rfl := Option.some.inj hfound
      exact absurd honward hnot
    | jump hfound htarget =>
      obtain rfl := Option.some.inj hfound
      rw [h] at htarget
      contradiction

/-- A sequence falls through if both parts do. -/
theorem append (h : first.Traced own falls) (h' : second.Traced own' falls') :
    (first ++ second : Code).Traced (joined own first.length own') (falls ∧ falls') where
  links := h.links.append h'.links
  through := by
    rintro ⟨hfalls, hfalls'⟩
    have hfirst := (hosts_left first second own own').reaches (h.through hfalls)
    have hsecond := (hosts_right first second own own').reaches (h'.through hfalls')
    rw [Nat.zero_add, Nat.zero_add] at hfirst
    rw [List.length_append]
    exact hfirst.trans hsecond
  kept hnot := by
    have hleft := hosts_left first second own own'
    have hright := hosts_right first second own own'
    have hflows : ∀ {position next}, position < first.length →
        (first ++ second : Code).Flows (joined own first.length own') position next →
          first.Flows own position next := by
      intro position next hlt hflows
      obtain ⟨inner, rfl, hinner⟩ := hleft.exists_flows hlt (by rwa [Nat.zero_add])
      rwa [Nat.zero_add]
    by_cases hfalls : falls
    · obtain ⟨region, hregion⟩ := h'.kept fun hfalls' => hnot ⟨hfalls, hfalls'⟩
      -- control may go anywhere in the first part, but is kept once it comes to the second
      refine ⟨fun position => position < first.length ∨
        ∃ index, position = first.length + index ∧ region index, ?_, ?_, ?_⟩
      · rcases Nat.eq_zero_or_pos first.length with hzero | hpos
        · exact .inr ⟨0, hzero.symm, hregion.front⟩
        · exact .inl hpos
      · rintro position (hlt | ⟨index, rfl, hindex⟩)
        · rw [List.length_append]
          omega
        · rw [List.length_append]
          exact Nat.add_lt_add_left (hregion.inside hindex) _
      · rintro position next (hlt | ⟨index, rfl, hindex⟩) hnext
        · rcases Nat.lt_or_eq_of_le (h.links.le_length (hflows hlt hnext)) with hlt' | rfl
          · exact .inl hlt'
          · exact .inr ⟨0, rfl, hregion.front⟩
        · obtain ⟨inner, rfl, hinner⟩ := hright.exists_flows (hregion.inside hindex) hnext
          exact .inr ⟨inner, rfl, hregion.closed hindex hinner⟩
    · obtain ⟨region, hregion⟩ := h.kept hfalls
      refine ⟨region, hregion.front, fun hposition => ?_, fun hposition hnext =>
        hregion.closed hposition (hflows (hregion.inside hposition) hnext)⟩
      rw [List.length_append]
      exact Nat.lt_add_right _ (hregion.inside hposition)

/-- Putting a label on the head of some code leaves its paths as they are. -/
theorem ofHead (h : part.Traced own falls) (hhosts : code.Hosts own 0 part own)
    (hlength : code.length = part.length) : code.Traced own falls where
  links := by
    intro position instruction label hinstruction htarget
    have hlt := (List.getElem?_eq_some_iff.mp hinstruction).1
    have hsome := List.getElem?_eq_getElem (hlength ▸ hlt : position < part.length)
    obtain ⟨whole, hwhole, hoperation, -⟩ := hhosts.located _ _ hsome
    rw [Nat.zero_add] at hwhole
    obtain rfl := Option.some.inj (hwhole.symm.trans hinstruction)
    have hmarked := hhosts.linkedAt h.links _ _ _ hsome (hoperation ▸ htarget)
    rwa [Nat.zero_add] at hmarked
  through hfalls := by simpa [hlength] using hhosts.reaches (h.through hfalls)
  kept hnot := by
    obtain ⟨region, hregion⟩ := h.kept hnot
    refine ⟨region, hregion.front, fun hposition => hlength ▸ hregion.inside hposition, ?_⟩
    intro position next hposition hflows
    obtain ⟨inner, rfl, hinner⟩ :=
      hhosts.exists_flows (hregion.inside hposition) (by rwa [Nat.zero_add])
    rw [Nat.zero_add]
    exact hregion.closed hposition hinner

/-- Marked code falls through if the code does. -/
theorem marked (h : part.Traced own falls) (label : Label) :
    ∃ own', (part.marked label).Traced own' falls := by
  rcases marked_cases label part with hnop | ⟨hlocated, hlength⟩
  · have hfirst : Traced [⟨some label, .nop⟩] id (Operation.nop.isOnward = true) := single rfl
    rw [hnop]
    exact ⟨_, (hfirst.append h).congr (and_iff_right rfl)⟩
  · exact ⟨own, h.ofHead ⟨hlocated, fun _ _ => by rw [Nat.zero_add, Nat.zero_add]⟩ hlength⟩

/-- Where code stands in other code, control gets behind its end exactly if it falls through. -/
theorem reaches_iff (h : part.Traced own falls) (hhosts : code.Hosts target base part own) :
    ReflTransGen (code.Flows target) base (base + part.length) ↔ falls := by
  constructor
  · intro hreaches
    by_contra hnot
    obtain ⟨region, hregion⟩ := h.kept hnot
    have hstays : ∀ {position}, ReflTransGen (code.Flows target) base position →
        ∃ index, position = base + index ∧ region index := by
      intro position hreaches
      induction hreaches with
      | refl => exact ⟨0, rfl, hregion.front⟩
      | tail _ hflows ih =>
        obtain ⟨index, rfl, hindex⟩ := ih
        obtain ⟨inner, rfl, hinner⟩ := hhosts.exists_flows (hregion.inside hindex) hflows
        exact ⟨inner, rfl, hregion.closed hindex hinner⟩
    obtain ⟨index, heq, hindex⟩ := hstays hreaches
    have hlt := hregion.inside hindex
    omega
  · intro hfalls
    simpa using hhosts.reaches (h.through hfalls)

end Traced

end Code

end ThreeAddress
