import ThreeAddress.Proofs.Control.Paths
import ThreeAddress.Proofs.Control.Segments
import ThreeAddress.Proofs.Lowering.Operands
import Mathlib.Data.List.Count

/-!
# Temporaries are written once and read once

Temporaries and string constants are numbered from one supply. Every number that was taken while
some code was lowered is accounted for: it is a temporary that one instruction writes and one
operand reads, or a string constant that one operand uses. The instruction that reads a temporary
comes after the one that writes it, and control gets from the one to the other on a straight line
without labels, so that no path leads around the write.
-/

namespace ThreeAddress

open LowerM Relation

namespace Code

/-- The places that the instructions of some code write, in order. -/
def destinations (code : Code) : List Storage :=
  code.flatMap fun instruction => instruction.operation.destination?.toList

/-- The destinations of a sequence are those of its parts. -/
@[simp] theorem destinations_append (first second : Code) :
    destinations (first ++ second) = destinations first ++ destinations second :=
  List.flatMap_append

/-- An operation at the end adds its destination. -/
@[simp] theorem destinations_push (code : Code) (operation : Operation) :
    (code.push operation).destinations = code.destinations ++ operation.destination?.toList := by
  simp [push, destinations, ofOperation, Operation.unlabelled]

/-- Labelling adds no destination. -/
@[simp] theorem destinations_marked (label : Label) (code : Code) :
    (code.marked label).destinations = code.destinations :=
  flatMap_marked (fun operation => operation.destination?.toList) rfl label code

/-- The place behind a construct is no destination. -/
@[simp] theorem destinations_landing (label : Label) : (landing label).destinations = [] := rfl

section Lines

variable {code line : Code} {position : Nat} {id : Temporary} {place : Storage}

/-- A temporary is written at one position, and control comes straight from there to another: no
label is in between or at the other, and every operation in between is followed by the next one. -/
structure Brings (code : Code) (write position : Nat) (id : Temporary) : Prop where
  lt : write < position
  written : ∃ instruction, code[write]? = some instruction ∧
    instruction.operation.destination? = some (.temporary id)
  straight : ∀ between, write < between → between ≤ position →
    ∃ other, code[between]? = some other ∧ other.label? = none ∧
      (between < position → other.operation.isStraight = true)

/-- A temporary is brought to a position. -/
def Ready (code : Code) (position : Nat) (id : Temporary) : Prop :=
  ∃ write, code.Brings write position id

/-- The temporaries that an operation reads are ready. -/
def ReadsReady (code : Code) (position : Nat) (operation : Operation) : Prop :=
  ∀ id, .temporary id ∈ operation.operands → code.Ready position id

/-- What some code brings to a position, it brings there where the code stands. -/
theorem Brings.of_located {part : Code} {base write : Nat} (hlocated : code.Located base part)
    (h : part.Brings write position id) : code.Brings (base + write) (base + position) id where
  lt := Nat.add_lt_add_left h.lt base
  written := by
    obtain ⟨instruction, hwrite, hid⟩ := h.written
    obtain ⟨whole, hwhole, hoperation, -⟩ := hlocated write instruction hwrite
    exact ⟨whole, hwhole, hoperation ▸ hid⟩
  straight between hlt hle := by
    obtain ⟨offset, rfl⟩ := Nat.exists_eq_add_of_le (Nat.le_trans (Nat.le_add_right _ _) hlt.le)
    obtain ⟨other, hother, hlabel, hstraight⟩ := h.straight offset (by omega) (by omega)
    obtain ⟨found, hfound, hsame, hmark⟩ := hlocated offset other hother
    refine ⟨found, hfound, ?_, fun hbefore => hsame ▸ hstraight (by omega)⟩
    rcases hmark with heq | ⟨hzero, -⟩
    · exact heq.trans hlabel
    · omega

/-- No path gets to a position that a temporary is brought to without passing its write. -/
theorem Brings.not_avoided {write start : Nat} {target : Nat → Nat}
    (h : code.Brings write position id) (hlinks : code.Links target)
    (hstart : start ≤ write ∨ position < start) :
    ¬ ReflTransGen (fun here next => here ≠ write ∧ code.Flows target here next) start
      position := by
  suffices houtside : ∀ here,
      ReflTransGen (fun here next => here ≠ write ∧ code.Flows target here next) start here →
        here ≤ write ∨ position < here by
    intro hpath
    have hlt := h.lt
    have := houtside position hpath
    omega
  intro here hpath
  induction hpath with
  | refl => exact hstart
  | @tail here next _ hstep ih =>
    obtain ⟨hne, hflows⟩ := hstep
    by_contra hinside
    obtain ⟨other, hother, hlabel, -⟩ := h.straight next (by omega) (by omega)
    cases hflows with
    | next => omega
    | jump hjump htarget =>
      obtain ⟨marked, hmarked, hmark⟩ := hlinks _ _ _ hjump htarget
      obtain rfl := Option.some.inj (hmarked.symm.trans hother)
      rw [hlabel] at hmark
      contradiction

/-- Whether operands are ready does not depend on the code around. -/
theorem ReadsReady.isLocal : IsLocal ReadsReady :=
  fun _ _ _ _ _ hlocated h id hid => (h id hid).imp' _ fun _ => Brings.of_located hlocated

/-- Some code ends with the write of a place, if the place is a temporary. -/
def Delivers (code : Code) (place : Storage) : Prop :=
  ∀ id, place = .temporary id →
    ∃ writer ∈ code.getLast?, writer.operation.destination? = some place

/-- An operation at the end of some code delivers its destination. -/
theorem delivers_push (code : Code) {operation : Operation}
    (h : operation.destination? = some place) : (code.push operation).Delivers place :=
  fun _ _ => ⟨operation.unlabelled, by simp [push, ofOperation], h⟩

/-- A place that is no temporary needs no write. -/
theorem delivers_of_ne (h : ∀ id, place ≠ .temporary id) : code.Delivers place :=
  fun id hid => absurd hid (h id)

/-- Labelled code delivers what the code delivers. -/
theorem Delivers.marked (h : code.Delivers place) (label : Label) :
    (code.marked label).Delivers place := by
  intro id hid
  obtain ⟨writer, hlast, hwrites⟩ := h id hid
  match code with
  | [⟨none, operation⟩] =>
    obtain rfl : ⟨none, operation⟩ = writer := by simpa using hlast
    exact ⟨⟨some label, operation⟩, rfl, hwrites⟩
  | ⟨none, _⟩ :: next :: rest => exact ⟨writer, by simpa [Code.marked] using hlast, hwrites⟩
  | ⟨some _, _⟩ :: rest => exact ⟨writer, by simpa [Code.marked] using hlast, hwrites⟩

/-- A delivered temporary is ready for an operation behind a straight line. -/
theorem Delivers.ready (h : code.Delivers (.temporary id))
    (hline : ∀ instruction ∈ line,
      instruction.label? = none ∧ instruction.operation.isStraight = true)
    (operation : Operation) :
    ((code ++ line).push operation).Ready (code ++ line).length id := by
  obtain ⟨writer, hlast, hwrites⟩ := h id rfl
  obtain ⟨front, rfl⟩ := List.getLast?_eq_some_iff.mp hlast
  have hcode : push (front ++ [writer] ++ line) operation =
      front ++ writer :: (line ++ [operation.unlabelled]) := by
    simp [push, ofOperation]
  have hlength : (front ++ [writer] ++ line).length = front.length + 1 + line.length := by
    simp [Nat.add_right_comm, Nat.add_assoc]
  rw [hcode, hlength]
  refine ⟨front.length, by omega, ⟨writer, by simp, hwrites⟩, fun between hlt hle => ?_⟩
  obtain ⟨offset, rfl⟩ := Nat.exists_eq_add_of_lt hlt
  have hbehind : (front ++ writer :: (line ++ [operation.unlabelled]))[front.length + offset + 1]? =
      (line ++ [operation.unlabelled])[offset]? := by
    rw [Nat.add_assoc, List.getElem?_append_right (Nat.le_add_right _ _), Nat.add_sub_cancel_left,
      List.getElem?_cons_succ]
  rw [hbehind]
  rcases Nat.lt_or_ge offset line.length with hinside | hend
  · obtain ⟨hlabel, hstraight⟩ := hline _ (line.get_mem ⟨offset, hinside⟩)
    rw [List.getElem?_append_left hinside]
    exact ⟨_, List.getElem?_eq_getElem hinside, hlabel, fun _ => hstraight⟩
  · obtain rfl : offset = line.length := by omega
    exact ⟨operation.unlabelled, by simp, rfl, fun hbefore => absurd hbefore (by omega)⟩

/-- A delivered temporary is ready for the next operation. -/
theorem Delivers.ready_push (h : code.Delivers (.temporary id)) (operation : Operation) :
    (code.push operation).Ready code.length id := by
  simpa using @Delivers.ready code [] id h (by simp) operation

/-- What some code delivers, it delivers behind other code. -/
theorem Delivers.append_left (h : code.Delivers place) (front : Code) :
    (front ++ code : Code).Delivers place := by
  intro id hid
  obtain ⟨writer, hlast, hwrites⟩ := h id hid
  exact ⟨writer, List.mem_getLast?_append_of_mem_getLast? hlast, hwrites⟩

/-- An operation behind code that delivers its operands reads them when they are ready. -/
theorem Each.push_delivered (h : code.Each ReadsReady) {operation : Operation}
    (hoperands : ∀ place ∈ operation.operands, code.Delivers place) :
    (code.push operation).Each ReadsReady :=
  h.push ReadsReady.isLocal fun _ hid => (hoperands _ hid).ready_push operation

/-- An operation with two operands reads them when they are ready, if the second is computed on a
straight line. -/
theorem Each.push_both {rest : Code} {first second : Storage} {before after : Supply}
    (h : code.Each ReadsReady) (hfirst : code.Delivers first) (h' : rest.Each ReadsReady)
    (hsecond : rest.Delivers second) (hline : StraightLine before rest after)
    {operation : Operation} (hoperands : operation.operands = [first, second]) :
    ((code ++ rest).push operation).Each ReadsReady := by
  refine (h.append ReadsReady.isLocal h').push ReadsReady.isLocal fun id hid => ?_
  rw [hoperands] at hid
  rcases List.mem_pair.mp hid with heq | heq
  · exact (heq ▸ hfirst).ready (fun instruction hmem =>
      ⟨hline.unlabelled instruction hmem, hline.straight instruction hmem⟩) operation
  · exact ((heq ▸ hsecond).append_left code).ready_push operation

/-- An instruction without effect reads nothing. -/
theorem readsReady_nop (code : Code) (position : Nat) : code.ReadsReady position .nop :=
  fun _ h => absurd h List.not_mem_nil

/-- The place behind a construct reads nothing. -/
theorem each_landing (label : Label) : (landing label).Each ReadsReady :=
  Each.nil.marked ReadsReady.isLocal readsReady_nop label

end Lines

end Code

section Lowering

variable {env : Environment} {before after : Supply} {code : Code}

/-- The code of an expression delivers its place, and reads temporaries when they are ready. -/
theorem readsReady_of_lowerExpr {expr : Expr} {place : Storage}
    (h : (lowerExpr env expr).Yields before (code, place) after) :
    code.Each Code.ReadsReady ∧ code.Delivers place := by
  refine lowerExpr_induction
    (P := fun _ _ code place _ => code.Each Code.ReadsReady ∧ code.Delivers place)
    (Q := fun _ _ _ _ code _ => code.Each Code.ReadsReady)
    ?constant ?string ?scalar ?element ?call ?input ?binary ?surplus ?argument h
  case constant => exact fun _ _ => ⟨.nil, Code.delivers_of_ne (by simp)⟩
  case string => exact fun _ _ => ⟨.nil, Code.delivers_of_ne (by simp)⟩
  case scalar => exact fun name _ => ⟨.nil, Code.delivers_of_ne (env.placeOf_ne_temporary name)⟩
  case element =>
    rintro array index before code place after - ⟨hcode, hplace⟩
    exact ⟨hcode.push_delivered (by simpa [Operation.operands] using hplace),
      Code.delivers_push _ rfl⟩
  case call =>
    intro function args params before code after _ _ hargs
    exact ⟨hargs.push_delivered (by simp [Operation.operands]), Code.delivers_push _ rfl⟩
  case input =>
    intro type supply
    exact ⟨Code.Each.nil.push_delivered (by simp [Operation.operands]),
      Code.delivers_push [] rfl⟩
  case binary =>
    rintro op lhs rhs before leftCode left middle rightCode right after - hyields ⟨hleft, hfirst⟩
      ⟨hright, hsecond⟩
    exact ⟨hleft.push_both hfirst hright hsecond (straightLine_of_yields hyields) rfl,
      Code.delivers_push _ rfl⟩
  case surplus => exact fun _ _ _ _ _ => .nil
  case argument =>
    rintro function arg args param params before argCode source middle rest after - - ⟨harg, hplace⟩
      hrest
    exact (harg.push_delivered (by simpa [Operation.operands] using hplace)).append
      Code.ReadsReady.isLocal hrest

/-- The code of a statement reads temporaries when they are ready. -/
theorem readsReady_of_lowerStmt {stmt : Stmt} (h : (lowerStmt env stmt).Yields before code after) :
    code.Each Code.ReadsReady := by
  have hlast : ∀ {code : Code} {place : Storage} {operation : Operation},
      code.Each Code.ReadsReady ∧ code.Delivers place → operation.operands = [place] →
        (code.push operation).Each Code.ReadsReady := by
    rintro code place operation ⟨hcode, hplace⟩ hoperands
    exact hcode.push_delivered (by simpa [hoperands] using hplace)
  have hjump : ∀ {code : Code} (target : Label), code.Each Code.ReadsReady →
      (code.push (.jump target)).Each Code.ReadsReady :=
    fun _ hcode => hcode.push_delivered (by simp [Operation.operands])
  refine lowerStmt_induction (P := fun _ _ code _ => code.Each Code.ReadsReady)
    (Q := fun _ _ code _ => code.Each Code.ReadsReady)
    ?assign ?assignElement ?print ?ret ?ifThen ?ifElse ?loop ?block ?empty ?nil ?cons h
  case assign => exact fun _ _ _ _ _ _ hvalue => hlast (readsReady_of_lowerExpr hvalue) rfl
  case assignElement =>
    intro array index value before valueCode source middle indexCode place after hvalue hindex
    obtain ⟨hfirst, hsource⟩ := readsReady_of_lowerExpr hvalue
    obtain ⟨hsecond, hplace⟩ := readsReady_of_lowerExpr hindex
    exact hfirst.push_both hsource hsecond hplace (straightLine_of_yields hindex) rfl
  case print => exact fun _ _ _ _ _ hvalue => hlast (readsReady_of_lowerExpr hvalue) rfl
  case ret => exact fun _ _ _ _ _ hvalue => hlast (readsReady_of_lowerExpr hvalue) rfl
  case ifThen =>
    intro condition positive before test place middle branch after htest hbranch
    exact ((hlast (readsReady_of_lowerExpr htest) rfl).append
      Code.ReadsReady.isLocal hbranch).append Code.ReadsReady.isLocal (Code.each_landing _)
  case ifElse =>
    intro condition positive negative before test place middle branch last alternative after htest
      hbranch halternative
    have hmarked := halternative.marked Code.ReadsReady.isLocal Code.readsReady_nop
    exact (((hlast (readsReady_of_lowerExpr htest) rfl).append
      Code.ReadsReady.isLocal (hjump _ hbranch)).append
      Code.ReadsReady.isLocal (hmarked _)).append Code.ReadsReady.isLocal (Code.each_landing _)
  case loop =>
    intro condition body before test place middle round after htest hround
    obtain ⟨hcode, hplace⟩ := readsReady_of_lowerExpr htest
    have hmarked := hcode.marked Code.ReadsReady.isLocal Code.readsReady_nop
    exact ((hlast ⟨hmarked _, hplace.marked _⟩ rfl).append Code.ReadsReady.isLocal
      (hjump _ hround)).append Code.ReadsReady.isLocal (Code.each_landing _)
  case block => exact fun _ _ _ _ h => h
  case empty => exact fun _ => .nil
  case nil => exact fun _ => .nil
  case cons => exact fun _ _ _ _ _ _ _ hfirst hrest => hfirst.append Code.ReadsReady.isLocal hrest

end Lowering

namespace Supply

/-- The numbers taken between two supplies, as temporaries. -/
def taken (before after : Supply) : List Temporary :=
  (List.range' before.temporaries (after.temporaries - before.temporaries)).map .numbered

/-- What was taken in two stretches was taken in one. -/
theorem taken_append {first second third : Supply} (h : first.Drawn second)
    (h' : second.Drawn third) : first.taken third = first.taken second ++ second.taken third := by
  have hle := h.temporaries_le
  have hle' := h'.temporaries_le
  have hsplit : third.temporaries - first.temporaries =
      second.temporaries - first.temporaries + (third.temporaries - second.temporaries) := by omega
  rw [taken, taken, taken, hsplit, ← List.range'_append_1, List.map_append,
    Nat.add_sub_cancel' hle]

/-- No number is taken twice, as long as the numbers do not run out. -/
theorem nodup_taken {before after : Supply} (hfit : after.temporaries ≤ 2 ^ 32) :
    (before.taken after).Nodup := by
  refine List.Nodup.map_on (fun number hnumber other hother heq => ?_) List.nodup_range'
  rw [List.mem_range'_1] at hnumber hother
  exact Temporary.numbered_inj (by omega) (by omega) heq

/-- Taking one temporary takes one number. -/
theorem taken_afterTemporary (supply : Supply) :
    supply.taken supply.afterTemporary = [.numbered supply.temporaries] := by
  simp [taken, afterTemporary]

end Supply

/-- Every number taken between two supplies is accounted for, where some places are still to be
read: it is a temporary that is written once and read once, or a string constant that is used once. -/
structure Accounted (before : Supply) (code : Code) (pending : List Storage) (after : Supply) :
    Prop where
  drawn : before.Drawn after
  read : ∀ id, (code.operands ++ pending).count (.temporary id) =
    code.destinations.count (.temporary id)
  taken : ∀ id, code.destinations.count (.temporary id) +
    (code.operands ++ pending).count (.string id) = (before.taken after).count id
  registered : ∀ id, (after.strings.find? id).isSome ↔
    (before.strings.find? id).isSome ∨ .string id ∈ code.operands ++ pending
  words : ∀ id, .string id ∉ code.destinations

namespace Accounted

variable {first second third : Supply} {code rest : Code} {pending others : List Storage}

/-- A place that is neither a temporary nor a string constant has no number. -/
theorem unnumbered (supply : Supply) {place : Storage} (htemporary : ∀ id, place ≠ .temporary id)
    (hstring : ∀ id, place ≠ .string id) : Accounted supply [] [place] supply where
  drawn := .refl
  read id := by simp [Code.operands, Code.destinations, htemporary id]
  taken id := by simp [Code.operands, Code.destinations, Supply.taken, hstring id]
  registered id := by simp [Code.operands, Ne.symm (hstring id)]
  words id := by simp [Code.destinations]

/-- Nothing at all takes no numbers. -/
theorem nil (supply : Supply) : Accounted supply [] [] supply where
  drawn := .refl
  read id := rfl
  taken id := by simp [Code.operands, Code.destinations, Supply.taken]
  registered id := by simp [Code.operands]
  words id := by simp [Code.destinations]

/-- A string literal takes a number and registers its text. -/
theorem string (supply : Supply) (text : String) :
    Accounted supply [] [.string (.numbered supply.temporaries)] (supply.afterString text) where
  drawn := .string text .refl
  read id := by simp [Code.operands, Code.destinations]
  taken id := by
    have hone : supply.taken (supply.afterString text) = [.numbered supply.temporaries] :=
      supply.taken_afterTemporary
    rw [hone]
    simp [Code.operands, Code.destinations, List.count_singleton]
  registered id := by
    by_cases heq : id = .numbered supply.temporaries
    · subst heq
      simp [Supply.afterString, StringPool.find?_insert_self, Code.operands]
    · simp [Supply.afterString, StringPool.find?_insert_of_ne _ _ heq, Code.operands, heq]
  words id := by simp [Code.destinations]

/-- What is lowered one part after the other is accounted for in both parts. -/
theorem append (h : Accounted first code pending second)
    (h' : Accounted second rest others third) :
    Accounted first (code ++ rest) (pending ++ others) third where
  drawn := h.drawn.trans h'.drawn
  read id := by
    have hread := h.read id
    have hread' := h'.read id
    simp only [Code.operands_append, Code.destinations_append, List.count_append] at hread hread' ⊢
    omega
  taken id := by
    have htaken := h.taken id
    have htaken' := h'.taken id
    rw [Supply.taken_append h.drawn h'.drawn]
    simp only [Code.operands_append, Code.destinations_append, List.count_append]
      at htaken htaken' ⊢
    omega
  registered id := by
    rw [h'.registered, h.registered]
    simp only [Code.operands_append, List.mem_append]
    grind
  words id := by
    rw [Code.destinations_append, List.mem_append]
    exact fun hmem => hmem.elim (h.words id) (h'.words id)

/-- An operation that writes neither a temporary nor a string constant reads what is pending. -/
theorem push {operation : Operation} (h : Accounted first code operation.operands second)
    (hdestination : ∀ id, operation.destination? ≠ some (.temporary id) ∧
      operation.destination? ≠ some (.string id)) :
    Accounted first (code.push operation) [] second where
  drawn := h.drawn
  read id := by
    have hread := h.read id
    have hnone : operation.destination?.toList.count (.temporary id) = 0 := by
      simpa [List.count_eq_zero] using (hdestination id).1
    simpa [hnone] using hread
  taken id := by
    have htaken := h.taken id
    have hnone : operation.destination?.toList.count (.temporary id) = 0 := by
      simpa [List.count_eq_zero] using (hdestination id).1
    simpa [hnone] using htaken
  registered id := by simpa using h.registered id
  words id := by simpa [(hdestination id).2] using h.words id

/-- An operation that writes the next temporary reads what is pending, and the temporary is then to
be read. -/
theorem pushFresh {operation : Operation} (h : Accounted first code operation.operands second)
    (hdestination : operation.destination? = some (.temporary (.numbered second.temporaries))) :
    Accounted first (code.push operation) [.temporary (.numbered second.temporaries)]
      second.afterTemporary where
  drawn := h.drawn.temporary
  read id := by
    have hread := h.read id
    simp only [Code.operands_push, Code.destinations_push, hdestination, Option.toList_some,
      List.count_append] at hread ⊢
    omega
  taken id := by
    have htaken := h.taken id
    rw [Supply.taken_append h.drawn (.temporary .refl), Supply.taken_afterTemporary]
    simp only [Code.operands_push, Code.destinations_push, hdestination, Option.toList_some,
      List.count_append, List.count_singleton, beq_iff_eq, Storage.temporary.injEq] at htaken ⊢
    simp
    omega
  registered id := by simpa [Supply.afterTemporary] using h.registered id
  words id := by simpa [hdestination] using h.words id

/-- Labelling takes no numbers. -/
theorem marked (h : Accounted first code pending second) (label : Label) :
    Accounted first (code.marked label) pending second where
  drawn := h.drawn
  read id := by simpa using h.read id
  taken id := by simpa using h.taken id
  registered id := by simpa using h.registered id
  words id := by simpa using h.words id

/-- The place behind a construct takes no numbers. -/
theorem landing (supply : Supply) (label : Label) :
    Accounted supply (Code.landing label) [] supply := (nil supply).marked label

/-- Taking a label before some code takes no numbers. -/
theorem ofLabel (h : Accounted first.afterLabel code pending second) :
    Accounted first code pending second :=
  { h with drawn := Supply.Drawn.refl.label.trans h.drawn }

/-- A number is used for one thing only, and once, as long as the numbers do not run out. -/
theorem count_le_one (h : Accounted first code [] second) (hfit : second.temporaries ≤ 2 ^ 32)
    (id : Temporary) :
    code.operands.count (.temporary id) = code.destinations.count (.temporary id) ∧
      code.operands.count (.temporary id) + code.operands.count (.string id) ≤ 1 := by
  have hread := h.read id
  have htaken := h.taken id
  have hmost := List.nodup_iff_count_le_one.mp (@Supply.nodup_taken first second hfit) id
  rw [List.append_nil] at hread htaken
  omega

end Accounted

section Lowering

variable {env : Environment} {before after : Supply} {code : Code}

/-- The numbers taken for an expression are accounted for, where its place is still to be read. -/
theorem accounted_of_lowerExpr {expr : Expr} {place : Storage}
    (h : (lowerExpr env expr).Yields before (code, place) after) :
    Accounted before code [place] after := by
  refine lowerExpr_induction
    (P := fun _ before code place after => Accounted before code [place] after)
    (Q := fun _ _ _ before code after => Accounted before code [] after)
    ?constant ?string ?scalar ?element ?call ?input ?binary ?surplus ?argument h
  case constant => exact fun value supply => .unnumbered supply (by simp) (by simp)
  case string => exact fun text supply => .string supply text
  case scalar =>
    exact fun name supply => .unnumbered supply (env.placeOf_ne_temporary name)
      (env.placeOf_ne_string name)
  case element => exact fun _ _ _ _ _ _ _ hindex => hindex.pushFresh rfl
  case call => exact fun _ _ _ _ _ _ _ _ hargs => hargs.pushFresh rfl
  case input =>
    exact fun type supply => @Accounted.pushFresh _ _ [] (.input type _) (.nil supply) rfl
  case binary =>
    exact fun _ _ _ _ _ _ _ _ _ _ _ _ hleft hright => (hleft.append hright).pushFresh rfl
  case surplus => exact fun _ _ _ supply _ => .nil supply
  case argument =>
    intro function arg args param params before argCode source middle rest after _ _ harg hrest
    exact (harg.push (by simp [Operation.destination?])).append hrest

/-- The numbers taken for a statement are accounted for. -/
theorem accounted_of_lowerStmt {stmt : Stmt} (h : (lowerStmt env stmt).Yields before code after) :
    Accounted before code [] after := by
  refine lowerStmt_induction (P := fun _ before code after => Accounted before code [] after)
    (Q := fun _ before code after => Accounted before code [] after)
    ?assign ?assignElement ?print ?ret ?ifThen ?ifElse ?loop ?block ?empty ?nil ?cons h
  case assign =>
    intro target value before code source after hvalue
    refine (accounted_of_lowerExpr hvalue).push fun id => ?_
    simp [Operation.destination?, env.placeOf_ne_temporary, env.placeOf_ne_string]
  case assignElement =>
    intro array index value before valueCode source middle indexCode place after hvalue hindex
    exact ((accounted_of_lowerExpr hvalue).append (accounted_of_lowerExpr hindex)).push
      (by simp [Operation.destination?])
  case print =>
    exact fun _ _ _ _ _ hvalue => (accounted_of_lowerExpr hvalue).push
      (by simp [Operation.destination?])
  case ret =>
    exact fun _ _ _ _ _ hvalue => (accounted_of_lowerExpr hvalue).push
      (by simp [Operation.destination?])
  case ifThen =>
    intro condition positive before test place middle branch after htest hbranch
    exact (((accounted_of_lowerExpr htest).push (by simp [Operation.destination?])).append
      hbranch.ofLabel).append (.landing after _)
  case ifElse =>
    intro condition positive negative before test place middle branch last alternative after htest
      hbranch halternative
    exact ((((accounted_of_lowerExpr htest).push (by simp [Operation.destination?])).append
      (hbranch.ofLabel.ofLabel.push (by simp [Operation.destination?]))).append
      (halternative.marked _)).append (.landing after _)
  case loop =>
    intro condition body before test place middle round after htest hround
    exact ((((accounted_of_lowerExpr htest).ofLabel.ofLabel.marked _).push
      (by simp [Operation.destination?])).append
      (hround.push (by simp [Operation.destination?]))).append (.landing after _)
  case block => exact fun _ _ _ _ h => h
  case empty => exact .nil
  case nil => exact .nil
  case cons => exact fun _ _ _ _ _ _ _ hfirst hrest => hfirst.append hrest

/-- The numbers taken for a body are accounted for. -/
theorem accounted_of_lowerImplementation {scope : Scope} {implementation : Implementation}
    (h : (lowerImplementation scope implementation).Yields before code after) :
    Accounted before code [] after := by
  obtain ⟨inner, hinner, rfl⟩ := yields_implementation_iff.mp h
  have hentry := @Accounted.push before before [] (.enter implementation.name) (.nil before)
    (by simp [Operation.destination?])
  exact (hentry.append (accounted_of_lowerStmt hinner)).push (by simp [Operation.destination?])

/-- The numbers taken for bodies are accounted for. -/
theorem accounted_of_lowerImplementations {scope : Scope} {implementations : List Implementation}
    (h : (lowerImplementations scope implementations).Yields before code after) :
    Accounted before code [] after := by
  induction implementations generalizing before code with
  | nil =>
    obtain ⟨rfl, rfl⟩ := yields_implementations_nil_iff.mp h
    exact .nil after
  | cons implementation rest ih =>
    obtain ⟨first, middle, others, hfirst, hothers, rfl⟩ := yields_implementations_cons_iff.mp h
    exact (accounted_of_lowerImplementation hfirst).append (ih hothers)

/-- The operands of the bodies' code stand for what the instructions of the bodies take. -/
theorem standFor_of_lowerImplementations {scope : Scope} {implementations : List Implementation}
    {pool : StringPool} (h : (lowerImplementations scope implementations).Yields before code after)
    (hfit : after.temporaries ≤ 2 ^ 32) (hpool : Supply.Registered pool before after) :
    List.Forall₂
      (fun implementation segment =>
        StandFor (.inside scope implementation.name) pool (Code.operands segment)
          (implementation.body.consumed (.inside scope implementation.name)))
      implementations code.segments := by
  induction implementations generalizing before code with
  | nil =>
    obtain ⟨rfl, rfl⟩ := yields_implementations_nil_iff.mp h
    exact .nil
  | cons implementation rest ih =>
    obtain ⟨first, middle, others, hfirst, hothers, rfl⟩ := yields_implementations_cons_iff.mp h
    obtain ⟨inner, hinner, hcode⟩ := yields_implementation_iff.mp hfirst
    obtain rfl : first = Code.framed implementation.name inner := hcode
    have hlowered : (Code.framed implementation.name inner).IsLoweredFrom scope implementation :=
      ⟨before, inner, middle, hinner, rfl⟩
    have hdrawn := (accounted_of_lowerStmt hinner).drawn
    have hdrawn' := (accounted_of_lowerImplementations hothers).drawn
    have hgrow := hdrawn'.temporaries_le
    rw [hlowered.segments_append]
    refine .cons ?_ (ih hothers (hdrawn.registered_right hpool))
    have hbody := standFor_of_lowerStmt hinner (hgrow.trans hfit)
      (hdrawn'.registered_left hfit hpool)
    simpa [Code.framed, Operation.operands] using hbody

end Lowering

/-- The body of a function reads temporaries when they are ready. -/
theorem Code.IsLoweredFrom.readsReady {segment : Code} {scope : Scope}
    {implementation : Implementation} (h : segment.IsLoweredFrom scope implementation) :
    segment.Each Code.ReadsReady := by
  obtain ⟨before, inner, after, hinner, rfl⟩ := h
  have hentry : (Code.ofOperation (.enter implementation.name)).Each Code.ReadsReady :=
    @Code.Each.push_delivered [] .nil (.enter implementation.name) (by simp [Operation.operands])
  exact (hentry.append Code.ReadsReady.isLocal (readsReady_of_lowerStmt hinner)).push_delivered
    (by simp [Operation.operands])

/-- What is counted once in the parts of a list is in one part only. -/
theorem exists_getElem?_of_count_flatMap [DecidableEq β] {part : α → List β} {element : β}
    {list : List α} (h : (list.flatMap part).count element = 1) :
    ∃ (position : Nat) (head : α), list[position]? = some head ∧ (part head).count element = 1 ∧
      ∀ (other : Nat) (tail : α), list[other]? = some tail → other ≠ position →
        (part tail).count element = 0 := by
  induction list with
  | nil => simp at h
  | cons head rest ih =>
    rw [List.flatMap_cons, List.count_append] at h
    rcases Nat.eq_zero_or_pos ((part head).count element) with hzero | hpos
    · obtain ⟨position, found, hfound, hone, hothers⟩ := ih (by omega)
      refine ⟨position + 1, found, hfound, hone, fun other tail htail hne => ?_⟩
      cases other with
      | zero =>
        obtain rfl : head = tail := by simpa using htail
        exact hzero
      | succ other => exact hothers other tail (by simpa using htail) (by omega)
    · refine ⟨0, head, rfl, by omega, fun other tail htail hne => ?_⟩
      obtain ⟨index, rfl⟩ := Nat.exists_eq_succ_of_ne_zero hne
      have hmem : tail ∈ rest := List.mem_of_getElem? (by simpa using htail)
      have hnone : element ∉ rest.flatMap part := List.count_eq_zero.mp (by omega)
      exact List.count_eq_zero.mpr fun hin => hnone (List.mem_flatMap.mpr ⟨tail, hmem, hin⟩)

/-- A temporary is written at one position only and read at one position only, by one operand, both
in the segment with a number, and it is brought from the one to the other. -/
structure Code.UsedOnce (code : Code) (id : Temporary) (number write read : Nat) : Prop where
  brings : code.Brings write read id
  write_inSegment : code.InSegment number write
  read_inSegment : code.InSegment number read
  written_iff : ∀ position instruction, code[position]? = some instruction →
    (instruction.operation.destination? = some (.temporary id) ↔ position = write)
  count_operands : ∀ position instruction, code[position]? = some instruction →
    instruction.operation.operands.count (.temporary id) = if position = read then 1 else 0

section Programs

variable {program : Program} {unit : CodeUnit}

/-- The numbers taken for a program are accounted for. -/
theorem Program.accounted_of_lower (h : program.lower = .ok unit) :
    Accounted .full unit.code [] program.supply ∧ unit.strings = program.supply.strings := by
  obtain ⟨code, after, hyields, rfl⟩ := Program.lower_eq_ok_iff.mp h
  rw [Program.supply_eq hyields]
  exact ⟨accounted_of_lowerImplementations hyields, rfl⟩

/-- A temporary that is read somewhere is brought there from the same segment. -/
theorem Program.exists_brings (hlower : program.lower = .ok unit) {id : Temporary} {position : Nat}
    {reader : Instruction} (hreader : unit.code[position]? = some reader)
    (hreads : .temporary id ∈ reader.operation.operands) :
    ∃ number write, unit.code.InSegment number write ∧ unit.code.InSegment number position ∧
      unit.code.Brings write position id := by
  obtain ⟨number, first, last, hspans, hle, hle'⟩ :=
    Code.exists_inSegment (List.getElem?_eq_some_iff.mp hreader).1
  have hnumbered := hspans
  obtain ⟨segment, hsegment, rfl, hlast⟩ := hnumbered
  obtain ⟨implementation, -, hlowered⟩ :=
    exists_getElem?_of_forall₂ (List.Forall₂.flip (Program.segments_of_lower hlower)) hsegment
  have hlocated := Code.located_segment hsegment
  obtain ⟨offset, rfl⟩ := Nat.exists_eq_add_of_le hle
  have hoffset := List.getElem?_eq_getElem (by omega : offset < segment.length)
  obtain ⟨found, hfound, hsame, -⟩ := hlocated offset _ hoffset
  obtain rfl := Option.some.inj (hfound.symm.trans hreader)
  obtain ⟨write, hbrings⟩ :=
    Code.IsLoweredFrom.readsReady hlowered offset _ hoffset id (hsame ▸ hreads)
  have hlt := hbrings.lt
  exact ⟨number, _, ⟨_, last, hspans, Nat.le_add_right _ _, by omega⟩, ⟨_, last, hspans, hle, hle'⟩,
    hbrings.of_located hlocated⟩

/-- A temporary that occurs in the code of a program is used once. -/
theorem Program.exists_usedOnce (hlower : program.lower = .ok unit)
    (hfit : program.supply.temporaries ≤ 2 ^ 32) {id : Temporary}
    (hmem : .temporary id ∈ unit.code.destinations ++ unit.code.operands) :
    ∃ number write read, unit.code.UsedOnce id number write read := by
  obtain ⟨hsame, hmost⟩ := (Program.accounted_of_lower hlower).1.count_le_one hfit id
  have hleast : 0 < unit.code.operands.count (.temporary id) := by
    rcases List.mem_append.mp hmem with hwritten | hoperand
    · exact hsame ▸ List.count_pos_iff.mpr hwritten
    · exact List.count_pos_iff.mpr hoperand
  obtain ⟨write, writer, hwriter, hwrites, hothers⟩ :=
    exists_getElem?_of_count_flatMap (by omega : unit.code.destinations.count (.temporary id) = 1)
  obtain ⟨read, reader, hreader, hreads, hrest⟩ :=
    exists_getElem?_of_count_flatMap (by omega : unit.code.operands.count (.temporary id) = 1)
  have hwritten : ∀ position instruction, unit.code[position]? = some instruction →
      (instruction.operation.destination? = some (.temporary id) ↔ position = write) := by
    intro position instruction hinstruction
    constructor
    · intro hid
      by_contra hne
      have hnone := hothers position instruction hinstruction hne
      simp [hid] at hnone
    · rintro rfl
      obtain rfl := Option.some.inj (hwriter.symm.trans hinstruction)
      exact Option.mem_toList.mp
        (List.count_pos_iff.mp (Nat.lt_of_lt_of_eq Nat.one_pos hwrites.symm))
  obtain ⟨number, write', hwrite, hread, hbrings⟩ :=
    Program.exists_brings hlower hreader
      (List.count_pos_iff.mp (Nat.lt_of_lt_of_eq Nat.one_pos hreads.symm))
  obtain ⟨instruction, hinstruction, hid⟩ := hbrings.written
  obtain rfl := (hwritten _ _ hinstruction).mp hid
  refine ⟨number, write', read, hbrings, hwrite, hread, hwritten, fun position other hother => ?_⟩
  split
  · next heq =>
    subst heq
    obtain rfl := Option.some.inj (hreader.symm.trans hother)
    exact hreads
  · next hne => exact hrest position other hother hne

/-- No path from the entry of a function gets to the read of a temporary around its write. -/
theorem Code.UsedOnce.not_avoided {code : Code} {id : Temporary} {number write read start : Nat}
    (h : code.UsedOnce id number write read) {target : Nat → Nat} (hlinks : code.Links target)
    {entry : Instruction} {function : String} (hentry : code[start]? = some entry)
    (henter : entry.operation = .enter function) :
    ¬ ReflTransGen (fun here next => here ≠ write ∧ code.Flows target here next) start read := by
  refine h.brings.not_avoided hlinks ?_
  by_contra hinside
  obtain ⟨other, hother, -, hstraight⟩ := h.brings.straight start (by omega) (by omega)
  obtain rfl := Option.some.inj (hother.symm.trans hentry)
  rcases Nat.lt_or_ge start read with hlt | hge
  · simp [henter, Operation.isStraight] at hstraight
    omega
  · obtain rfl : start = read := by omega
    have hcount := h.count_operands start other hentry
    simp [henter, Operation.operands] at hcount

end Programs

/-- In the code of a program, as long as the numbers do not run out, every temporary that occurs is
written once and read once, later in the same function, and no path gets to the read around the
write. The string constants that occur are the registered ones, each of them once and as an operand.
The operands of each function stand, one for one and in order, for the expressions whose values its
instructions take, so a string constant has the text of the very literal that it came from. No number
names both a temporary and a string constant. -/
theorem lower_numbers_used_once {program : Program} {unit : CodeUnit}
    (hlower : program.lower = .ok unit) (hfit : program.supply.temporaries ≤ 2 ^ 32) :
    (∀ id, .temporary id ∈ unit.code.destinations ++ unit.code.operands →
      ∃ number write read, unit.code.UsedOnce id number write read ∧
        ∀ target, unit.code.Links target → ∀ start entry function,
          unit.code[start]? = some entry → entry.operation = .enter function →
            ¬ ReflTransGen (fun here next => here ≠ write ∧ unit.code.Flows target here next)
              start read) ∧
      (∀ id, .string id ∉ unit.code.destinations ∧
        unit.code.operands.count (.string id) =
          if (unit.strings.find? id).isSome then 1 else 0) ∧
      List.Forall₂
        (fun implementation segment =>
          StandFor (.inside program.scope implementation.name) unit.strings (Code.operands segment)
            (implementation.body.consumed (.inside program.scope implementation.name)))
        program.implementations unit.code.segments ∧
      ∀ id, .temporary id ∈ unit.code.destinations ++ unit.code.operands →
        .string id ∉ unit.code.operands := by
  obtain ⟨haccounted, hstrings⟩ := Program.accounted_of_lower hlower
  refine ⟨?temporaries, fun id => ⟨haccounted.words id, ?strings⟩, ?operands, ?apart⟩
  case temporaries =>
    intro id hmem
    obtain ⟨number, write, read, hused⟩ := Program.exists_usedOnce hlower hfit hmem
    exact ⟨number, write, read, hused, fun _ hlinks _ _ _ => hused.not_avoided hlinks⟩
  case strings =>
    obtain ⟨-, hmost⟩ := haccounted.count_le_one hfit id
    have hregistered := haccounted.registered id
    have hempty : Supply.full.strings.find? id = none := rfl
    rw [hempty, ← hstrings, List.append_nil] at hregistered
    by_cases hmem : .string id ∈ unit.code.operands
    · have := List.count_pos_iff.mpr hmem
      rw [if_pos (hregistered.mpr (.inr hmem))]
      omega
    · rw [if_neg (by simpa [hmem] using hregistered), List.count_eq_zero.mpr hmem]
  case operands =>
    obtain ⟨code, after, hyields, rfl⟩ := Program.lower_eq_ok_iff.mp hlower
    rw [Program.supply_eq hyields] at hfit
    exact standFor_of_lowerImplementations hyields hfit fun _ _ _ => rfl
  case apart =>
    intro id hmem hstring
    obtain ⟨hsame, hmost⟩ := haccounted.count_le_one hfit id
    have hused := List.count_pos_iff.mpr hstring
    rcases List.mem_append.mp hmem with hwritten | hoperand
    · have := List.count_pos_iff.mpr hwritten
      omega
    · have := List.count_pos_iff.mpr hoperand
      omega

/-- A program whose loop tests the result of a call, and calls it with one argument too many. -/
def repeating : Program where
  decls := [.scalar .int "n" (.int 0), .function .int "f" [⟨.int, "a"⟩], .function .int "main" []]
  implementations :=
    [⟨"f", .ret (.binary .add (.scalar "a") (.literal (.int 1)))⟩,
     ⟨"main", .loop
      (.binary .lt (.call "f" [.scalar "n", .literal (.string "surplus")]) (.input .int))
      (.block [.print (.literal (.string "go")), .print (.literal (.string "on")),
        .assign "n" (.call "f" [.scalar "n"])])⟩]

/-- The code of the program with a loop. -/
def repeatingUnit : CodeUnit where
  decls := repeating.decls
  strings := (StringPool.empty.insert (.numbered 4) "go").insert (.numbered 5) "on"
  code :=
    [⟨none, .enter "f"⟩,
     ⟨none, .binary .add (.temporary (.numbered 0)) (.parameter "f" "a") (.constant (.int 1))⟩,
     ⟨none, .ret (.temporary (.numbered 0))⟩,
     ⟨none, .leave⟩,
     ⟨none, .enter "main"⟩,
     ⟨some (.numbered 0), .copy (.parameter "f" "a") (.variable "n")⟩,
     ⟨none, .call "f" (.temporary (.numbered 1))⟩,
     ⟨none, .input .int (.temporary (.numbered 2))⟩,
     ⟨none, .binary .lt (.temporary (.numbered 3)) (.temporary (.numbered 1))
      (.temporary (.numbered 2))⟩,
     ⟨none, .jumpIfFalse (.temporary (.numbered 3)) (.numbered 1)⟩,
     ⟨none, .print (.string (.numbered 4))⟩,
     ⟨none, .print (.string (.numbered 5))⟩,
     ⟨none, .copy (.parameter "f" "a") (.variable "n")⟩,
     ⟨none, .call "f" (.temporary (.numbered 6))⟩,
     ⟨none, .copy (.variable "n") (.temporary (.numbered 6))⟩,
     ⟨none, .jump (.numbered 0)⟩,
     ⟨some (.numbered 1), .nop⟩,
     ⟨none, .leave⟩]

/-- In the program with a loop, the result of the call in the test is used once, its first string
constant is used once, and its operands stand, in order, for what the instructions of its bodies
take. -/
theorem repeating_numbers_used_once :
    repeating.lower = .ok repeatingUnit ∧
      (∃ number write read, repeatingUnit.code.UsedOnce (.numbered 1) number write read) ∧
      repeatingUnit.code.operands.count (.string (.numbered 4)) = 1 ∧
      .string (.numbered 1) ∉ repeatingUnit.code.operands ∧
      List.Forall₂
        (fun implementation segment =>
          StandFor (.inside repeating.scope implementation.name) repeatingUnit.strings
            (Code.operands segment)
            (implementation.body.consumed (.inside repeating.scope implementation.name)))
        repeating.implementations repeatingUnit.code.segments := by
  have hlower : repeating.lower = .ok repeatingUnit := rfl
  have hoccurs : .temporary (.numbered 1) ∈
      repeatingUnit.code.destinations ++ repeatingUnit.code.operands := by decide
  obtain ⟨htemporaries, hstrings, hoperands, hapart⟩ :=
    lower_numbers_used_once hlower (by decide)
  obtain ⟨number, write, read, hused, -⟩ := htemporaries _ hoccurs
  exact ⟨hlower, ⟨number, write, read, hused⟩, (hstrings _).2, hapart _ hoccurs, hoperands⟩

end ThreeAddress
