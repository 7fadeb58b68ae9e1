import ThreeAddress.Proofs.Assembly.Closed
import ThreeAddress.Proofs.Calls.Reach
import ThreeAddress.Proofs.Lowering.Pairs

/-!
# When operands keep their values

While the second of two operands is computed, the first waits in its place. A value that had to be
computed waits in a temporary of its own. A name waits in the storage of the name, which is not
copied, so a function that is called from the second operand may write it. If no function calls
itself, directly or through others, that happens to nothing but global variables, and exactly to
those that some such function assigns to. All other operands still have, when the operation is
executed, the value that they had when their own code ended.
-/

namespace ThreeAddress

open LowerM Relation

/-- Evaluating an expression can call a function that assigns to a global variable. -/
def Program.CanAssign (program : Program) (expr : Expr) (name : String) : Prop :=
  ∃ implementation ∈ program.implementations, program.Reaches expr implementation.name ∧
    (Environment.inside program.scope implementation.name).hides name = false ∧
    ∃ value, .assign name value ∈ implementation.body.parts

/-- An operand is the name of a global variable, and evaluating a later one can assign to it. -/
def Program.Disturbs (program : Program) (env : Environment) (first second : Expr) : Prop :=
  ∃ name, first = .scalar name ∧ env.hides name = false ∧ program.CanAssign second name

/-- In every run, whenever an instruction is executed, a place has the value that it had at a
position before: earlier, in the same activation, which has not been left since, and has been
between the two positions all the time. -/
def Keeps (unit : CodeUnit) (split position : Nat) (place : Storage) : Prop :=
  ∀ ⦃Value Input : Type⦄ (meaning : Interpretation Value Input)
    (start : Machine.Config Value Input), start.Fresh unit → ∀ time frames state,
      Machine.Visits meaning unit start time ⟨position, frames, state⟩ →
        ∃ earlier ≤ time, ∃ previous,
          Machine.Visits meaning unit start earlier ⟨split, frames, previous⟩ ∧
          state.value meaning unit.strings place = previous.value meaning unit.strings place ∧
          ∀ between config, earlier ≤ between → between < time →
            Machine.Visits meaning unit start between config → frames <:+ config.frames ∧
              (config.frames = frames → split ≤ config.position ∧ config.position < position)

/-- A body goes on behind every instruction that does not end it. -/
theorem Code.InBody.extend {code : Code} {function : String} {position last : Nat}
    (h : code.InBody function position) (hle : position ≤ last)
    (hinner : ∀ index whole, position ≤ index → index < last → code[index]? = some whole →
      whole.operation ≠ .leave) : code.InBody function last := by
  obtain ⟨entry, hentry, hfirst, hbefore⟩ := h
  refine ⟨entry, hentry, Nat.le_trans hfirst hle, fun index whole hle' hlt hwhole => ?_⟩
  rcases Nat.lt_or_ge index position with hfront | hback
  · exact hbefore index whole hle' hfront hwhole
  · exact hinner index whole hback hlt hwhole

/-- What an expression of a body reaches is called by its function, directly or through others. -/
theorem Program.Reaches.transGen {program : Program} {implementation : Implementation}
    (hmem : implementation ∈ program.implementations) {expr : Expr} {caller : String}
    (hsub : expr.calls ⊆ implementation.body.calls) (h : program.Reaches expr caller) :
    TransGen program.Calls implementation.name caller := by
  obtain ⟨first, args, hcalls, hreach⟩ := h
  exact .head' ⟨implementation, hmem, rfl, args, hsub hcalls⟩ hreach

section Bodies

variable {program : Program} {unit : CodeUnit} {position : Nat} {whole : Instruction}

namespace Program.Laid

/-- A position belongs to the body of one function only. -/
theorem inBody_unique (h : program.Laid unit) {function other : String}
    (hbody : unit.code.InBody function position) (hbody' : unit.code.InBody other position) :
    function = other := by
  -- the entry of the body that begins later lies in the other one
  have hinside : ∀ {function other : String} {entry entry' : Nat},
      unit.code.InBody function position → unit.code.entry? function = some entry →
      unit.code.InBody other position → unit.code.entry? other = some entry' → entry ≤ entry' →
        function = other := by
    intro function other entry entry' hbody hentry hbody' hentry' hle
    obtain ⟨implementation, -, rfl, start, inner, hat, hstart, hend⟩ := h.exists_of_inBody hbody
    obtain rfl := Option.some.inj (hentry.symm.trans hat.entry?_eq)
    obtain ⟨found, hfound, hle', -⟩ := hbody'
    obtain rfl := Option.some.inj (hentry'.symm.trans hfound)
    obtain ⟨whole, hwhole, hoperation⟩ := Code.enter_of_entry? hentry'
    exact hat.name_eq_of_enter hle (by omega) hwhole hoperation
  obtain ⟨entry, hentry, -⟩ := id hbody
  obtain ⟨entry', hentry', -⟩ := id hbody'
  rcases Nat.le_total entry entry' with hle | hle
  · exact hinside hbody hentry hbody' hentry' hle
  · exact (hinside hbody' hentry' hbody hentry hle).symm

/-- What is written can be written: a constant and a text are not. -/
theorem isWord_of_writes (h : program.Laid unit) (hwhole : unit.code[position]? = some whole)
    {place : Storage} (hwrites : whole.operation.destination? = some place) :
    place.isWord = true := by
  have hborder : whole.operation.isBorder = false := by
    cases hoperation : whole.operation <;> simp_all [Operation.destination?, Operation.isBorder]
  obtain ⟨implementation, -, entry, inner, hat, hle, hle'⟩ :=
    h.covers position (List.getElem?_eq_some_iff.mp hwhole).1
  exact (hat.joins_of_not_isBorder hle hle' hwhole hborder).isWord_destination hwrites

/-- A body that writes a global variable assigns to it. -/
theorem exists_assign_of_writes (h : program.Laid unit) {caller name : String}
    (hbody : unit.code.InBody caller position) (hwhole : unit.code[position]? = some whole)
    (hwrites : whole.operation.destination? = some (.variable name)) :
    ∃ implementation ∈ program.implementations, implementation.name = caller ∧
      (Environment.inside program.scope caller).hides name = false ∧
      ∃ value, .assign name value ∈ implementation.body.parts := by
  obtain ⟨implementation, hmem, rfl, entry, inner, hat, hle, hle'⟩ := h.exists_of_inBody hbody
  refine ⟨implementation, hmem, rfl, ?_⟩
  obtain ⟨before, after, hlowered⟩ := hat.lowered
  rcases hat.operation_cases hle hle' hwhole with ⟨-, henter⟩ |
    ⟨index, instruction, -, hinstruction, hsame, -⟩ | ⟨-, hleave⟩
  · rw [henter] at hwrites
    contradiction
  · refine (variable_mem_destinations_iff hlowered name).mp (List.mem_flatMap.mpr
      ⟨instruction, List.mem_of_getElem? hinstruction, ?_⟩)
    rw [← hsame, hwrites]
    exact List.mem_singleton_self _
  · rw [hleave] at hwrites
    contradiction

/-- A body that assigns to a global variable writes it. -/
theorem exists_write_of_assign (h : program.Laid unit) {implementation : Implementation}
    (hmem : implementation ∈ program.implementations) {name : String}
    (hhides : (Environment.inside program.scope implementation.name).hides name = false)
    (hassign : ∃ value, .assign name value ∈ implementation.body.parts) :
    ∃ position whole, unit.code.InBody implementation.name position ∧
      unit.code[position]? = some whole ∧
      whole.operation.destination? = some (.variable name) := by
  obtain ⟨entry, inner, hat⟩ := h.bodies implementation hmem
  obtain ⟨before, after, hlowered⟩ := hat.lowered
  obtain ⟨instruction, hinstruction, hwrites⟩ :=
    List.mem_flatMap.mp ((variable_mem_destinations_iff hlowered name).mpr ⟨hhides, hassign⟩)
  obtain ⟨index, hindex⟩ := List.getElem?_of_mem hinstruction
  have hlt := (List.getElem?_eq_some_iff.mp hindex).1
  have hinner : unit.code.Located (entry + 1) inner := hat.located.left.right
  obtain ⟨whole, hwhole, hsame, -⟩ := hinner index instruction hindex
  exact ⟨_, whole, hat.inBody_iff.mpr ⟨by omega, by omega⟩, hwhole,
    hsame ▸ Option.mem_toList.mp hwrites⟩

/-- An operation on two values belongs to a body, and its operands are computed one after the other
from what that body evaluates. -/
theorem exists_operandsComputed (h : program.Laid unit)
    (hwhole : unit.code[position]? = some whole) {first second : Storage}
    (hoperands : whole.operation.operands = [first, second]) :
    ∃ implementation ∈ program.implementations, ∃ firstExpr secondExpr split rest,
      unit.code.InBody implementation.name position ∧
      whole.operation.TakesFrom
        (implementation.body.exprs.flatMap
          (Expr.evaluated (.inside program.scope implementation.name)))
        implementation.body.parts firstExpr secondExpr ∧
      OperandsComputed (.inside program.scope implementation.name) unit.code whole.operation
        firstExpr secondExpr split rest position := by
  obtain ⟨implementation, hmem, entry, inner, hat, hle, hle'⟩ :=
    h.covers position (List.getElem?_eq_some_iff.mp hwhole).1
  obtain ⟨before, after, hlowered⟩ := hat.lowered
  rcases hat.operation_cases hle hle' hwhole with ⟨-, henter⟩ |
    ⟨index, instruction, rfl, hinstruction, hsame, -⟩ | ⟨-, hleave⟩
  · rw [henter] at hoperands
    contradiction
  · have hinner : unit.code.Located (entry + 1) inner := hat.located.left.right
    have hpair := Code.PairComputed.isLocal _ _ _ hinner
      (pairComputed_of_lowerStmt hlowered (List.Subset.refl _) (List.Subset.refl _) index
        instruction hinstruction)
    rw [← hsame] at hpair
    obtain ⟨firstExpr, secondExpr, split, rest, htakes, hcomputed⟩ := hpair first second hoperands
    exact ⟨implementation, hmem, firstExpr, secondExpr, split, rest,
      hat.inBody_iff.mpr ⟨hle, hle'⟩, htakes, hcomputed⟩
  · rw [hleave] at hoperands
    contradiction

end Program.Laid

end Bodies

namespace OperandsComputed

variable {program : Program} {unit : CodeUnit} {implementation : Implementation}
  {operation : Operation} {firstExpr secondExpr : Expr} {split position : Nat} {rest : Code}
  {first second : Storage} {env : Environment} {code : Code}

/-- The code of the second operand stands behind the split. -/
theorem located (h : OperandsComputed env code operation firstExpr secondExpr split rest position) :
    code.Located split rest := by
  obtain ⟨base, before, firstCode, first, middle, second, after, -, -, -, hlocated, rfl⟩ :=
    h.computed
  exact hlocated.left.right

/-- The code of the second operand was lowered from it. -/
theorem exists_yields
    (h : OperandsComputed env code operation firstExpr secondExpr split rest position) :
    ∃ before place after, (lowerExpr env secondExpr).Yields before (rest, place) after := by
  obtain ⟨base, before, firstCode, first, middle, second, after, -, hsecond, -⟩ := h.computed
  exact ⟨middle, second, after, hsecond⟩

/-- The first operand is the place of the expression that it was lowered from. -/
theorem exists_yields_first
    (h : OperandsComputed env code operation firstExpr secondExpr split rest position)
    (hoperands : operation.operands = [first, second]) :
    ∃ before firstCode after, (lowerExpr env firstExpr).Yields before (firstCode, first) after := by
  obtain ⟨base, before, firstCode, first', middle, second', after, hyields, -, hsame, -⟩ :=
    h.computed
  rw [hsame, List.cons.injEq] at hoperands
  exact ⟨before, firstCode, middle, hoperands.1 ▸ hyields⟩

/-- A call in the code of the second operand is a call inside it. -/
theorem exists_call_of_has
    (h : OperandsComputed env code operation firstExpr secondExpr split rest position)
    {callee : String} {destination : Storage} (hcall : rest.Has (.call callee destination)) :
    ∃ args, (callee, args) ∈ secondExpr.calls := by
  obtain ⟨before, place, after, hyields⟩ := h.exists_yields
  obtain ⟨instruction, hmem, hoperation⟩ := hcall
  obtain ⟨index, hindex⟩ := List.getElem?_of_mem hmem
  have hemits := emits_of_lowerExpr hyields index instruction hindex
  rw [hoperation] at hemits
  obtain ⟨-, args, -, hcalls, -⟩ := Joins.exists_site (.inr hemits)
  exact ⟨args, hcalls⟩

/-- No jump and no call leads behind the split. -/
theorem plain (h : OperandsComputed env code operation firstExpr secondExpr split rest position)
    {index : Nat} (hlt : index < rest.length) :
    ∃ here, code[split + index + 1]? = some here ∧ here.label? = none ∧
      ∀ callee, here.operation ≠ .enter callee := by
  obtain ⟨base, before, firstCode, first, middle, second, after, -, hsecond, hoperands, hlocated,
    rfl⟩ := h.computed
  have hline := straightLine_of_yields hsecond
  have hplain : ∀ instruction ∈ rest.push operation, instruction.label? = none ∧
      ∀ callee, instruction.operation ≠ .enter callee := by
    intro instruction hmem
    rcases List.mem_append.mp hmem with hmem | hmem
    · refine ⟨hline.unlabelled instruction hmem, fun callee henter => ?_⟩
      have hstraight := hline.straight instruction hmem
      rw [henter] at hstraight
      contradiction
    · obtain rfl := List.mem_singleton.mp hmem
      refine ⟨rfl, fun callee henter => ?_⟩
      have henter' : operation = .enter callee := henter
      rw [henter'] at hoperands
      contradiction
  have hbound : index + 1 < (rest.push operation).length := by
    rw [Code.length_push]
    omega
  obtain ⟨hlabel, henter⟩ := hplain _ (List.getElem_mem hbound)
  have hget : ((firstCode ++ rest).push operation)[firstCode.length + (index + 1)]? =
      some (rest.push operation)[index + 1] := by
    rw [Code.push, List.append_assoc, List.getElem?_append_right (Nat.le_add_right _ _),
      Nat.add_sub_cancel_left]
    exact List.getElem?_eq_getElem hbound
  obtain ⟨here, hhere, hoperation, hsame⟩ := hlocated _ _ hget
  refine ⟨here, ?_, ?_, fun callee => hoperation ▸ henter callee⟩
  · rw [← hhere]
    congr 1
    omega
  · rcases hsame with hsame | ⟨hzero, -⟩
    · exact hsame.trans hlabel
    · omega

/-- A temporary that is the first operand was written right before the split. -/
theorem exists_writer
    (h : OperandsComputed env code operation firstExpr secondExpr split rest position)
    (hoperands : operation.operands = [first, second]) {id : Temporary}
    (hfirst : first = .temporary id) :
    ∃ write whole, split = write + 1 ∧ code[write]? = some whole ∧
      whole.operation.destination? = some (.temporary id) := by
  obtain ⟨base, before, firstCode, first', middle, second', after, hyields, -, hsame, hlocated,
    rfl⟩ := h.computed
  rw [hsame, List.cons.injEq] at hoperands
  obtain ⟨rfl, -⟩ := hoperands
  obtain ⟨writer, hlast, hwrites⟩ := (readsReady_of_lowerExpr hyields).2 id hfirst
  obtain ⟨front, rfl⟩ := List.getLast?_eq_some_iff.mp hlast
  obtain ⟨whole, hwhole, hoperation, -⟩ := hlocated.left.left front.length writer (by simp)
  exact ⟨base + front.length, whole, by simp [Nat.add_assoc], hwhole,
    by rw [hoperation, hwrites, hfirst]⟩

/-- Nothing behind the write of the first operand ends the body. -/
theorem ne_leave
    (h : OperandsComputed env code operation firstExpr secondExpr split rest position)
    {index : Nat} {whole : Instruction} (hle : split ≤ index) (hlt : index < position)
    (hwhole : code[index]? = some whole) : whole.operation ≠ .leave := by
  obtain ⟨before, place, after, hyields⟩ := h.exists_yields
  obtain ⟨offset, rfl⟩ := Nat.exists_eq_add_of_le hle
  have hbound : offset < rest.length := by
    rw [h.position_eq] at hlt
    omega
  obtain ⟨found, hfound, hoperation, -⟩ := h.located offset _ (List.getElem?_eq_getElem hbound)
  obtain rfl := Option.some.inj (hfound.symm.trans hwhole)
  have hstraight := (straightLine_of_yields hyields).straight _ (List.getElem_mem hbound)
  intro hleave
  rw [← hoperation, hleave] at hstraight
  contradiction

end OperandsComputed

/-- Nothing writes a place while an expression is computed: neither its own code nor the body of a
function that it can call. -/
structure Undisturbed (program : Program) (unit : CodeUnit) (expr : Expr) (rest : Code)
    (place : Storage) : Prop where
  inside : ∀ instruction ∈ rest, instruction.operation.destination? ≠ some place
  called : ∀ caller, program.Reaches expr caller → ∀ index whole, unit.code.InBody caller index →
    unit.code[index]? = some whole → whole.operation.destination? ≠ some place

section Kept

variable {program : Program} {unit : CodeUnit} {implementation : Implementation}
  {operation : Operation} {firstExpr secondExpr : Expr} {split position : Nat} {rest : Code}
  {first second : Storage} (hlaid : program.Laid unit)
  (hmem : implementation ∈ program.implementations)
  (hsub : secondExpr.calls ⊆ implementation.body.calls)
  (h : OperandsComputed (.inside program.scope implementation.name) unit.code operation firstExpr
    secondExpr split rest position)

include hlaid h

section Acyclic

variable (hacyclic : ∀ function, ¬ TransGen program.Calls function function)
  (hoperands : operation.operands = [first, second])
  (hused : ∀ id, first = .temporary id →
    ∃ number write read, unit.code.UsedOnce id number write read)

include hmem hsub hacyclic hoperands hused

/-- The code of the second operand does not write the first, if no function calls itself. -/
theorem OperandsComputed.not_written_inside {instruction : Instruction}
    (hinstruction : instruction ∈ rest) : instruction.operation.destination? ≠ some first := by
  intro hwrites
  obtain ⟨index, hindex⟩ := List.getElem?_of_mem hinstruction
  obtain ⟨whole, hwhole, hoperation, -⟩ := h.located index instruction hindex
  have hword := hlaid.isWord_of_writes hwhole (hoperation ▸ hwrites)
  obtain ⟨before, place, after, hyields⟩ := h.exists_yields
  obtain ⟨_, _, _, hyieldsFirst⟩ := h.exists_yields_first hoperands
  rcases place_cases_of_lowerExpr hyieldsFirst with ⟨value, rfl⟩ | ⟨id, rfl⟩ | ⟨name, rfl, hplace⟩ |
    ⟨id, rfl⟩
  · contradiction
  · contradiction
  · cases hhides : (Environment.inside program.scope implementation.name).hides name with
    | true =>
      obtain ⟨function, -, hparameter⟩ := Environment.placeOf_of_hides hhides
      have hname := placeOf_inside hparameter
      -- only a call of the function itself passes to its parameters
      have hemits := emits_of_lowerExpr hyields index instruction hindex
      rw [hplace, hparameter] at hwrites
      generalize instruction.operation = operation at hwrites hemits
      cases hemits with
      | value hdestination _ => simp [hdestination] at hwrites
      | pass hcalls _ _ =>
        obtain ⟨rfl, -⟩ := Storage.parameter.inj (Option.some.inj hwrites)
        exact hacyclic _ (.single ⟨implementation, hmem, hname.symm, _, hsub hcalls⟩)
      | call => simp [Operation.destination?] at hwrites
    | false =>
      rw [hplace, Environment.placeOf_of_not_hides hhides] at hwrites
      refine variable_not_mem_destinations hyields name
        (List.mem_flatMap.mpr ⟨instruction, hinstruction, ?_⟩)
      rw [hwrites]
      exact List.mem_singleton_self _
  · obtain ⟨write, writer, hsplit, hwriter, hwritten⟩ := h.exists_writer hoperands rfl
    obtain ⟨number, write', read, honce⟩ := hused id rfl
    have hfront := (honce.written_iff write writer hwriter).mp hwritten
    have hback := (honce.written_iff _ whole hwhole).mp (hoperation ▸ hwrites)
    omega

/-- The body of a function that the second operand can call does not write the first, if no function
calls itself and the second operand does not disturb the first. -/
theorem OperandsComputed.not_written_called (hbody : unit.code.InBody implementation.name position)
    (hcalm : ¬ program.Disturbs (.inside program.scope implementation.name) firstExpr secondExpr)
    {caller : String} (hreaches : program.Reaches secondExpr caller) {index : Nat}
    {whole : Instruction} (hinside : unit.code.InBody caller index)
    (hwhole : unit.code[index]? = some whole) : whole.operation.destination? ≠ some first := by
  intro hwrites
  have hcalled := hreaches.transGen hmem hsub
  have hword := hlaid.isWord_of_writes hwhole hwrites
  obtain ⟨_, _, _, hyieldsFirst⟩ := h.exists_yields_first hoperands
  rcases place_cases_of_lowerExpr hyieldsFirst with ⟨value, rfl⟩ | ⟨id, rfl⟩ | ⟨name, rfl, hplace⟩ |
    ⟨id, rfl⟩
  · contradiction
  · contradiction
  · cases hhides : (Environment.inside program.scope implementation.name).hides name with
    | true =>
      obtain ⟨function, -, hparameter⟩ := Environment.placeOf_of_hides hhides
      have hname := placeOf_inside hparameter
      rw [hplace, hparameter, hname] at hwrites
      rcases eq_or_calls_of_writes hlaid hinside hwhole hwrites with heq | hcalls
      · exact hacyclic caller (heq ▸ hcalled)
      · exact hacyclic _ (hcalled.tail hcalls)
    | false =>
      rw [hplace, Environment.placeOf_of_not_hides hhides] at hwrites
      obtain ⟨other, hother, rfl, hassign⟩ :=
        hlaid.exists_assign_of_writes hinside hwhole hwrites
      exact hcalm ⟨name, rfl, hhides, other, hother, hreaches, hassign⟩
  · -- the only write stands in the body of the operation itself
    obtain ⟨write, writer, hsplit, hwriter, hwritten⟩ := h.exists_writer hoperands rfl
    obtain ⟨number, write', read, honce⟩ := hused id rfl
    obtain rfl := (honce.written_iff write writer hwriter).mp hwritten
    obtain rfl := (honce.written_iff index whole hwhole).mp hwrites
    have hposition := h.position_eq
    have hextended := hinside.extend (by omega : index ≤ position)
      fun other found hle hlt hfound => by
        rcases Nat.lt_or_eq_of_le hle with hlt' | rfl
        · exact h.ne_leave (by omega) hlt hfound
        · obtain rfl := Option.some.inj (hwhole.symm.trans hfound)
          intro hleave
          rw [hleave] at hwrites
          contradiction
    obtain rfl := hlaid.inBody_unique hbody hextended
    exact hacyclic _ hcalled

end Acyclic

/-- What can be executed while an expression is computed does not write an undisturbed place. -/
theorem Undisturbed.not_executed (hcalm : Undisturbed program unit secondExpr rest first)
    {executed : Operation} (hexecutes : unit.code.Executes rest executed) :
    executed.destination? ≠ some first := by
  have hcalled : ∀ callee destination, rest.Has (.call callee destination) →
      ∃ args, (callee, args) ∈ secondExpr.calls := fun _ _ => h.exists_call_of_has
  rcases has_or_inBody_of_executes hlaid hcalled hexecutes with ⟨instruction, hmem, rfl⟩ |
    ⟨callee, caller, index, whole, ⟨args, hcalls⟩, hreach, hinside, hwhole, rfl⟩
  · exact hcalm.inside instruction hmem
  · exact hcalm.called caller ⟨callee, args, hcalls, hreach⟩ index whole hinside hwhole

/-- An undisturbed operand keeps its value. -/
theorem Undisturbed.keeps (hlabels : unit.code.labels.length ≤ 2 ^ 32)
    (hcalm : Undisturbed program unit secondExpr rest first) : Keeps unit split position first := by
  intro Value Input meaning start hstart time frames state hvisit
  rw [h.position_eq] at hvisit ⊢
  refine hvisit.exists_earlier hstart (fun index hlt => h.plain hlt) ?_
  intro index hlt here hhere
  obtain ⟨found, hfound, hoperation, -⟩ := h.located index _ (List.getElem?_eq_getElem hlt)
  obtain rfl := Option.some.inj (hfound.symm.trans hhere)
  refine ⟨hoperation ▸ hcalm.inside _ (List.getElem_mem hlt), ?_⟩
  intro callee destination entry hcall hentry
  obtain ⟨args, hcalls⟩ :=
    h.exists_call_of_has ⟨_, List.getElem_mem hlt, hoperation.symm.trans hcall⟩
  exact hlaid.exists_region hlabels hcalls (fun caller hreaches => hcalm.called caller hreaches)
    hentry

include hmem hsub

/-- Where the second operand disturbs the first, something that can be executed writes it. -/
theorem OperandsComputed.exists_executed
    (hsaturated : ∀ implementation ∈ program.implementations,
      Saturated (.inside program.scope implementation.name) implementation.body.calls)
    (hoperands : operation.operands = [first, second])
    (hdisturbs : program.Disturbs (.inside program.scope implementation.name) firstExpr
      secondExpr) :
    ∃ executed, unit.code.Executes rest executed ∧ executed.destination? = some first := by
  obtain ⟨name, rfl, hhides, other, hother, hreaches, hassign⟩ := hdisturbs
  obtain ⟨before, place, after, hyields⟩ := h.exists_yields
  obtain ⟨_, _, _, hyieldsFirst⟩ := h.exists_yields_first hoperands
  obtain ⟨-, rfl, -⟩ := yields_scalar_iff.mp hyieldsFirst
  have hperforms : ∀ callee args, (callee, args) ∈ secondExpr.calls →
      rest.Performs (.inside program.scope implementation.name) callee :=
    fun callee args hcalls =>
      performs_of_lowerExpr hyields ((hsaturated implementation hmem).subset hsub) hcalls
  obtain ⟨⟨destination, hcall⟩, -⟩ :=
    executesCall_of_reaches hlaid hsaturated rfl hperforms hreaches
  obtain ⟨index, whole, hinside, hwhole, hwrites⟩ :=
    hlaid.exists_write_of_assign hother hassign.1 hassign.2
  rw [Environment.placeOf_of_not_hides hhides]
  exact ⟨whole.operation, .inside hcall hinside hwhole, hwrites⟩

end Kept

/-- An operation of an accepted program takes its two values from expressions of a body, of which
the second is computed between the first and the operation. If no function calls itself, nothing
that can be executed in between writes the first, exactly if it is not the name of a global variable
to which the second can assign; and then, in every run, it keeps its value until the operation. -/
theorem operand_kept_iff_not_disturbed {program : Program} {unit : CodeUnit}
    (hcheck : program.check = [])
    (hacyclic : ∀ function, ¬ TransGen program.Calls function function)
    (hlower : program.lower = .ok unit) (hfit : program.supply.temporaries ≤ 2 ^ 32)
    {position : Nat} {whole : Instruction} (hwhole : unit.code[position]? = some whole)
    {first second : Storage} (hoperands : whole.operation.operands = [first, second]) :
    ∃ implementation ∈ program.implementations, ∃ firstExpr secondExpr split rest,
      whole.operation.TakesFrom
        (implementation.body.exprs.flatMap
          (Expr.evaluated (.inside program.scope implementation.name)))
        implementation.body.parts firstExpr secondExpr ∧
      OperandsComputed (.inside program.scope implementation.name) unit.code whole.operation
        firstExpr secondExpr split rest position ∧
      ((∀ operation, unit.code.Executes rest operation → operation.destination? ≠ some first) ↔
        ¬ program.Disturbs (.inside program.scope implementation.name) firstExpr secondExpr) ∧
      (¬ program.Disturbs (.inside program.scope implementation.name) firstExpr secondExpr →
        unit.code.labels.length ≤ 2 ^ 32 → Keeps unit split position first) := by
  have hformed := Program.WellFormed.of_check hcheck
  have hlaid := Program.laid_of_lower hlower hformed.implementations_distinct
  obtain ⟨implementation, hmem, firstExpr, secondExpr, split, rest, hbody, htakes, hcomputed⟩ :=
    hlaid.exists_operandsComputed hwhole hoperands
  have hsub := htakes.calls_subset.2
  have hused : ∀ id, first = .temporary id →
      ∃ number write read, unit.code.UsedOnce id number write read := by
    rintro id rfl
    refine Program.exists_usedOnce hlower hfit (List.mem_append_right _
      (List.mem_flatMap.mpr ⟨whole, List.mem_of_getElem? hwhole, ?_⟩))
    rw [hoperands]
    exact List.mem_cons_self
  have hcalm : ¬ program.Disturbs (.inside program.scope implementation.name) firstExpr secondExpr →
      Undisturbed program unit secondExpr rest first := fun hnot =>
    ⟨fun _ => hcomputed.not_written_inside hlaid hmem hsub hacyclic hoperands hused,
      fun _ hreaches _ _ => hcomputed.not_written_called hlaid hmem hsub hacyclic hoperands hused
        hbody hnot hreaches⟩
  refine ⟨implementation, hmem, firstExpr, secondExpr, split, rest, htakes, hcomputed, ⟨?_, ?_⟩,
    fun hnot hlabels => (hcalm hnot).keeps hlaid hcomputed hlabels⟩
  · intro hspared hdisturbs
    obtain ⟨executed, hexecutes, hwrites⟩ := hcomputed.exists_executed hlaid hmem hsub
      (fun implementation hmem => Program.saturated_of_check hcheck hmem) hoperands hdisturbs
    exact hspared executed hexecutes hwrites
  · intro hnot operation hexecutes
    exact (hcalm hnot).not_executed hlaid hcomputed hexecutes

/-- A program that reads a variable before it calls a function that changes it. -/
def counting : Program where
  decls := [.scalar .int "n" (.int 0), .function .int "next" [], .function .int "main" []]
  implementations :=
    [⟨"next", .block [.assign "n" (.binary .add (.scalar "n") (.literal (.int 1))),
      .ret (.scalar "n")]⟩,
     ⟨"main", .ret (.binary .sub (.call "next" [])
      (.binary .add (.scalar "n") (.call "next" [])))⟩]

/-- The code of the program that counts. -/
def countingUnit : CodeUnit where
  decls := counting.decls
  strings := .empty
  code :=
    [⟨none, .enter "next"⟩,
     ⟨none, .binary .add (.temporary (.numbered 0)) (.variable "n") (.constant (.int 1))⟩,
     ⟨none, .copy (.variable "n") (.temporary (.numbered 0))⟩,
     ⟨none, .ret (.variable "n")⟩,
     ⟨none, .leave⟩,
     ⟨none, .enter "main"⟩,
     ⟨none, .call "next" (.temporary (.numbered 1))⟩,
     ⟨none, .call "next" (.temporary (.numbered 2))⟩,
     ⟨none, .binary .add (.temporary (.numbered 3)) (.variable "n") (.temporary (.numbered 2))⟩,
     ⟨none, .binary .sub (.temporary (.numbered 4)) (.temporary (.numbered 1))
      (.temporary (.numbered 3))⟩,
     ⟨none, .ret (.temporary (.numbered 4))⟩,
     ⟨none, .leave⟩]

/-- The program that counts is lowered to its code. -/
theorem counting_lower : counting.lower = .ok countingUnit := rfl

/-- In the program that counts, only the main function calls another. -/
theorem counting_calls {caller callee : String} (h : counting.Calls caller callee) :
    caller = "main" ∧ callee = "next" := by
  obtain ⟨implementation, hmem, rfl, args, hargs⟩ := h
  rcases List.mem_cons.mp hmem with rfl | hmem
  · simp [Stmt.calls, Stmt.exprs, Stmt.exprsAll, Expr.callsAll, Expr.calls] at hargs
  · obtain rfl := List.mem_singleton.mp hmem
    refine ⟨rfl, ?_⟩
    simp [Stmt.calls, Stmt.exprs, Expr.callsAll, Expr.calls] at hargs
    exact hargs.1

/-- In the program that counts, no function calls itself. -/
theorem counting_acyclic (function : String) : ¬ TransGen counting.Calls function function := by
  intro hcycle
  obtain ⟨_, hfirst, -⟩ := TransGen.head'_iff.mp hcycle
  obtain ⟨_, -, hlast⟩ := TransGen.tail'_iff.mp hcycle
  rw [(counting_calls hfirst).1] at hlast
  exact absurd (counting_calls hlast).2 (by decide)

/-- The result of the first call waits in its temporary while the second is made. -/
theorem counting_keeps_result :
    counting.check = [] ∧ (∀ function, ¬ TransGen counting.Calls function function) ∧
      Keeps countingUnit 7 9 (.temporary (.numbered 1)) := by
  refine ⟨rfl, counting_acyclic, ?_⟩
  obtain ⟨_, -, firstExpr, _, split, _, -, hcomputed, -, hkeeps⟩ :=
    operand_kept_iff_not_disturbed (rfl : counting.check = []) counting_acyclic counting_lower
      (by decide) (rfl : countingUnit.code[9]? = some _) rfl
  -- the temporary is written right before the split
  obtain ⟨write, writer, rfl, hwriter, hwrites⟩ := hcomputed.exists_writer rfl rfl
  have hwritten : ∀ write < 9, (countingUnit.code[write]?.bind fun instruction =>
      instruction.operation.destination?) = some (.temporary (.numbered 1)) → write = 6 := by
    decide
  have hposition := hcomputed.position_eq
  obtain rfl := hwritten write (by omega) (by rw [hwriter]; exact hwrites)
  refine hkeeps ?_ (by decide)
  -- and a name has no temporary
  rintro ⟨name, rfl, -⟩
  obtain ⟨_, _, _, hyields⟩ := hcomputed.exists_yields_first rfl
  obtain ⟨-, hplace, -⟩ := yields_scalar_iff.mp hyields
  exact Environment.placeOf_ne_temporary _ _ _ hplace.symm

/-- The variable that is added to the result of the second call has changed in between, although the
program is accepted and no function calls itself. -/
theorem counting_loses_operand :
    counting.check = [] ∧ (∀ function, ¬ TransGen counting.Calls function function) ∧
      counting.lower = .ok countingUnit ∧
      (∃ operation rest, countingUnit.code[8]? = some ⟨none, operation⟩ ∧
        operation.operands = [.variable "n", .temporary (.numbered 2)] ∧
        OperandsComputed (.inside counting.scope "main") countingUnit.code operation (.scalar "n")
          (.call "next" []) 7 rest 8) ∧
      ¬ Keeps countingUnit 7 8 (.variable "n") := by
  refine ⟨rfl, counting_acyclic, counting_lower, ?computed, ?lost⟩
  case computed =>
    have hlocated : countingUnit.code.Located 7 ((countingUnit.code.drop 7).take 2) :=
      (Code.Located.self (countingUnit.code.take 7 ++ (countingUnit.code.drop 7).take 2 ++
        countingUnit.code.drop 9)).left.right
    exact ⟨_, Code.ofOperation (.call "next" (.temporary (.numbered 2))), rfl, rfl,
      ⟨7, ⟨2, 0, .empty⟩, [], _, ⟨2, 0, .empty⟩, _, ⟨3, 0, .empty⟩, rfl, rfl, rfl, hlocated, rfl⟩,
      rfl⟩
  case lost =>
    intro hkeeps
    obtain ⟨earlier, hle, previous, hvisit, hvalue, -⟩ :=
      hkeeps .wholeNumbers ⟨5, [], ⟨fun _ => 0, fun _ _ => 0, fun _ _ => 0, [], []⟩, fun _ => 0⟩
        ⟨rfl, _, _, rfl, rfl⟩ 11 [] _ rfl
    have hafter : (2 : Int) = previous.world.globals "n" := hvalue
    -- the main function is at the second call only once
    have honce : ∀ time ≤ 11, time ≠ 6 →
        (match Machine.run .wholeNumbers countingUnit time ⟨5, [], ⟨fun _ => 0, fun _ _ => 0,
          fun _ _ => 0, [], []⟩, fun _ => 0⟩ with
        | .running config => config.position != 7
        | _ => true) = true := by decide
    by_cases htime : earlier = 6
    · subst htime
      have hbefore : (1 : Int) = previous.world.globals "n" :=
        congrArg (fun config => config.state.world.globals "n")
          (Machine.Progress.running.inj hvisit)
      exact absurd (hafter.trans hbefore.symm) (by decide)
    · have hposition := honce earlier hle htime
      rw [show Machine.run .wholeNumbers countingUnit earlier _ = _ from hvisit] at hposition
      contradiction

end ThreeAddress
