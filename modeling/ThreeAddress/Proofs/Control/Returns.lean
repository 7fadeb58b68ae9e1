import ThreeAddress.Proofs.Control.Paths
import ThreeAddress.Proofs.Control.Segments
import ThreeAddress.Check.Returns

/-!
# Returns on every path

The checker decides from the shape of a body whether every path through it ends in a return. The
paths through the code that the body becomes tell the same: they keep away from the end of the
function exactly if the checker says so. Code behind a return is never reached, for all the labels
and loops in it, and so is the place behind a conditional that returns in both branches.
-/

namespace ThreeAddress

open LowerM Relation

namespace Code

/-- The place behind a construct is one instruction. -/
@[simp] theorem length_landing (label : Label) : (landing label).length = 1 := rfl

/-- Some code stands at the front of itself. -/
theorem Located.of_eq {code whole : Code} (h : code = whole) : code.Located 0 whole :=
  h ▸ .self code

/-- Marked code is straight if the code is. -/
theorem straight_marked {code : Code}
    (h : ∀ instruction ∈ code, instruction.operation.isStraight = true) (label : Label) :
    ∀ instruction ∈ code.marked label, instruction.operation.isStraight = true := by
  match code with
  | [] => simp [marked, Operation.isStraight]
  | ⟨none, _⟩ :: _ => simpa [marked] using h
  | ⟨some _, _⟩ :: _ => simpa [marked, Operation.isStraight] using h

section Constructs

variable {code test branch alternative : Code} {target own own' : Nat → Nat} {base : Nat}
  {operation : Operation} {place : Storage} {start otherwise behind : Label} {falls falls' : Prop}

/-- From a test control goes on to what follows, and to where its jump is linked. -/
theorem reaches_of_test (target : Nat → Nat)
    (hlocated : code.Located base (test.push (.jumpIfFalse place otherwise)))
    (hstraight : ∀ instruction ∈ test, instruction.operation.isStraight = true) :
    ReflTransGen (code.Flows target) base (base + test.length + 1) ∧
      ReflTransGen (code.Flows target) base (target (base + test.length)) := by
  obtain ⟨whole, hwhole, hoperation⟩ := hlocated.last
  have htest : ReflTransGen (code.Flows target) base (base + test.length) :=
    reaches_of_straight hlocated.left hstraight
  exact ⟨htest.tail (.next hwhole (by rw [hoperation]; rfl)),
    htest.tail (.jump hwhole (by rw [hoperation]; rfl))⟩

/-- Inside a test control goes nowhere else. -/
theorem flows_of_test (hlocated : code.Located 0 (test.push (.jumpIfFalse place otherwise)))
    (hstraight : ∀ instruction ∈ test, instruction.operation.isStraight = true)
    {position next : Nat} (hle : position ≤ test.length)
    (hflows : code.Flows target position next) :
    next ≤ test.length + 1 ∨ next = target test.length := by
  rcases Nat.lt_or_eq_of_le hle with hlt | rfl
  · have hsome := List.getElem?_eq_getElem hlt
    obtain ⟨whole, hwhole, hoperation, -⟩ := hlocated.left _ _ hsome
    rw [Nat.zero_add] at hwhole
    have hnext := hflows.eq_succ hwhole (hoperation ▸ hstraight _ (List.getElem_mem hlt))
    exact .inl (by omega)
  · cases hflows with
    | next _ _ => exact .inl (Nat.le_refl _)
    | jump _ _ => exact .inr rfl

/-- A test keeps control if both parts do that control can go to behind it. -/
theorem keeps_of_branches
    (hlocated : code.Located 0 (test.push (.jumpIfFalse place otherwise)))
    (hstraight : ∀ instruction ∈ test, instruction.operation.isStraight = true)
    (hbranch : code.Hosts target (test.length + 1) branch own)
    (halternative : code.Hosts target (target test.length) alternative own')
    {region region' : Nat → Prop} (hregion : branch.Keeps own region)
    (hregion' : alternative.Keeps own' region') :
    code.Keeps target fun position => position ≤ test.length ∨
      (∃ index, position = test.length + 1 + index ∧ region index) ∨
      ∃ index, position = target test.length + index ∧ region' index where
  front := .inl (Nat.zero_le _)
  inside := by
    rintro position (hle | ⟨index, rfl, hindex⟩ | ⟨index, rfl, hindex⟩)
    · have hlt := hbranch.lt_length (hregion.inside hregion.front)
      omega
    · exact hbranch.lt_length (hregion.inside hindex)
    · exact halternative.lt_length (hregion'.inside hindex)
  closed := by
    rintro position next (hle | ⟨index, rfl, hindex⟩ | ⟨index, rfl, hindex⟩) hflows
    · rcases flows_of_test hlocated hstraight hle hflows with hnext | rfl
      · rcases Nat.lt_or_eq_of_le hnext with hlt | rfl
        · exact .inl (Nat.le_of_lt_succ hlt)
        · exact .inr (.inl ⟨0, rfl, hregion.front⟩)
      · exact .inr (.inr ⟨0, rfl, hregion'.front⟩)
    · obtain ⟨inner, rfl, hinner⟩ := hbranch.exists_flows (hregion.inside hindex) hflows
      exact .inr (.inl ⟨inner, rfl, hregion.closed hindex hinner⟩)
    · obtain ⟨inner, rfl, hinner⟩ := halternative.exists_flows (hregion'.inside hindex) hflows
      exact .inr (.inr ⟨inner, rfl, hregion'.closed hindex hinner⟩)

/-- Control comes through the place behind a construct. -/
theorem reaches_of_landing (hlocated : code.Located base (landing behind)) :
    ReflTransGen (code.Flows target) base (base + 1) :=
  reaches_of_straight hlocated fun _ hmem => by rw [List.mem_singleton.mp hmem]; rfl

/-- The place behind a construct has no jumps to link. -/
theorem linkedAt_landing : code.LinkedAt target base (landing behind) :=
  linkedAt_of_straight fun _ hmem => by rw [List.mem_singleton.mp hmem]; rfl

/-- A conditional without an alternative falls through. -/
theorem exists_traced_ifThen
    (hcode : code = test.push (.jumpIfFalse place behind) ++ branch ++ landing behind)
    (htest : ∀ instruction ∈ test, instruction.operation.isStraight = true)
    (hbranch : branch.Links own) : ∃ target, code.Traced target True := by
  have hself := Located.of_eq hcode
  have hlanding : code.Located (test.length + 1 + branch.length) (landing behind) := by
    simpa using hself.right
  obtain ⟨marked, hmarked, -, hlabel⟩ := hlanding.labelled 0 rfl rfl
  let target := Function.update (joined id (test.length + 1) own) test.length
    (test.length + 1 + branch.length)
  have hjump : target (0 + test.length) = test.length + 1 + branch.length := by simp [target]
  have hhosts : code.Hosts target (test.length + 1) branch own := by
    refine ⟨by simpa using hself.left.right, fun position _ => ?_⟩
    simp only [target]
    rw [Function.update_of_ne (by omega), joined, if_neg (by omega), Nat.add_sub_cancel_left]
  refine ⟨target, links_iff_linkedAt.mpr ?_, fun _ => ?_, fun h => absurd trivial h⟩
  · nth_rewrite 2 [hcode]
    refine LinkedAt.append (.append ?_ ?_) linkedAt_landing
    · exact (linkedAt_of_straight htest).push rfl (hjump ▸ hmarked) hlabel
    · simpa using hhosts.linkedAt hbranch
  · have hskips := (reaches_of_test target hself.left.left htest).2
    have hends : code.length = test.length + 1 + branch.length + 1 := by
      simp [hcode, Nat.add_assoc]
    rw [hjump] at hskips
    rw [hends]
    exact hskips.trans (reaches_of_landing hlanding)

/-- A conditional with an alternative falls through if one of its branches does. -/
theorem exists_traced_ifElse
    (hcode : code = test.push (.jumpIfFalse place otherwise) ++ branch.push (.jump behind)
      ++ alternative ++ landing behind)
    (htest : ∀ instruction ∈ test, instruction.operation.isStraight = true)
    {head : Operation} (hhead : alternative[0]? = some ⟨some otherwise, head⟩)
    (hbranch : branch.Traced own falls) (halternative : alternative.Traced own' falls') :
    ∃ target, code.Traced target (falls ∨ falls') := by
  have hself := Located.of_eq hcode
  obtain ⟨leaps, hleaps, hoperation⟩ := hself.left.left.right.last
  have hotherwise : code.Located (test.length + 1 + branch.length + 1) alternative := by
    simpa [Nat.add_assoc] using hself.left.right
  have hlanding : code.Located (test.length + 1 + branch.length + 1 + alternative.length)
      (landing behind) := by
    simpa [Nat.add_assoc] using hself.right
  have hends : code.length = test.length + 1 + branch.length + 1 + alternative.length + 1 := by
    simp [hcode, Nat.add_assoc]
  obtain ⟨marked, hmarked, -, hlabel⟩ := hlanding.labelled 0 rfl rfl
  obtain ⟨marked', hmarked', -, hlabel'⟩ := hotherwise.labelled 0 hhead rfl
  let target := Function.update (Function.update
    (joined (joined id (test.length + 1) own) (test.length + 1 + branch.length + 1) own')
    test.length (test.length + 1 + branch.length + 1))
    (test.length + 1 + branch.length) (test.length + 1 + branch.length + 1 + alternative.length)
  have hskip : target (0 + test.length) = test.length + 1 + branch.length + 1 := by
    simp only [target]
    rw [Function.update_of_ne (by omega), Nat.zero_add, Function.update_self]
  have hjump : target (test.length + 1 + branch.length) =
      test.length + 1 + branch.length + 1 + alternative.length := by
    simp only [target, Function.update_self]
  have hfirst : code.Hosts target (test.length + 1) branch own := by
    refine ⟨by simpa using hself.left.left.right.left, fun position hlt => ?_⟩
    simp only [target]
    rw [Function.update_of_ne (by omega), Function.update_of_ne (by omega), joined,
      if_pos (by omega), joined, if_neg (by omega), Nat.add_sub_cancel_left]
  have hsecond : code.Hosts target (test.length + 1 + branch.length + 1) alternative own' := by
    refine ⟨hotherwise, fun position hlt => ?_⟩
    simp only [target]
    rw [Function.update_of_ne (by omega), Function.update_of_ne (by omega), joined,
      if_neg (by omega), Nat.add_sub_cancel_left]
  obtain ⟨hgoes, hskips⟩ := reaches_of_test target hself.left.left.left htest
  rw [hskip] at hskips
  rw [Nat.zero_add] at hgoes
  have hleap : code.Flows target (test.length + 1 + branch.length)
      (test.length + 1 + branch.length + 1 + alternative.length) := by
    rw [length_push, Nat.zero_add] at hleaps
    rw [← hjump]
    exact .jump hleaps (by rw [hoperation]; rfl)
  refine ⟨target, links_iff_linkedAt.mpr ?_, fun hfalls => ?_, fun hnot => ?_⟩
  · nth_rewrite 2 [hcode]
    refine LinkedAt.append (.append (.append ?_ ?_) ?_) linkedAt_landing
    · exact (linkedAt_of_straight htest).push rfl (hskip ▸ hmarked') hlabel'
    · rw [length_push, Nat.zero_add]
      exact (hfirst.linkedAt hbranch.links).push rfl (hjump ▸ hmarked) hlabel
    · simpa [Nat.add_assoc] using hsecond.linkedAt halternative.links
  · rw [hends]
    refine ReflTransGen.trans ?_ (reaches_of_landing hlanding)
    rcases hfalls with hfalls | hfalls
    · exact (hgoes.trans ((hbranch.reaches_iff hfirst).mpr hfalls)).tail hleap
    · exact hskips.trans ((halternative.reaches_iff hsecond).mpr hfalls)
  · obtain ⟨hnot, hnot'⟩ := not_or.mp hnot
    obtain ⟨region, hregion⟩ := hbranch.kept hnot
    obtain ⟨region', hregion'⟩ := halternative.kept hnot'
    rw [Nat.zero_add] at hskip
    exact ⟨_, keeps_of_branches hself.left.left.left htest hfirst (hskip ▸ hsecond) hregion
      hregion'⟩

/-- A loop falls through, because it may run no round. -/
theorem exists_traced_loop
    (hcode : code = test.push (.jumpIfFalse place behind) ++ branch.push (.jump start)
      ++ landing behind)
    (htest : ∀ instruction ∈ test, instruction.operation.isStraight = true)
    {head : Operation} (hhead : test[0]? = some ⟨some start, head⟩)
    (hbranch : branch.Links own) : ∃ target, code.Traced target True := by
  have hself := Located.of_eq hcode
  have hlanding : code.Located (test.length + 1 + branch.length + 1) (landing behind) := by
    simpa [Nat.add_assoc] using hself.right
  have hends : code.length = test.length + 1 + branch.length + 1 + 1 := by
    simp [hcode, Nat.add_assoc]
  obtain ⟨marked, hmarked, -, hlabel⟩ := hlanding.labelled 0 rfl rfl
  obtain ⟨marked', hmarked', -, hlabel'⟩ := hself.left.left.left.labelled 0 hhead rfl
  let target := Function.update (Function.update (joined id (test.length + 1) own)
    test.length (test.length + 1 + branch.length + 1)) (test.length + 1 + branch.length) 0
  have hskip : target (0 + test.length) = test.length + 1 + branch.length + 1 := by
    simp only [target]
    rw [Function.update_of_ne (by omega), Nat.zero_add, Function.update_self]
  have hjump : target (test.length + 1 + branch.length) = 0 := by
    simp only [target, Function.update_self]
  have hhosts : code.Hosts target (test.length + 1) branch own := by
    refine ⟨by simpa using hself.left.right.left, fun position hlt => ?_⟩
    simp only [target]
    rw [Function.update_of_ne (by omega), Function.update_of_ne (by omega), joined,
      if_neg (by omega), Nat.add_sub_cancel_left]
  refine ⟨target, links_iff_linkedAt.mpr ?_, fun _ => ?_, fun h => absurd trivial h⟩
  · nth_rewrite 2 [hcode]
    refine LinkedAt.append (.append ?_ ?_) linkedAt_landing
    · exact (linkedAt_of_straight htest).push rfl (hskip ▸ hmarked) hlabel
    · rw [length_push, Nat.zero_add]
      exact (hhosts.linkedAt hbranch).push rfl (hjump ▸ hmarked') hlabel'
  · have hskips := (reaches_of_test target hself.left.left htest).2
    rw [hskip] at hskips
    rw [hends]
    exact hskips.trans (reaches_of_landing hlanding)

end Constructs

end Code

/-- The code of an expression and an operation behind it fall through, unless that is a return. -/
theorem StraightLine.exists_traced_push {before after : Supply} {code : Code}
    (h : StraightLine before code after) (operation : Operation)
    (hjump : operation.target? = none) :
    ∃ target, (code.push operation).Traced target (operation.isOnward = true) := by
  have hcode : code.Traced id True := .ofStraight h.straight
  have hlast : Code.Traced [operation.unlabelled] id (operation.isOnward = true) := .single hjump
  exact ⟨_, (hcode.append hlast).congr (and_iff_right trivial)⟩

/-- The code of a statement falls through exactly if not every path through the statement ends in a
return. -/
theorem exists_traced_of_lowerStmt {env : Environment} {stmt : Stmt} {before after : Supply}
    {code : Code} (h : (lowerStmt env stmt).Yields before code after) :
    ∃ target, code.Traced target (stmt.endsInReturn = false) := by
  refine lowerStmt_induction
    (P := fun stmt _ code _ => ∃ target, code.Traced target (stmt.endsInReturn = false))
    (Q := fun body _ code _ => ∃ target, code.Traced target (Stmt.anyEndsInReturn body = false))
    ?assign ?assignElement ?print ?ret ?ifThen ?ifElse ?loop ?block ?empty ?nil ?cons h
  case assign =>
    intro target value before code source after hvalue
    simpa [Stmt.endsInReturn, Operation.isOnward] using
      (straightLine_of_yields hvalue).exists_traced_push (.copy (env.placeOf target) source) rfl
  case assignElement =>
    intro array index value before valueCode source middle indexCode place after hvalue hindex
    simpa [Stmt.endsInReturn, Operation.isOnward] using
      ((straightLine_of_yields hvalue).append (straightLine_of_yields hindex)).exists_traced_push
        (.copyIntoArray array place source) rfl
  case print =>
    intro value before code source after hvalue
    simpa [Stmt.endsInReturn, Operation.isOnward] using
      (straightLine_of_yields hvalue).exists_traced_push (.print source) rfl
  case ret =>
    intro value before code source after hvalue
    simpa [Stmt.endsInReturn, Operation.isOnward] using
      (straightLine_of_yields hvalue).exists_traced_push (.ret source) rfl
  case ifThen =>
    rintro condition positive before test place middle branch after htest ⟨own, hbranch⟩
    simpa [Stmt.endsInReturn] using
      Code.exists_traced_ifThen rfl (straightLine_of_yields htest).straight hbranch.links
  case ifElse =>
    rintro condition positive negative before test place middle branch last alternative after htest
      ⟨own, hbranch⟩ ⟨own', halternative⟩
    obtain ⟨own', hmarked⟩ := halternative.marked (.numbered middle.labels)
    obtain ⟨head, hhead⟩ :=
      Code.exists_getElem?_marked (.numbered middle.labels) alternative
    simp only [Stmt.endsInReturn, Bool.and_eq_false_iff]
    exact Code.exists_traced_ifElse rfl (straightLine_of_yields htest).straight hhead hbranch
      hmarked
  case loop =>
    rintro condition body before test place middle round after htest ⟨own, hround⟩
    obtain ⟨head, hhead⟩ := Code.exists_getElem?_marked (.numbered before.labels) test
    simpa [Stmt.endsInReturn] using
      Code.exists_traced_loop rfl (Code.straight_marked (straightLine_of_yields htest).straight _)
        hhead hround.links
  case block => exact fun _ _ _ _ h => h
  case empty =>
    exact fun _ => ⟨id, by simpa [Stmt.endsInReturn] using Code.Traced.ofStraight (by simp)⟩
  case nil =>
    exact fun _ => ⟨id, by simpa [Stmt.anyEndsInReturn] using Code.Traced.ofStraight (by simp)⟩
  case cons =>
    rintro stmt rest before first middle others after ⟨own, hfirst⟩ ⟨own', hothers⟩
    simpa [Stmt.anyEndsInReturn, Bool.or_eq_false_iff] using ⟨_, hfirst.append hothers⟩

/-- The code of a body is linked, and it is its end behind code that falls through exactly if not
every path through the body ends in a return. -/
structure Code.TracedBody (segment : Code) (own : Nat → Nat) (implementation : Implementation) :
    Prop where
  links : segment.Links own
  ended : ∃ front own', segment = front.push .leave ∧
    front[0]? = some (Operation.enter implementation.name).unlabelled ∧
    segment.Hosts own 0 front own' ∧
    front.Traced own' (implementation.body.endsInReturn = false)

/-- What a body is lowered to can be linked. -/
theorem Code.IsLoweredFrom.exists_tracedBody {segment : Code} {scope : Scope}
    {implementation : Implementation} (h : segment.IsLoweredFrom scope implementation) :
    ∃ own, segment.TracedBody own implementation := by
  obtain ⟨before, inner, after, hinner, rfl⟩ := h
  obtain ⟨own, htraced⟩ := exists_traced_of_lowerStmt hinner
  have henter : Code.Traced [(Operation.enter implementation.name).unlabelled] id
      ((Operation.enter implementation.name).isOnward = true) := .single rfl
  have hleave : Code.Traced [Operation.leave.unlabelled] id (Operation.leave.isOnward = true) :=
    .single rfl
  have hfront := (henter.append htraced).congr (and_iff_right rfl)
  exact ⟨_, (hfront.append hleave).links, _, _, rfl, rfl, Code.hosts_left _ _ _ _, hfront⟩

/-- The end of a function's code can not be reached from its entry exactly if the checker finds that
every path through the body ends in a return. Every jump is linked to one instruction with its
label; there is one way to do so as long as the labels do not run out. -/
theorem lower_end_not_reached_iff {program : Program} {unit : CodeUnit}
    (hlower : program.lower = .ok unit) :
    ∃ target, unit.code.Links target ∧
      (unit.code.labels.length ≤ 2 ^ 32 → ∀ other, unit.code.Links other →
        unit.code.Flows other = unit.code.Flows target) ∧
      ∀ number implementation, program.implementations[number]? = some implementation →
        ∃ first last, unit.code.Spans number first last ∧
          unit.code[first]?.map Instruction.operation = some (.enter implementation.name) ∧
          unit.code[last]?.map Instruction.operation = some .leave ∧
          (¬ ReflTransGen (unit.code.Flows target) first last ↔
            implementation.body.endsInReturn = true) := by
  have hsegments := Program.segments_of_lower hlower
  -- every segment is linked on its own, and the program as its segments are
  have hbodies : ∀ number : Nat, ∃ own, ∀ segment, unit.code.segments[number]? = some segment →
      ∃ implementation, program.implementations[number]? = some implementation ∧
        segment.TracedBody own implementation := by
    intro number
    cases hsegment : unit.code.segments[number]? with
    | none => exact ⟨id, fun _ h => by contradiction⟩
    | some segment =>
      obtain ⟨implementation, himplementation, hlowered⟩ :=
        exists_getElem?_of_forall₂ (List.Forall₂.flip hsegments) hsegment
      obtain ⟨own, htraced⟩ := Code.IsLoweredFrom.exists_tracedBody hlowered
      refine ⟨own, fun found hfound => ?_⟩
      obtain rfl := Option.some.inj hfound
      exact ⟨implementation, himplementation, htraced⟩
  choose own hown using hbodies
  obtain ⟨target, hlinks, hhosts⟩ := Code.exists_links_flatten unit.code.segments own
    fun number part hpart => by
      obtain ⟨_, -, htraced⟩ := hown number part hpart
      exact htraced.links
  rw [Code.flatten_segments] at hlinks hhosts
  refine ⟨target, hlinks, fun hlabels other hother => ?_, fun number implementation himpl => ?_⟩
  · have hnodup := Program.nodup_labels hlower hlabels
    funext position next
    exact propext ⟨hlinks.flows hnodup hother, hother.flows hnodup hlinks⟩
  · obtain ⟨segment, hsegment, -⟩ := exists_getElem?_of_forall₂ hsegments himpl
    obtain ⟨found, hfound, -, front, own', rfl, hhead, hpart, htraced⟩ := hown number _ hsegment
    obtain rfl : implementation = found := Option.some.inj (himpl.symm.trans hfound)
    have hhosts : unit.code.Hosts target (unit.code.segments.take number).flatten.length front
        own' := (hhosts number _ hsegment).trans hpart
    obtain ⟨entry, hentry, henter, -⟩ := hhosts.located 0 _ hhead
    obtain ⟨exit, hexit, hleave⟩ := (Code.located_segment hsegment).last
    refine ⟨_, (unit.code.segments.take number).flatten.length + front.length,
      ⟨_, hsegment, rfl, ?_⟩, ?_, ?_, ?_⟩
    · rw [Code.length_push, Nat.add_assoc]
    · rw [Nat.add_zero] at hentry
      rw [hentry, Option.map_some, henter]
      rfl
    · rw [hexit, Option.map_some, hleave]
    · rw [← Bool.not_eq_false]
      exact not_congr (htraced.reaches_iff hhosts)

/-- In the program with branches the end of the first function can not be reached, for all the code
behind a return in it; that of the other one can. -/
theorem branching_ends :
    ∃ target, branchingUnit.code.Links target ∧
      ¬ ReflTransGen (branchingUnit.code.Flows target) 0 11 ∧
      ReflTransGen (branchingUnit.code.Flows target) 12 19 := by
  obtain ⟨target, hlinks, -, hends⟩ := lower_end_not_reached_iff branching_lower
  obtain ⟨first, last, ⟨segment, hsegment, hfirst, hlast⟩, -, -, hreached⟩ := hends 0 _ rfl
  obtain ⟨first', last', ⟨segment', hsegment', hfirst', hlast'⟩, -, -, hreached'⟩ := hends 1 _ rfl
  obtain rfl := Option.some.inj hsegment
  obtain rfl := Option.some.inj hsegment'
  obtain rfl : first = 0 := hfirst
  obtain rfl : last = 11 := Nat.succ.inj hlast
  obtain rfl : first' = 12 := hfirst'
  obtain rfl : last' = 19 := Nat.succ.inj hlast'
  exact ⟨target, hlinks, hreached.mpr rfl, not_not.mp (mt hreached'.mp (by decide))⟩

end ThreeAddress
