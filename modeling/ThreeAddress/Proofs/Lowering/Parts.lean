import ThreeAddress.Proofs.Lowering.Failures
import ThreeAddress.Proofs.Lowering.Labels

/-!
# Lowering a program in parts

The bodies of a program share one supply, so what has been lowered before decides which numbers a
body gets. It decides nothing else. A step that starts from a supply out of which more has been
taken does the same as before, with every number raised by what was taken, and registers the same
texts under the raised numbers. So a list of bodies can be cut anywhere, and its parts be lowered
each on its own.
-/

namespace ThreeAddress

open LowerM

section Raising

variable (base : Supply)

/-- The temporary that comes as much later as a supply has given out temporaries. -/
def Temporary.raised (id : Temporary) : Temporary := .numbered (base.temporaries + id.id.toNat)

/-- The label that comes as much later as a supply has given out labels. -/
def Label.raised (label : Label) : Label := .numbered (base.labels + label.id.toNat)

/-- A place with its number raised, if it has one. -/
def Storage.raised : Storage → Storage
  | .temporary id => .temporary (id.raised base)
  | .string id => .string (id.raised base)
  | place => place

/-- An operation with all its numbers raised. -/
def Operation.raised : Operation → Operation
  | .jump target => .jump (target.raised base)
  | .jumpIfFalse condition target => .jumpIfFalse (condition.raised base) (target.raised base)
  | .copy destination source => .copy (destination.raised base) (source.raised base)
  | .copyIntoArray array index source =>
    .copyIntoArray array (index.raised base) (source.raised base)
  | .copyFromArray destination array index =>
    .copyFromArray (destination.raised base) array (index.raised base)
  | .call function destination => .call function (destination.raised base)
  | .input type destination => .input type (destination.raised base)
  | .print source => .print (source.raised base)
  | .ret source => .ret (source.raised base)
  | .binary op destination lhs rhs =>
    .binary op (destination.raised base) (lhs.raised base) (rhs.raised base)
  | operation => operation

/-- An instruction with all its numbers raised, its label included. -/
def Instruction.raised (instruction : Instruction) : Instruction :=
  ⟨instruction.label?.map (Label.raised base), instruction.operation.raised base⟩

/-- Code with all its numbers raised. -/
def Code.raised (code : Code) : Code := code.map (Instruction.raised base)

/-- String constants with their numbers raised. -/
def StringPool.raised (pool : StringPool) : List (Temporary × String) :=
  pool.entries.map fun entry => (entry.1.raised base, entry.2)

/-- Raising adds up numbers, with or without an overrun. -/
@[simp] theorem Temporary.raised_numbered (number : Nat) :
    (numbered number).raised base = numbered (base.temporaries + number) := by
  have hid : UInt32.ofNat (base.temporaries + (UInt32.ofNat number).toNat) =
      UInt32.ofNat (base.temporaries + number) := by
    rw [UInt32.ofNat_add, UInt32.ofNat_toNat, UInt32.ofNat_add]
  exact congrArg Temporary.mk hid

/-- Raising adds up numbers, with or without an overrun. -/
@[simp] theorem Label.raised_numbered (number : Nat) :
    (numbered number).raised base = numbered (base.labels + number) := by
  have hid : UInt32.ofNat (base.labels + (UInt32.ofNat number).toNat) =
      UInt32.ofNat (base.labels + number) := by
    rw [UInt32.ofNat_add, UInt32.ofNat_toNat, UInt32.ofNat_add]
  exact congrArg Label.mk hid

/-- A name is the same place whatever has been taken. -/
@[simp] theorem Environment.raised_placeOf (env : Environment) (name : String) :
    (env.placeOf name).raised base = env.placeOf name := by
  unfold Environment.placeOf
  split
  · split <;> rfl
  · rfl

namespace Code

/-- Raising goes through code from its first to its last instruction. -/
@[simp] theorem raised_append (first second : Code) :
    raised base (first ++ second) = raised base first ++ raised base second :=
  List.map_append

/-- Raising an operation at the end. -/
@[simp] theorem raised_push (code : Code) (operation : Operation) :
    raised base (code.push operation) = (raised base code).push (operation.raised base) :=
  List.map_append

/-- Raising a single operation. -/
@[simp] theorem raised_ofOperation (operation : Operation) :
    raised base (ofOperation operation) = ofOperation (operation.raised base) :=
  rfl

/-- Raising labelled code raises the label. -/
@[simp] theorem raised_marked (label : Label) (code : Code) :
    raised base (code.marked label) = (raised base code).marked (label.raised base) := by
  match code with
  | [] => rfl
  | ⟨none, _⟩ :: _ => rfl
  | ⟨some _, _⟩ :: _ => rfl

/-- Raising the place behind a construct raises its label. -/
@[simp] theorem raised_landing (label : Label) :
    raised base (landing label) = landing (label.raised base) :=
  rfl

end Code

end Raising

/-- A constant whose number is above all others comes last. -/
theorem StringPool.entries_insert_of_lt {pool : StringPool} {id : Temporary} {text : String}
    (h : ∀ entry ∈ pool.entries, entry.1.id < id.id) :
    (pool.insert id text).entries = pool.entries ++ [(id, text)] := by
  change place id text pool.entries = _
  generalize pool.entries = entries at h
  induction entries with
  | nil => rfl
  | cons head rest ih =>
    obtain ⟨hhead, hrest⟩ := List.forall_mem_cons.mp h
    have hne : id ≠ head.1 := by
      rintro rfl
      exact UInt32.lt_irrefl _ hhead
    rw [place, if_neg (UInt32.lt_asymm hhead), if_neg hne, ih hrest, List.cons_append]

namespace Supply

/-- Every string constant has the number of a temporary that was taken. -/
def Numbers (supply : Supply) : Prop :=
  ∀ entry ∈ supply.strings.entries, entry.1.id.toNat < supply.temporaries

/-- At first there are no string constants. -/
theorem numbers_full : full.Numbers := by simp [Numbers, full, StringPool.empty]

/-- A further string constant has the number of the temporary that is taken for it. -/
theorem Numbers.afterString {supply : Supply} (h : supply.Numbers) (text : String) :
    (supply.afterString text).Numbers := by
  intro entry hentry
  rcases StringPool.mem_place hentry with rfl | hentry
  · have hle : (UInt32.ofNat supply.temporaries).toNat ≤ supply.temporaries := Nat.mod_le _ _
    exact Nat.lt_succ_of_le hle
  · exact Nat.lt_succ_of_lt (h entry hentry)

/-- Drawing from a supply keeps string constants numbered. -/
theorem Numbers.of_drawn {first second : Supply} (h : first.Numbers) (hdrawn : first.Drawn second) :
    second.Numbers := by
  induction hdrawn with
  | refl => exact h
  | temporary _ ih => exact fun entry hentry => Nat.lt_succ_of_lt (ih entry hentry)
  | label _ ih => exact ih
  | string text _ ih => exact ih.afterString text

/-- As long as the numbers do not run out, a further string constant comes last. -/
theorem Numbers.entries_afterString {supply : Supply} (h : supply.Numbers) (text : String)
    (hfit : supply.temporaries < 2 ^ 32) :
    (supply.afterString text).strings.entries =
      supply.strings.entries ++ [(.numbered supply.temporaries, text)] := by
  refine StringPool.entries_insert_of_lt fun entry hentry => UInt32.lt_iff_toNat_lt.mpr ?_
  change entry.1.id.toNat < (UInt32.ofNat supply.temporaries).toNat
  rw [UInt32.toNat_ofNat_of_lt' hfit]
  exact h entry hentry

/-- Two supplies out of which the same has been taken, out of the second after all that was taken
out of a base. -/
structure Above (base supply later : Supply) : Prop where
  temporaries : later.temporaries = base.temporaries + supply.temporaries
  labels : later.labels = base.labels + supply.labels
  strings : later.temporaries ≤ 2 ^ 32 →
    later.strings.entries = base.strings.entries ++ supply.strings.raised base
  numbers : supply.Numbers
  numbers_later : later.Numbers

namespace Above

variable {base supply later : Supply}

/-- Out of the base itself, nothing more has been taken. -/
theorem full (h : base.Numbers) : Above base .full base where
  temporaries := rfl
  labels := rfl
  strings _ := (List.append_nil _).symm
  numbers := numbers_full
  numbers_later := h

/-- A temporary is taken out of both. -/
theorem afterTemporary (h : Above base supply later) :
    Above base supply.afterTemporary later.afterTemporary where
  temporaries := congrArg (· + 1) h.temporaries
  labels := h.labels
  strings hfit := h.strings (Nat.le_of_succ_le hfit)
  numbers entry hentry := Nat.lt_succ_of_lt (h.numbers entry hentry)
  numbers_later entry hentry := Nat.lt_succ_of_lt (h.numbers_later entry hentry)

/-- A label is taken out of both. -/
theorem afterLabel (h : Above base supply later) :
    Above base supply.afterLabel later.afterLabel where
  temporaries := h.temporaries
  labels := congrArg (· + 1) h.labels
  strings := h.strings
  numbers := h.numbers
  numbers_later := h.numbers_later

/-- A string constant is registered in both. -/
theorem afterString (h : Above base supply later) (text : String) :
    Above base (supply.afterString text) (later.afterString text) where
  temporaries := congrArg (· + 1) h.temporaries
  labels := h.labels
  strings hfit := by
    have hlater : later.temporaries < 2 ^ 32 := hfit
    have hsupply : supply.temporaries < 2 ^ 32 := by
      have := h.temporaries
      omega
    rw [h.numbers_later.entries_afterString text hlater, h.strings (Nat.le_of_lt hlater),
      StringPool.raised, StringPool.raised, h.numbers.entries_afterString text hsupply]
    simp [h.temporaries]
  numbers := h.numbers.afterString text
  numbers_later := h.numbers_later.afterString text

/-- The next number of the second supply is the raised one of the first. -/
theorem numbered_temporaries (h : Above base supply later) :
    Temporary.numbered later.temporaries = (Temporary.numbered supply.temporaries).raised base := by
  rw [h.temporaries, Temporary.raised_numbered]

/-- So is the temporary that is taken under it. -/
theorem raised_temporary (h : Above base supply later) :
    (Storage.temporary (.numbered supply.temporaries)).raised base =
      .temporary (.numbered later.temporaries) :=
  congrArg Storage.temporary h.numbered_temporaries.symm

/-- So is the string constant that is registered under it. -/
theorem raised_string (h : Above base supply later) :
    (Storage.string (.numbered supply.temporaries)).raised base =
      .string (.numbered later.temporaries) :=
  congrArg Storage.string h.numbered_temporaries.symm

end Above

end Supply

/-- From every supply above another one, a step yields a given result, and takes the same. -/
def LowerM.YieldsAbove (base : Supply) (step : LowerM α) (before : Supply) (result : α)
    (after : Supply) : Prop :=
  ∀ later, base.Above before later → ∃ last, step.Yields later result last ∧ base.Above after last

section Lowering

variable {env : Environment} {before after : Supply} {code : Code}

/-- More taken beforehand raises the numbers of an expression. -/
theorem yieldsAbove_lowerExpr (base : Supply) {expr : Expr} {place : Storage}
    (h : (lowerExpr env expr).Yields before (code, place) after) :
    (lowerExpr env expr).YieldsAbove base before (code.raised base, place.raised base) after := by
  refine lowerExpr_induction
    (P := fun expr before code place after => (lowerExpr env expr).YieldsAbove base before
      (code.raised base, place.raised base) after)
    (Q := fun function args params before code after =>
      (lowerArgs env function args params).YieldsAbove base before (code.raised base) after)
    ?constant ?string ?scalar ?element ?call ?input ?binary ?surplus ?argument h
  case constant =>
    intro value supply later habove
    exact ⟨later, (yields_constant_iff value).mpr ⟨rfl, rfl, rfl⟩, habove⟩
  case string =>
    intro text supply later habove
    exact ⟨_, yields_string_iff.mpr ⟨rfl, habove.raised_string, rfl⟩, habove.afterString text⟩
  case scalar =>
    intro name supply later habove
    exact ⟨later, yields_scalar_iff.mpr ⟨rfl, env.raised_placeOf base name, rfl⟩, habove⟩
  case element =>
    intro array index before code place after _ ih later habove
    obtain ⟨last, hindex, hlast⟩ := ih later habove
    refine ⟨_, yields_element_iff.mpr ⟨_, _, last, hindex, hlast.raised_temporary, ?_, rfl⟩,
      hlast.afterTemporary⟩
    simp [Operation.raised]
  case call =>
    intro function args params before code after hcallee _ ih later habove
    obtain ⟨last, hargs, hlast⟩ := ih later habove
    refine ⟨_, yields_call_iff.mpr ⟨params, _, last, hcallee, hargs, hlast.raised_temporary, ?_, rfl⟩,
      hlast.afterTemporary⟩
    simp [Operation.raised]
  case input =>
    intro type supply later habove
    exact ⟨_, yields_input_iff.mpr ⟨habove.raised_temporary, rfl, rfl⟩, habove.afterTemporary⟩
  case binary =>
    intro op lhs rhs before leftCode left middle rightCode right after _ _ ihl ihr later habove
    obtain ⟨between, hleft, hbetween⟩ := ihl later habove
    obtain ⟨last, hright, hlast⟩ := ihr between hbetween
    refine ⟨_, yields_binary_iff.mpr ⟨_, _, between, _, _, last, hleft, hright,
      hlast.raised_temporary, ?_, rfl⟩, hlast.afterTemporary⟩
    simp [Operation.raised]
  case surplus =>
    intro function args params supply hsurplus later habove
    exact ⟨later, (yields_args_nil_iff hsurplus).mpr ⟨rfl, rfl⟩, habove⟩
  case argument =>
    intro function arg args param params before argCode source middle rest after _ _ iharg ihrest
      later habove
    obtain ⟨between, harg, hbetween⟩ := iharg later habove
    obtain ⟨last, hrest, hlast⟩ := ihrest between hbetween
    refine ⟨last, yields_args_cons_iff.mpr ⟨_, _, between, _, harg, hrest, ?_⟩, hlast⟩
    simp [Operation.raised, Storage.raised]

/-- More taken beforehand raises the numbers of a statement. -/
theorem yieldsAbove_lowerStmt (base : Supply) {stmt : Stmt}
    (h : (lowerStmt env stmt).Yields before code after) :
    (lowerStmt env stmt).YieldsAbove base before (code.raised base) after := by
  refine lowerStmt_induction
    (P := fun stmt before code after =>
      (lowerStmt env stmt).YieldsAbove base before (code.raised base) after)
    (Q := fun body before code after =>
      (lowerStmts env body).YieldsAbove base before (code.raised base) after)
    ?assign ?assignElement ?print ?ret ?ifThen ?ifElse ?loop ?block ?empty ?nil ?cons h
  case assign =>
    intro target value before code source after hvalue later habove
    obtain ⟨last, hlater, hlast⟩ := yieldsAbove_lowerExpr base hvalue later habove
    refine ⟨last, yields_assign_iff.mpr ⟨_, _, hlater, ?_⟩, hlast⟩
    simp [Operation.raised]
  case assignElement =>
    intro array index value before valueCode source middle indexCode place after hvalue hindex later
      habove
    obtain ⟨between, hlater, hbetween⟩ := yieldsAbove_lowerExpr base hvalue later habove
    obtain ⟨last, hlater', hlast⟩ := yieldsAbove_lowerExpr base hindex between hbetween
    refine ⟨last, yields_assignElement_iff.mpr ⟨_, _, between, _, _, hlater, hlater', ?_⟩, hlast⟩
    simp [Operation.raised]
  case print =>
    intro value before code source after hvalue later habove
    obtain ⟨last, hlater, hlast⟩ := yieldsAbove_lowerExpr base hvalue later habove
    refine ⟨last, yields_print_iff.mpr ⟨_, _, hlater, ?_⟩, hlast⟩
    simp [Operation.raised]
  case ret =>
    intro value before code source after hvalue later habove
    obtain ⟨last, hlater, hlast⟩ := yieldsAbove_lowerExpr base hvalue later habove
    refine ⟨last, yields_ret_iff.mpr ⟨_, _, hlater, ?_⟩, hlast⟩
    simp [Operation.raised]
  case ifThen =>
    intro condition positive before test place middle branch after htest ih later habove
    obtain ⟨between, hlater, hbetween⟩ := yieldsAbove_lowerExpr base htest later habove
    obtain ⟨last, hbranch, hlast⟩ := ih _ hbetween.afterLabel
    refine ⟨last, yields_ifThen_iff.mpr ⟨_, _, between, _, hlater, hbranch, ?_⟩, hlast⟩
    simp [Operation.raised, hbetween.labels]
  case ifElse =>
    intro condition positive negative before test place middle branch last alternative after htest
      ihp ihn later habove
    obtain ⟨between, hlater, hbetween⟩ := yieldsAbove_lowerExpr base htest later habove
    obtain ⟨behind, hbranch, hbehind⟩ := ihp _ hbetween.afterLabel.afterLabel
    obtain ⟨final, halternative, hfinal⟩ := ihn behind hbehind
    refine ⟨final, yields_ifElse_iff.mpr
      ⟨_, _, between, _, behind, _, hlater, hbranch, halternative, ?_⟩, hfinal⟩
    simp [Operation.raised, hbetween.labels, Nat.add_assoc]
  case loop =>
    intro condition body before test place middle round after htest ih later habove
    obtain ⟨between, hlater, hbetween⟩ :=
      yieldsAbove_lowerExpr base htest _ habove.afterLabel.afterLabel
    obtain ⟨last, hround, hlast⟩ := ih between hbetween
    refine ⟨last, yields_loop_iff.mpr ⟨_, _, between, _, hlater, hround, ?_⟩, hlast⟩
    simp [Operation.raised, habove.labels, Nat.add_assoc]
  case block =>
    intro body before code after ih later habove
    obtain ⟨last, hbody, hlast⟩ := ih later habove
    exact ⟨last, yields_block_iff.mpr hbody, hlast⟩
  case empty =>
    intro supply later habove
    exact ⟨later, yields_empty_iff.mpr ⟨rfl, rfl⟩, habove⟩
  case nil =>
    intro supply later habove
    exact ⟨later, yields_stmts_nil_iff.mpr ⟨rfl, rfl⟩, habove⟩
  case cons =>
    intro stmt rest before first middle others after ih ihrest later habove
    obtain ⟨between, hfirst, hbetween⟩ := ih later habove
    obtain ⟨last, hothers, hlast⟩ := ihrest between hbetween
    exact ⟨last, yields_stmts_cons_iff.mpr ⟨_, between, _, hfirst, hothers,
      Code.raised_append base first others⟩, hlast⟩

/-- More taken beforehand raises the numbers of all bodies. -/
theorem yieldsAbove_lowerImplementations (base : Supply) {scope : Scope}
    {implementations : List Implementation}
    (h : (lowerImplementations scope implementations).Yields before code after) :
    (lowerImplementations scope implementations).YieldsAbove base before (code.raised base)
      after := by
  induction implementations generalizing before code with
  | nil =>
    obtain ⟨rfl, rfl⟩ := yields_implementations_nil_iff.mp h
    intro later habove
    exact ⟨later, yields_implementations_nil_iff.mpr ⟨rfl, rfl⟩, habove⟩
  | cons implementation rest ih =>
    obtain ⟨first, middle, others, hfirst, hothers, rfl⟩ := yields_implementations_cons_iff.mp h
    obtain ⟨body, hbody, rfl⟩ := yields_implementation_iff.mp hfirst
    intro later habove
    obtain ⟨between, hlater, hbetween⟩ := yieldsAbove_lowerStmt base hbody later habove
    obtain ⟨last, hlast, habove'⟩ := ih hothers between hbetween
    refine ⟨last, yields_implementations_cons_iff.mpr ⟨_, between, _,
      yields_implementation_iff.mpr ⟨_, hlater, rfl⟩, hlast, ?_⟩, habove'⟩
    simp [Operation.raised]

/-- Lowering two lists of bodies one after the other is lowering them as one list. -/
theorem yields_implementations_append_iff {scope : Scope} {first second : List Implementation} :
    (lowerImplementations scope (first ++ second)).Yields before code after ↔
      ∃ front middle back, (lowerImplementations scope first).Yields before front middle ∧
        (lowerImplementations scope second).Yields middle back after ∧ code = front ++ back := by
  induction first generalizing before code with
  | nil => simp [yields_implementations_nil_iff]
  | cons implementation rest ih =>
    simp only [List.cons_append, yields_implementations_cons_iff, ih]
    grind

end Lowering

/-- Bodies in two parts fail to be lowered for the cause of the first part, or else for that of the
second. -/
theorem Program.lower_append_eq_error_iff {decls : List Decl} {front back : List Implementation}
    {error : LoweringError} :
    (Program.mk decls (front ++ back)).lower = .error error ↔
      (Program.mk decls front).lower = .error error ∨
        (∃ unit, (Program.mk decls front).lower = .ok unit) ∧
          (Program.mk decls back).lower = .error error := by
  have hcause : ∀ implementations error, (Program.mk decls implementations).lower = .error error ↔
      implementations.findSome? (Implementation.refusal? ⟨decls⟩) = some error :=
    fun _ _ => Program.lower_eq_error_iff
  have hfront := hcause front
  rw [hcause, hcause back, List.findSome?_append, Option.or_eq_some_iff]
  cases hlower : (Program.mk decls front).lower with
  | error cause =>
    rw [(hfront cause).mp hlower]
    simp
  | ok unit =>
    have hnone : front.findSome? (Implementation.refusal? ⟨decls⟩) = none := by
      rw [Option.eq_none_iff_forall_ne_some]
      intro cause hsome
      rw [(hfront cause).mpr hsome] at hlower
      contradiction
    rw [hnone]
    simp

/-- Lowering a list of bodies in two parts: the first part that fails tells why the whole fails, and
otherwise the code of the second part follows that of the first, with all its numbers raised by what
was taken for the first. Below the bound on identifiers, its string constants follow as well. -/
theorem lower_append (decls : List Decl) (front back : List Implementation) :
    let whole : Program := ⟨decls, front ++ back⟩
    let first : Program := ⟨decls, front⟩
    let second : Program := ⟨decls, back⟩
    (∀ error, whole.lower = .error error ↔ first.lower = .error error ∨
      (∃ unit, first.lower = .ok unit) ∧ second.lower = .error error) ∧
    ∀ unit, whole.lower = .ok unit →
      ∃ frontUnit backUnit, first.lower = .ok frontUnit ∧ second.lower = .ok backUnit ∧
        whole.supply.temporaries = first.supply.temporaries + second.supply.temporaries ∧
        whole.supply.labels = first.supply.labels + second.supply.labels ∧
        unit.code = frontUnit.code ++ backUnit.code.raised first.supply ∧
        (whole.supply.temporaries ≤ 2 ^ 32 → unit.strings.entries =
          frontUnit.strings.entries ++ backUnit.strings.raised first.supply) := by
  intro whole first second
  refine ⟨fun error => Program.lower_append_eq_error_iff, ?_⟩
  intro unit hwhole
  obtain ⟨code, after, hyields, rfl⟩ := Program.lower_eq_ok_iff.mp hwhole
  obtain ⟨frontCode, middle, lastCode, hfront, hlast, rfl⟩ :=
    yields_implementations_append_iff.mp hyields
  have hfirst : first.lower = .ok ⟨decls, middle.strings, frontCode⟩ :=
    Program.lower_eq_ok_iff.mpr ⟨frontCode, middle, hfront, rfl⟩
  -- if the second part failed on its own, the whole would have failed
  obtain ⟨backUnit, hback⟩ : ∃ backUnit, second.lower = .ok backUnit := by
    cases hsecond : second.lower with
    | ok backUnit => exact ⟨backUnit, rfl⟩
    | error error =>
      have hfails : whole.lower = .error error :=
        Program.lower_append_eq_error_iff.mpr (.inr ⟨⟨_, hfirst⟩, hsecond⟩)
      rw [hfails] at hwhole
      contradiction
  obtain ⟨backCode, backAfter, hsecond, rfl⟩ := Program.lower_eq_ok_iff.mp hback
  have hnumbers : middle.Numbers :=
    Supply.numbers_full.of_drawn (labelled_of_lowerImplementations hfront).drawn
  obtain ⟨last, hraised, habove⟩ :=
    yieldsAbove_lowerImplementations middle hsecond middle (.full hnumbers)
  obtain ⟨rfl, rfl⟩ := hlast.unique hraised
  have hmiddle : first.supply = middle := Program.supply_eq hfront
  rw [hmiddle, Program.supply_eq hyields, Program.supply_eq hsecond]
  exact ⟨_, _, hfirst, hback, habove.temporaries, habove.labels, rfl, habove.strings⟩

/-- A variable and two functions. -/
def joiningDecls : List Decl :=
  [.scalar .int "n" (.int 0), .function .int "f" [], .function .int "g" []]

/-- The first function prints in a loop and calls the second. -/
def joiningLoop : Implementation where
  name := "f"
  body := .loop (.binary .lt (.scalar "n") (.literal (.int 2)))
    (.block [.print (.literal (.string "f")), .assign "n" (.call "g" [])])

/-- The second function prints under a condition. -/
def joiningTest : Implementation where
  name := "g"
  body := .block
    [.ifThen (.binary .eq (.scalar "n") (.literal (.int 0))) (.print (.literal (.string "g"))),
     .ret (.literal (.int 1))]

/-- The code of the second function, from the first numbers that it takes. -/
def joiningTestCode (temporary label : Nat) : Code :=
  [⟨none, .enter "g"⟩,
   ⟨none, .binary .eq (.temporary (.numbered temporary)) (.variable "n") (.constant (.int 0))⟩,
   ⟨none, .jumpIfFalse (.temporary (.numbered temporary)) (.numbered label)⟩,
   ⟨none, .print (.string (.numbered (temporary + 1)))⟩,
   ⟨some (.numbered label), .nop⟩,
   ⟨none, .ret (.constant (.int 1))⟩,
   ⟨none, .leave⟩]

/-- Behind the first function, which takes three temporaries and two labels, the second has the same
code as on its own from there on, and its text is registered under the number that is raised. -/
theorem joining_parts :
    let whole : Program := ⟨joiningDecls, [joiningLoop] ++ [joiningTest]⟩
    let first : Program := ⟨joiningDecls, [joiningLoop]⟩
    let second : Program := ⟨joiningDecls, [joiningTest]⟩
    ∃ unit frontUnit, whole.lower = .ok unit ∧ first.lower = .ok frontUnit ∧
      second.lower = .ok ⟨joiningDecls, StringPool.empty.insert (.numbered 1) "g",
        joiningTestCode 0 0⟩ ∧
      whole.supply.temporaries ≤ 2 ^ 32 ∧
      unit.code = frontUnit.code ++ joiningTestCode 3 2 ∧
      unit.strings.entries = frontUnit.strings.entries ++ [(.numbered 4, "g")] := by
  intro whole first second
  obtain ⟨-, hparts⟩ := lower_append joiningDecls [joiningLoop] [joiningTest]
  obtain ⟨frontUnit, backUnit, hfront, hback, -, -, hcode, hstrings⟩ := hparts _ rfl
  have hbound : whole.supply.temporaries ≤ 2 ^ 32 := by decide
  obtain rfl := Except.ok.inj hback
  exact ⟨_, frontUnit, rfl, hfront, rfl, hbound, hcode, hstrings hbound⟩

end ThreeAddress
