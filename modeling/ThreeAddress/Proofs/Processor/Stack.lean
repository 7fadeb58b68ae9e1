import ThreeAddress.Proofs.Processor.Frames

/-!
# The stack during calls

Here calls are followed. A call puts the address of the line behind it on the stack and goes on at
the label of the called function, and a return goes on at the address that is on top of the stack,
whatever that is. Only library functions, which have no lines, are not looked into.

In front of every line the stack is lower than on entry to the function by what the lines in front
put on it, and from there on it is as the functions that wait have left it. This survives every step
as long as there is room on the stack and nothing is stored there as an element of an array. So
`rsp` is a multiple of sixteen at every call if it was eight more than one on entry, and at a return
the stack is as on entry, with the address on top that the call has put there.
-/

namespace ThreeAddress

namespace Processor

open Assembly

/-- A host on which some lines lie in memory. -/
structure Platform (lines : List Line) extends Host where
  /-- The address of the instruction at a position. -/
  code : Nat → Word
  /-- Different instructions have different addresses. -/
  code_inj : ∀ {first second : Nat} {content content' : Assembly.Instruction},
    lines[first]? = some (.instruction content) → lines[second]? = some (.instruction content') →
      code first = code second → first = second
  /-- The region of memory for the stack. -/
  stack : Stack
  /-- The word of a symbol lies apart from the stack. -/
  data_apart : ∀ symbol, stack.IsApart (address symbol)
  /-- What is called and is no function among the lines leaves the stack pointer as it was. -/
  rsp_of_returns : ∀ {symbol : String} {before after : State},
    returns symbol before after → after.registers .rsp = before.registers .rsp
  /-- It leaves the stack from there on as it was, too. The function that reads does so unless what
  it reads is to go there. -/
  stack_of_returns : ∀ {symbol : String} {before after : State}, returns symbol before after →
    (symbol = Symbol.reader → stack.IsApart (before.registers .rsi)) →
      stack.Keeps (before.registers .rsp) before.memory after.memory

/-- A function that waits for the one that it has called. -/
structure Caller where
  /-- The position behind the call. -/
  position : Nat
  /-- `rsp` on entry to the function. -/
  entry : Word

/-- A processor between two lines, with the calls that have brought it there. -/
structure Process where
  /-- The position of the next line. -/
  position : Nat
  /-- What the processor holds. -/
  state : State
  /-- `rsp` on entry to the function that is being executed. -/
  entry : Word
  /-- The functions that wait, the latest first. -/
  callers : List Caller

/-- A processor that enters a function from outside. -/
def Process.entering (position : Nat) (state : State) : Process :=
  ⟨position, state, state.registers .rsp, []⟩

variable {lines : List Line}

/-- The processor executes a line and goes on. -/
inductive Process.Step (platform : Platform lines) : Process → Process → Prop
  | next {position : Nat} {line : Line} {state after : State} {entry : Word}
      {callers : List Caller} (hline : lines[position]? = some line)
      (houtcome : state.executeLine platform.toHost line = .next after) :
      Step platform ⟨position, state, entry, callers⟩ ⟨position + 1, after, entry, callers⟩
  | jump {position target : Nat} {line : Line} {symbol : String} {state after : State}
      {entry : Word} {callers : List Caller} (hline : lines[position]? = some line)
      (houtcome : state.executeLine platform.toHost line = .jump symbol after)
      (htarget : lines[target]? = some (.label symbol)) :
      Step platform ⟨position, state, entry, callers⟩ ⟨target, after, entry, callers⟩
  /-- The call of a function among the lines. -/
  | enter {position target : Nat} {line : Line} {symbol : String} {state before : State}
      {entry : Word} {callers : List Caller} (hline : lines[position]? = some line)
      (houtcome : state.executeLine platform.toHost line = .call symbol before)
      (htarget : lines[target]? = some (.label symbol)) :
      Step platform ⟨position, state, entry, callers⟩
        ⟨target, before.pushWord (platform.code (position + 1)),
          (before.pushWord (platform.code (position + 1))).registers .rsp,
          ⟨position + 1, entry⟩ :: callers⟩
  /-- The call of a function that is not among the lines. -/
  | library {position : Nat} {line : Line} {symbol : String} {state before after : State}
      {entry : Word} {callers : List Caller} (hline : lines[position]? = some line)
      (houtcome : state.executeLine platform.toHost line = .call symbol before)
      (houtside : .label symbol ∉ lines) (hreturns : platform.returns symbol before after) :
      Step platform ⟨position, state, entry, callers⟩ ⟨position + 1, after, entry, callers⟩
  /-- A return to the address on top of the stack. -/
  | leave {position target : Nat} {line : Line} {content : Assembly.Instruction}
      {state after : State} {entry : Word} {caller : Caller} {callers : List Caller}
      (hline : lines[position]? = some line)
      (houtcome : state.executeLine platform.toHost line = .ret after)
      (htarget : lines[target]? = some (.instruction content))
      (hword : state.memory.word (state.registers .rsp) = platform.code target) :
      Step platform ⟨position, state, entry, caller :: callers⟩
        ⟨target, after, caller.entry, callers⟩

/-- The processor goes from one line to another and passes some on the way, the first one
included. -/
inductive Process.Runs (platform : Platform lines) : Process → List Process → Process → Prop
  | here (process : Process) : Runs platform process [] process
  | step {process next last : Process} {passed : List Process}
      (hstep : Process.Step platform process next) (hrest : Runs platform next passed last) :
      Runs platform process (process :: passed) last

/-- There is room on the stack, and nothing is stored there as an element of an array. -/
structure Process.Confined (platform : Platform lines) (process : Process) : Prop where
  /-- The word on top lies in the region of the stack. -/
  top : platform.stack.Holds (process.state.registers .rsp)
  /-- An element of an array is stored apart from the stack. -/
  stores : lines[process.position]? = some (.instruction (.mov (.register .rax) (.indirect .rcx))) →
    platform.stack.IsApart (process.state.registers .rcx)

/-- A function waits inside the bracket of a call, and what it has called was entered with the stack
as it was there. -/
structure Caller.Waits (platform : Platform lines) (entry : Word) (caller : Caller) : Prop where
  entry_eq : entry = caller.entry - 16
  depth_eq : depthAt lines caller.position = 8
  aimed_eq : aimedAt lines caller.position = false
  holds : platform.stack.Holds caller.entry

/-- Where a function was entered, memory holds the address at which its caller goes on, and the same
is true of the caller. The first function was entered with an address from outside. -/
def Awaited (platform : Platform lines) (home : Word) (memory : Memory) :
    Word → List Caller → Prop
  | entry, [] => memory.word entry = home
  | entry, caller :: callers =>
    memory.word entry = platform.code caller.position ∧ caller.Waits platform entry ∧
      Awaited platform home memory caller.entry callers

/-- The stack is lower than on entry to the function by what the lines in front put on it. It was on
entry as a call has to leave it, and the functions that wait find there what they left. -/
structure Process.Balanced (platform : Platform lines) (home : Word) (process : Process) :
    Prop where
  rsp_eq : process.state.registers .rsp =
    process.entry - BitVec.ofInt 64 (depthAt lines process.position)
  entry_mod : process.entry.toNat % 16 = 8
  /-- Inside a bracket there is more on the stack than on entry, so there was room on entry. -/
  holds : depthAt lines process.position = 8 → platform.stack.Holds process.entry
  /-- What the lines in front tell about `rsi` is so, unless control may come from elsewhere. -/
  aimed : aimedAt lines process.position = true →
    (∀ name, lines[process.position]? ≠ some (.label name)) →
      platform.stack.IsApart (process.state.registers .rsi)
  awaited : Awaited platform home process.state.memory process.entry process.callers

section Balance

variable {platform : Platform lines} {home : Word} {process next last : Process}

/-- What waits on the stack from an address on is not changed with the rest of memory. -/
theorem Awaited.mono {top entry : Word} {before after : Memory} {callers : List Caller}
    (h : Awaited platform home before entry callers)
    (hkeeps : platform.stack.Keeps top before after) (hholds : platform.stack.Holds entry)
    (hle : platform.stack.offset top ≤ platform.stack.offset entry) :
    Awaited platform home after entry callers := by
  induction callers generalizing entry with
  | nil => exact (hkeeps.word hholds hle).trans h
  | cons caller callers ih =>
    obtain ⟨hword, hwaits, hrest⟩ := h
    refine ⟨(hkeeps.word hholds hle).trans hword, hwaits, ih hrest hwaits.holds (hle.trans ?_)⟩
    obtain rfl := hwaits.entry_eq
    exact Stack.offset_sub_le (Nat.le_refl 16) hholds

/-- Where nothing is on the stack, it is as on entry. -/
theorem Process.Balanced.rsp_of_depth_zero (h : process.Balanced platform home)
    (hdepth : depthAt lines process.position = 0) :
    process.state.registers .rsp = process.entry := by
  rw [h.rsp_eq, hdepth]
  exact BitVec.sub_zero _

/-- Inside a bracket, the stack is lower than on entry by one word. -/
theorem Process.Balanced.rsp_of_depth_eight (h : process.Balanced platform home)
    (hdepth : depthAt lines process.position = 8) :
    process.state.registers .rsp = process.entry - 8 := by
  rw [h.rsp_eq, hdepth]
  rfl

/-- If there is room for the word on top of the stack, there was room on entry, and the stack is not
higher than it was there. -/
theorem Process.Balanced.entry_holds (hbracketed : Bracketed lines)
    (hconfined : process.Confined platform) (h : process.Balanced platform home) :
    platform.stack.Holds process.entry ∧
      platform.stack.offset (process.state.registers .rsp) ≤
        platform.stack.offset process.entry := by
  have htop := hconfined.top
  rcases hbracketed.depthAt_eq process.position with hdepth | hdepth
  · rw [h.rsp_of_depth_zero hdepth] at htop ⊢
    exact ⟨htop, Nat.le_refl _⟩
  · rw [h.rsp_of_depth_eight hdepth] at htop ⊢
    exact ⟨h.holds hdepth, Stack.offset_sub_le (by decide) htop⟩

/-- A step leaves the stack from `rsp` on as it was. -/
theorem Process.Step.keeps (hbracketed : Bracketed lines)
    (hselected : ∀ line ∈ lines, line.IsSelected) (hstep : process.Step platform next)
    (hconfined : process.Confined platform) (h : process.Balanced platform home) :
    platform.stack.Keeps (process.state.registers .rsp) process.state.memory
      next.state.memory := by
  cases hstep with
  | next hline houtcome =>
    refine keeps_of_next platform.data_apart (hselected _ (List.mem_of_getElem? hline)) ?_ houtcome
    rintro rfl
    exact hconfined.stores hline
  | jump hline houtcome htarget =>
    obtain ⟨-, rfl⟩ := exitOf_executeLine houtcome
    exact fun _ _ _ => rfl
  | enter hline houtcome htarget =>
    obtain ⟨rfl, rfl⟩ := exitOf_executeLine houtcome
    exact Stack.keeps_setWord_below
  | library hline houtcome houtside hreturns =>
    -- the function that reads is called with the address of a symbol in `rsi`
    obtain ⟨rfl, rfl⟩ := exitOf_executeLine houtcome
    refine platform.stack_of_returns hreturns fun hreader => ?_
    refine h.aimed ((hbracketed.fits_at hline).2 hreader) fun name hlabel => ?_
    exact absurd (hline.symm.trans hlabel) nofun
  | leave hline houtcome htarget hword =>
    obtain ⟨-, rfl⟩ := exitOf_executeLine houtcome
    exact fun _ _ _ => rfl

/-- What waits on the stack is still there after a step. -/
theorem Process.Step.awaited (hbracketed : Bracketed lines)
    (hselected : ∀ line ∈ lines, line.IsSelected) (hstep : process.Step platform next)
    (hconfined : process.Confined platform) (h : process.Balanced platform home) :
    Awaited platform home next.state.memory process.entry process.callers := by
  obtain ⟨hholds, hle⟩ := h.entry_holds hbracketed hconfined
  exact h.awaited.mono (hstep.keeps hbracketed hselected hconfined h) hholds hle

/-- A return goes to the address that the call has put on the stack. -/
theorem Awaited.position_eq (hbracketed : Bracketed lines) {memory : Memory} {entry : Word}
    {caller : Caller} {callers : List Caller}
    (h : Awaited platform home memory entry (caller :: callers)) {target : Nat}
    {content : Assembly.Instruction} (htarget : lines[target]? = some (.instruction content))
    (hword : memory.word entry = platform.code target) : target = caller.position := by
  obtain ⟨hcode, hwaits, -⟩ := h
  obtain ⟨content', hcontent⟩ := hbracketed.exists_instruction hwaits.depth_eq
  exact platform.code_inj htarget hcontent (hword.symm.trans hcode)

/-- A step keeps the stack balanced. -/
theorem Process.Step.balanced (hbracketed : Bracketed lines)
    (hselected : ∀ line ∈ lines, line.IsSelected) (hstep : process.Step platform next)
    (hconfined : process.Confined platform) (h : process.Balanced platform home) :
    next.Balanced platform home := by
  have hawaited := hstep.awaited hbracketed hselected hconfined h
  have hholds := (h.entry_holds hbracketed hconfined).1
  cases hstep with
  | @next position line state after entry callers hline houtcome =>
    refine ⟨?_, h.entry_mod, fun _ => hholds, fun haimed _ => ?_, hawaited⟩
    · have hrsp := rsp_of_next houtcome
      rw [h.rsp_eq, BitVec.sub_sub, ← BitVec.ofInt_add, ← depthAt_succ hline] at hrsp
      exact hrsp
    · rw [aimedAt_succ hline] at haimed
      rcases rsi_of_next haimed houtcome with ⟨symbol, hrsi⟩ | ⟨hbefore, hrsi⟩
      · exact hrsi ▸ platform.data_apart symbol
      · refine hrsi ▸ h.aimed hbefore fun name hlabel => ?_
        obtain rfl := Option.some.inj (hline.symm.trans hlabel)
        contradiction
  | @jump position target line symbol state after entry callers hline houtcome htarget =>
    -- jumps and labels stand outside all brackets, so it does not matter which way control goes
    obtain ⟨hjump, rfl⟩ := exitOf_executeLine houtcome
    have hdepth : depthAt lines position = 0 := by
      obtain rfl | rfl := hjump <;> exact hbracketed.fits_at hline
    have hthere : depthAt lines target = 0 := hbracketed.fits_at htarget
    refine ⟨?_, h.entry_mod, fun _ => hholds, fun _ hlabel => absurd htarget (hlabel _), hawaited⟩
    rw [hthere, h.rsp_of_depth_zero hdepth]
    exact (BitVec.sub_zero _).symm
  | @enter position target line symbol state before entry callers hline houtcome htarget =>
    -- the word of the bracket and the return address make up for what alignment asks for
    obtain ⟨rfl, rfl⟩ := exitOf_executeLine houtcome
    have hdepth : depthAt lines position = 8 := (hbracketed.fits_at hline).1
    have hthere : depthAt lines target = 0 := hbracketed.fits_at htarget
    have hrsp := h.rsp_of_depth_eight hdepth
    have hmod := h.entry_mod
    refine ⟨?_, ?_, fun hbelow => ?_, fun _ hlabel => absurd htarget (hlabel _), ?_,
      ⟨?_, ?_, ?_, hholds⟩, hawaited⟩
    · rw [hthere]
      exact (BitVec.sub_zero _).symm
    · simp only [rsp_pushWord]
      bv_omega
    · rw [hthere] at hbelow
      contradiction
    · exact Memory.word_setWord _ _ _
    · simp only [rsp_pushWord]
      bv_omega
    · rw [depthAt_succ hline, hdepth]
      rfl
    · rw [aimedAt_succ hline]
      rfl
  | @library position line symbol state before after entry callers hline houtcome _ hreturns =>
    obtain ⟨rfl, rfl⟩ := exitOf_executeLine houtcome
    refine ⟨?_, h.entry_mod, fun _ => hholds, fun haimed => ?_, hawaited⟩
    · rw [platform.rsp_of_returns hreturns, h.rsp_eq, depthAt_succ hline]
      simp [Line.pushes]
    · rw [aimedAt_succ hline] at haimed
      contradiction
  | @leave position target line content state after entry caller callers hline houtcome htarget
      hword =>
    -- `rsp` is as on entry, so the word on top is the one that the call has put there
    obtain ⟨rfl, rfl⟩ := exitOf_executeLine houtcome
    have hdepth : depthAt lines position = 0 := hbracketed.fits_at hline
    have hrsp := h.rsp_of_depth_zero hdepth
    rw [hrsp] at hword
    obtain rfl := h.awaited.position_eq hbracketed htarget hword
    obtain ⟨-, hwaits, hrest⟩ := hawaited
    have hentry := hwaits.entry_eq
    have hmod := h.entry_mod
    simp only at hentry hmod hrsp
    refine ⟨?_, ?_, fun _ => hwaits.holds, fun haimed => ?_, hrest⟩
    · rw [hwaits.depth_eq, State.registers_setRegister, hrsp, hentry]
      simp only
      bv_omega
    · simp only
      bv_omega
    · rw [hwaits.aimed_eq] at haimed
      contradiction

/-- A run keeps the stack balanced. -/
theorem Process.Runs.balanced (hbracketed : Bracketed lines)
    (hselected : ∀ line ∈ lines, line.IsSelected) {passed : List Process}
    (hruns : process.Runs platform passed last)
    (hconfined : ∀ process ∈ passed, process.Confined platform)
    (h : process.Balanced platform home) : last.Balanced platform home := by
  induction hruns with
  | here => exact h
  | step hstep _ ih =>
    obtain ⟨hfirst, hrest⟩ := List.forall_mem_cons.mp hconfined
    exact ih hrest (hstep.balanced hbracketed hselected hfirst h)

/-- A return takes the address off the stack and goes to it, and does nothing else. -/
theorem Process.Step.eq_of_ret {position : Nat} {state : State} {entry : Word} {caller : Caller}
    {callers : List Caller}
    (h : Process.Step platform ⟨position, state, entry, caller :: callers⟩ next)
    (hline : lines[position]? = some (.instruction .ret))
    (hposition : ∀ target content, lines[target]? = some (.instruction content) →
      state.memory.word (state.registers .rsp) = platform.code target → target = caller.position) :
    next = ⟨caller.position, state.setRegister .rsp (state.registers .rsp + 8), caller.entry,
      callers⟩ := by
  cases h with
  | next hline' houtcome | jump hline' houtcome | enter hline' houtcome
  | library hline' houtcome =>
    obtain rfl := Option.some.inj (hline.symm.trans hline')
    contradiction
  | leave hline' houtcome htarget hword =>
    obtain rfl := Option.some.inj (hline.symm.trans hline')
    obtain rfl := Outcome.ret.inj houtcome
    rw [hposition _ _ htarget hword]

/-- The stack is as it has to be where something is called and where a function returns. -/
structure Process.StackKept (platform : Platform lines) (home : Word) (process : Process) :
    Prop where
  /-- At a call, `rsp` is a multiple of sixteen. -/
  aligned : ∀ symbol, lines[process.position]? = some (.instruction (.call symbol)) →
    (process.state.registers .rsp).toNat % 16 = 0
  /-- At a return, `rsp` is what it was on entry to the function. -/
  restored : lines[process.position]? = some (.instruction .ret) →
    process.state.registers .rsp = process.entry
  /-- A return goes back to the line behind the call, and nowhere else. -/
  returns : lines[process.position]? = some (.instruction .ret) →
    ∀ caller callers, process.callers = caller :: callers → ∀ next, process.Step platform next ↔
      next = ⟨caller.position, process.state.setRegister .rsp (process.entry + 8), caller.entry,
        callers⟩
  /-- The first function returns to the address that it was entered with. -/
  returns_home : lines[process.position]? = some (.instruction .ret) → process.callers = [] →
    process.state.memory.word (process.state.registers .rsp) = home

/-- A balanced stack is as it has to be. -/
theorem Process.Balanced.stackKept (hbracketed : Bracketed lines)
    (h : process.Balanced platform home) : process.StackKept platform home where
  aligned symbol hline := by
    have hrsp := h.rsp_of_depth_eight (hbracketed.fits_at hline).1
    have hmod := h.entry_mod
    rw [hrsp]
    bv_omega
  restored hline := h.rsp_of_depth_zero (hbracketed.fits_at hline)
  returns hline caller callers hcallers next := by
    have hrsp := h.rsp_of_depth_zero (hbracketed.fits_at hline)
    have hawaited := h.awaited
    obtain ⟨position, state, entry, _⟩ := process
    simp only at hline hrsp hcallers hawaited
    subst hcallers
    rw [← hrsp]
    constructor
    · intro hstep
      exact hstep.eq_of_ret hline fun target content htarget hword =>
        hawaited.position_eq hbracketed htarget (hrsp ▸ hword)
    · rintro rfl
      obtain ⟨hword, hwaits, -⟩ := hawaited
      obtain ⟨content, hcontent⟩ := hbracketed.exists_instruction hwaits.depth_eq
      exact .leave hline rfl hcontent (hrsp ▸ hword)
  returns_home hline hcallers := by
    have hawaited := h.awaited
    rw [hcallers] at hawaited
    rw [h.rsp_of_depth_zero (hbracketed.fits_at hline)]
    exact hawaited

end Balance

end Processor

open Assembly Processor

/-- In every run of a unit that enters a function from outside, with `rsp` as a call of it from a
function with an aligned stack leaves it, and through any calls of functions of the unit and any
jumps, the stack is aligned at every call and as on entry at every return, which goes back to the
caller. This holds as long as there is room on the stack and no index leads from an array there. -/
theorem CodeUnit.stack_kept {unit : CodeUnit} {options : Options} {lines : List Line}
    (hlines : unit.assemblyLines options = .ok lines) (platform : Platform lines)
    {function : String} {position : Nat} {state : State} {passed : List Process} {last : Process}
    (hentry : lines[position]? = some (.label (Symbol.ofFunction function)))
    (hrsp : (state.registers .rsp).toNat % 16 = 8)
    (hruns : (Process.entering position state).Runs platform passed last)
    (hconfined : ∀ process ∈ passed, process.Confined platform) :
    last.StackKept platform (state.memory.word (state.registers .rsp)) := by
  have hbracketed := unit.bracketed_assemblyLines hlines
  have hselected := unit.isSelected_of_assemblyLines hlines
  have hdepth : depthAt lines position = 0 := hbracketed.fits_at hentry
  have hbalanced : (Process.entering position state).Balanced platform
      (state.memory.word (state.registers .rsp)) := by
    refine ⟨?_, hrsp, fun hinside => ?_, fun _ hlabel => absurd hentry (hlabel _), rfl⟩
    · rw [Process.entering, hdepth]
      exact (BitVec.sub_zero _).symm
    · rw [Process.entering, hdepth] at hinside
      contradiction
  exact (hruns.balanced hbracketed hselected hconfined hbalanced).stackKept hbracketed

section Samples

/-- The code of a function that calls another. -/
def nested : CodeUnit where
  decls := [.function .int "main" [], .function .int "f" []]
  strings := .empty
  code :=
    [⟨none, .enter "main"⟩, ⟨none, .call "f" (.temporary ⟨1⟩)⟩, ⟨none, .leave⟩,
     ⟨none, .enter "f"⟩, ⟨none, .ret (.constant (.int 7))⟩]

/-- The lines of the function that calls another. -/
def nestedLines : List Line :=
  [.label "main", .instruction (.push .rbp), .instruction (.call "fn.f"),
   .instruction (.mov (.register .rax) (.memory "storage_1")), .instruction (.pop .rbp),
   .instruction .ret, .label "fn.f", .instruction (.mov (.immediate 7) (.register .rax)),
   .instruction .ret]

/-- A platform for a few lines, which lie far from the stack. All words of symbols are at the lowest
addresses, and no library function can be called. -/
def smallPlatform (lines : List Line) (hlines : lines.length ≤ 16) (stack : Stack)
    (hstack : stack.IsApart 0) : Platform lines where
  address _ := 0
  undefined _ state := state.flags
  returns _ _ _ := False
  code position := BitVec.ofNat 64 (4194304 + position)
  code_inj {first second _ _} hfirst hsecond h := by
    have hlt : first < lines.length := (List.getElem?_eq_some_iff.mp hfirst).1
    have hlt' : second < lines.length := (List.getElem?_eq_some_iff.mp hsecond).1
    bv_omega
  stack := stack
  data_apart _ := hstack
  rsp_of_returns := False.elim
  stack_of_returns := False.elim

/-- A stack below the address 32768, a multiple of sixteen words. -/
def smallStack : Stack where
  low := 16384
  size := 16384
  size_lt := by decide

/-- The lowest word is not on that stack. -/
theorem smallStack_isApart : smallStack.IsApart 0 := by
  intro place hplace
  unfold Stack.offset smallStack at hplace
  bv_omega

/-- A processor in front of a function, with the stack as a call leaves it. -/
def smallStart : State where
  registers register := if register = .rsp then 32760 else 0
  flags := ⟨false, false, false, false, false, false⟩
  memory _ := 0

/-- A platform with the lines of the function that calls another. -/
def nestedPlatform : Platform nestedLines :=
  smallPlatform nestedLines (by decide) smallStack smallStack_isApart

/-- The function that calls another can be executed up to its return. -/
theorem exists_runs_nested :
    ∃ passed last, (Process.entering 0 smallStart).Runs nestedPlatform passed last ∧
      passed.length = 8 ∧ last.position = 5 ∧
      ∀ process ∈ passed, process.Confined nestedPlatform := by
  have hlabel : nestedLines[6]? = some (.label "fn.f") := rfl
  have hbehind : nestedLines[3]? =
      some (.instruction (.mov (.register .rax) (.memory "storage_1"))) := rfl
  refine ⟨_, _, .step (.next rfl rfl) <| .step (.next rfl rfl) <|
    .step (.enter rfl rfl hlabel) <| .step (.next rfl rfl) <| .step (.next rfl rfl) <|
    .step (.leave rfl rfl hbehind ?_) <| .step (.next rfl rfl) <| .step (.next rfl rfl) <|
    .here _, rfl, rfl, ?_⟩
  · exact Memory.word_setWord _ _ _
  · simp only [List.forall_mem_cons]
    refine ⟨⟨?_, nofun⟩, ⟨?_, nofun⟩, ⟨?_, nofun⟩, ⟨?_, nofun⟩, ⟨?_, nofun⟩, ⟨?_, nofun⟩,
      ⟨?_, nofun⟩, ⟨?_, nofun⟩, nofun⟩ <;> decide

/-- The function that calls another has the stack as on entry at its return. -/
theorem nested_stack_kept :
    nested.assemblyLines ⟨false, false⟩ = .ok nestedLines ∧
      nestedLines[0]? = some (.label (Symbol.ofFunction "main")) ∧
      (smallStart.registers .rsp).toNat % 16 = 8 ∧
      ∃ passed last, (Process.entering 0 smallStart).Runs nestedPlatform passed last ∧
        passed.length = 8 ∧ nestedLines[last.position]? = some (.instruction .ret) ∧
        (∀ process ∈ passed, process.Confined nestedPlatform) ∧
        last.StackKept nestedPlatform (smallStart.memory.word 32760) := by
  have hlines : nested.assemblyLines ⟨false, false⟩ = .ok nestedLines := by decide
  have hentry : nestedLines[0]? = some (.label (Symbol.ofFunction "main")) := by decide
  have hrsp : (smallStart.registers .rsp).toNat % 16 = 8 := by decide
  obtain ⟨passed, last, hruns, hlength, hlast, hconfined⟩ := exists_runs_nested
  refine ⟨hlines, hentry, hrsp, passed, last, hruns, hlength, ?_, hconfined, ?_⟩
  · rw [hlast]
    rfl
  · exact CodeUnit.stack_kept hlines nestedPlatform hentry hrsp hruns hconfined

/-- The stack is kept in all runs with a condition on the processors that are passed. -/
def StackKeptWhile (condition : ∀ lines, Platform lines → Process → Prop) : Prop :=
  ∀ (unit : CodeUnit) (options : Options) (lines : List Line) (platform : Platform lines)
    (function : String) (position : Nat) (state : State) (passed : List Process) (last : Process),
    unit.assemblyLines options = .ok lines →
      lines[position]? = some (.label (Symbol.ofFunction function)) →
      (state.registers .rsp).toNat % 16 = 8 →
      (Process.entering position state).Runs platform passed last →
      (∀ process ∈ passed, condition lines platform process) →
      last.StackKept platform (state.memory.word (state.registers .rsp))

/-- The code of a function that calls another, which stores far behind the end of an array. -/
def overwriting : CodeUnit where
  decls := [.array .int "v" 1 [], .function .int "main" [], .function .int "f" []]
  strings := .empty
  code :=
    [⟨none, .enter "main"⟩, ⟨none, .call "f" (.temporary ⟨1⟩)⟩, ⟨none, .leave⟩,
     ⟨none, .enter "f"⟩,
     ⟨none, .copyIntoArray "v" (.constant (.int 4093)) (.constant (.int 4194305))⟩,
     ⟨none, .leave⟩]

/-- The lines of the function that calls another, and of the one that stores. -/
def overwritingLines : List Line :=
  [.label "main", .instruction (.push .rbp), .instruction (.call "fn.f"),
   .instruction (.mov (.register .rax) (.memory "storage_1")), .instruction (.pop .rbp),
   .instruction .ret, .label "fn.f", .instruction (.mov (.immediate 4093) (.register .rcx)),
   .instruction (.lea (.memory "_v") .rax), .instruction (.lea (.indexed .rax .rcx) .rcx),
   .instruction (.mov (.immediate 4194305) (.register .rax)),
   .instruction (.mov (.register .rax) (.indirect .rcx)), .instruction .ret]

/-- A platform with the lines of these two. -/
def overwritingPlatform (stack : Stack) (hstack : stack.IsApart 0) : Platform overwritingLines :=
  smallPlatform overwritingLines (by decide) stack hstack

/-- The position of a processor, the stack pointer and the address that it may store at. -/
def Processor.Process.pointers (process : Process) : Nat × Word × Word :=
  (process.position, process.state.registers .rsp, process.state.registers .rcx)

/-- What is passed when the address on the stack is overwritten. -/
def overwritingTrace : List (Nat × Word × Word) :=
  [(0, 32760, 0), (1, 32760, 0), (2, 32752, 0), (6, 32744, 0), (7, 32744, 0), (8, 32744, 4093),
   (9, 32744, 4093), (10, 32744, 32744), (11, 32744, 32744), (12, 32744, 32744), (1, 32752, 32744)]

/-- The address on the stack is overwritten with that of the line that opens the bracket. So the
called function returns there, and is called again with the stack lower by a word. -/
theorem exists_runs_overwriting (stack : Stack) (hstack : stack.IsApart 0) :
    ∃ passed last, (Process.entering 0 smallStart).Runs (overwritingPlatform stack hstack) passed
        last ∧
      passed.map Process.pointers = overwritingTrace ∧ last.pointers = (2, 32744, 32744) := by
  have hlabel : overwritingLines[6]? = some (.label "fn.f") := rfl
  have hbehind : overwritingLines[1]? = some (.instruction (.push .rbp)) := rfl
  refine ⟨_, _, .step (.next rfl rfl) <| .step (.next rfl rfl) <|
    .step (.enter rfl rfl hlabel) <| .step (.next rfl rfl) <| .step (.next rfl rfl) <|
    .step (.next rfl rfl) <| .step (.next rfl rfl) <| .step (.next rfl rfl) <|
    .step (.next rfl rfl) <| .step (.leave rfl rfl hbehind
      ((congrArg (Memory.word _) ?_).trans ((Memory.word_setWord _ _ _).trans ?_))) <|
    .step (.next rfl rfl) <| .here _, ?_, ?_⟩
  all_goals
    dsimp only [overwritingPlatform, smallPlatform]
    decide +kernel

/-- The stack is not kept if what is passed there satisfies the condition. -/
theorem not_stackKeptWhile {condition : ∀ lines, Platform lines → Process → Prop} (stack : Stack)
    (hstack : stack.IsApart 0)
    (hcondition : ∀ process : Process, process.pointers ∈ overwritingTrace →
      condition overwritingLines (overwritingPlatform stack hstack) process) :
    ¬ StackKeptWhile condition := by
  intro h
  obtain ⟨passed, last, hruns, htrace, hlast⟩ := exists_runs_overwriting stack hstack
  have hkept := h overwriting ⟨false, false⟩ overwritingLines _ "main" 0 smallStart passed last
    (by decide) (by decide) (by decide) hruns fun process hpassed =>
      hcondition process (htrace ▸ List.mem_map_of_mem hpassed)
  obtain ⟨hposition, hregisters⟩ := Prod.mk.inj hlast
  obtain ⟨hrsp, -⟩ := Prod.mk.inj hregisters
  have haligned := hkept.aligned "fn.f" (hposition ▸ rfl)
  rw [hrsp] at haligned
  contradiction

/-- A stack with room for two words. -/
def tinyStack : Stack where
  low := 32752
  size := 16
  size_lt := by decide

/-- The stack is not kept in all runs. Neither is it if there is always room on the stack, because
an index may lead from an array onto it, nor if no index does so, because the stack may grow into
the place of something else. -/
theorem stack_not_kept :
    ¬ StackKeptWhile (fun _ _ _ => True) ∧
      ¬ StackKeptWhile
        (fun _ platform process => platform.stack.Holds (process.state.registers .rsp)) ∧
      ¬ StackKeptWhile (fun lines platform process =>
        lines[process.position]? = some (.instruction (.mov (.register .rax) (.indirect .rcx))) →
          platform.stack.IsApart (process.state.registers .rcx)) := by
  have hroom : ∀ pointers ∈ overwritingTrace, smallStack.Holds pointers.2.1 := by decide
  have hstores : ∀ pointers ∈ overwritingTrace,
      overwritingLines[pointers.1]? =
        some (.instruction (.mov (.register .rax) (.indirect .rcx))) →
      pointers.2.2 = 32744 := by decide
  have htiny : tinyStack.IsApart 0 ∧ tinyStack.IsApart 32744 := by
    unfold Stack.IsApart Stack.offset tinyStack
    constructor <;> intro place hplace <;> bv_omega
  refine ⟨?_, ?_, ?_⟩
  · exact not_stackKeptWhile smallStack smallStack_isApart fun _ _ => trivial
  · exact not_stackKeptWhile smallStack smallStack_isApart fun process => hroom process.pointers
  · refine not_stackKeptWhile tinyStack htiny.1 fun process htrace hline => ?_
    have hrcx : process.state.registers .rcx = 32744 := hstores _ htrace hline
    rw [hrcx]
    exact htiny.2

end Samples

end ThreeAddress
