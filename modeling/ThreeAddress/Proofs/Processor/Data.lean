import ThreeAddress.Proofs.Processor.Straight

/-!
# Data in memory

A symbol of the data section stands for the words from its address on: one for a variable, a
parameter or a temporary, and one for every element of an array. If the words of different symbols
have no byte in common and no symbol has more words than fit into memory, a write to one word leaves
all others as they are.
-/

namespace ThreeAddress

namespace Processor

namespace Memory

/-- Two words have no byte in common. -/
def Apart (first second : Word) : Prop :=
  ∀ place : Word, 8 ≤ (place - first).toNat ∨ 8 ≤ (place - second).toNat

/-- A write leaves a word as it is that has no byte in common with what is written. -/
theorem word_setWord_of_apart {memory : Memory} {address other value : Word}
    (h : Apart address other) : (memory.setWord address value).word other = memory.word other := by
  refine @eq_of_byteOf_eq 8 _ _ fun index hindex => ?_
  have hoffset : (other + BitVec.ofNat 64 index - other).toNat = index :=
    offset_toNat (Nat.lt_trans hindex (by decide))
  have houtside := (h (other + BitVec.ofNat 64 index)).resolve_right (by omega)
  rw [word, word, byteOf_bytes hindex, byteOf_bytes hindex, setWord, setBytes,
    if_neg (Nat.not_lt_of_le houtside)]

/-- Words that are counted from the same address are apart if they fit into memory. -/
theorem apart_of_index_ne {address : Word} {first second : Nat} (hfirst : 8 * first < 2 ^ 64)
    (hsecond : 8 * second < 2 ^ 64) (hne : first ≠ second) :
    Apart (address + 8 * BitVec.ofNat 64 first) (address + 8 * BitVec.ofNat 64 second) := by
  intro place
  have hfrom : ∀ index, 8 * index < 2 ^ 64 →
      (place - (address + 8 * BitVec.ofNat 64 index)).toNat =
        (2 ^ 64 - 8 * index + (place - address).toNat) % 2 ^ 64 := by
    intro index hindex
    bv_omega
  have hplace := (place - address).isLt
  rw [hfrom first hfirst, hfrom second hsecond]
  omega

end Memory

/-- A word of the data: the one behind as many others of the same symbol as its index says. -/
@[ext]
structure Slot where
  /-- The symbol. -/
  symbol : String
  /-- The number of words before it. -/
  index : Nat
  deriving DecidableEq

/-- The words in all slots. -/
abbrev Data := Slot → Word

/-- A slot is one of the words that a symbol has. -/
def Slot.Within (slot : Slot) (words : String → Nat) : Prop := slot.index < words slot.symbol

/-- Whether a slot is one of the words of its symbol is decided by its index. -/
instance (slot : Slot) (words : String → Nat) : Decidable (slot.Within words) :=
  inferInstanceAs (Decidable (slot.index < words slot.symbol))

/-- The address of a slot. -/
def Host.slotAddress (host : Host) (slot : Slot) : Word :=
  host.address slot.symbol + 8 * BitVec.ofNat 64 slot.index

/-- Symbols have so many words, and these have their own places in memory. -/
structure Host.LaysOut (host : Host) (words : String → Nat) : Prop where
  /-- The words of a symbol fit into memory. -/
  fits : ∀ symbol, 8 * words symbol ≤ 2 ^ 64
  /-- The words of different symbols are apart. -/
  apart : ∀ first second : Slot, first.Within words → second.Within words →
    first.symbol ≠ second.symbol →
      Memory.Apart (host.slotAddress first) (host.slotAddress second)

/-- The data that a processor holds in memory. -/
def State.data (host : Host) (state : State) : Data :=
  fun slot => state.memory.word (host.slotAddress slot)

variable {host : Host} {words : String → Nat} {state : State} {slot other : Slot} {value : Word}

/-- Different slots are apart. -/
theorem Host.LaysOut.apart_of_ne (h : host.LaysOut words) (hslot : slot.Within words)
    (hother : other.Within words) (hne : slot ≠ other) :
    Memory.Apart (host.slotAddress slot) (host.slotAddress other) := by
  by_cases hsymbol : slot.symbol = other.symbol
  · have hindex : slot.index ≠ other.index := fun hindex => hne (Slot.ext hsymbol hindex)
    have hfits := h.fits other.symbol
    rw [Host.slotAddress, Host.slotAddress, hsymbol]
    rw [Slot.Within, hsymbol] at hslot
    rw [Slot.Within] at hother
    exact Memory.apart_of_index_ne (by omega) (by omega) hindex
  · exact h.apart slot other hslot hother hsymbol

/-- A write to a slot changes the data there, and nowhere else. -/
theorem State.data_setWord (h : host.LaysOut words) (hslot : slot.Within words)
    (hother : other.Within words) :
    (state.setWord (host.slotAddress slot) value).data host other =
      Function.update (state.data host) slot value other := by
  by_cases heq : other = slot
  · subst heq
    rw [Function.update_self]
    exact Memory.word_setWord _ _ _
  · rw [Function.update_of_ne heq]
    exact Memory.word_setWord_of_apart (h.apart_of_ne hslot hother (Ne.symm heq))

section Places

variable {place : Storage}

/-- The slot of a place; constants and addresses of texts are not in memory. -/
def slot? : Storage → Option Slot
  | .variable name => some ⟨Symbol.ofVariable name, 0⟩
  | .parameter function name => some ⟨Symbol.ofParameter function name, 0⟩
  | .temporary id => some ⟨id.symbol, 0⟩
  | .constant _ | .string _ => none

/-- The slot of an element of an array. -/
def elementSlot (array : String) (index : Word) : Slot := ⟨Symbol.ofVariable array, index.toNat⟩

/-- The word in a place: the bits of a constant, the address of a text, and otherwise the word in
the slot. -/
def Data.contents (host : Host) (data : Data) : Storage → Word
  | .constant value => value.word.toBitVec
  | .string id => host.address id.symbol
  | .temporary id => data ⟨id.symbol, 0⟩
  | .variable name => data ⟨Symbol.ofVariable name, 0⟩
  | .parameter function name => data ⟨Symbol.ofParameter function name, 0⟩

/-- The first word of a symbol is at its address. -/
@[simp] theorem Host.slotAddress_first (host : Host) (symbol : String) :
    host.slotAddress ⟨symbol, 0⟩ = host.address symbol :=
  BitVec.add_zero _

/-- The address of an element is as many words behind that of its array as its index says. -/
theorem Host.slotAddress_element (host : Host) (array : String) (index : Word) :
    host.slotAddress (elementSlot array index) =
      host.address (Symbol.ofVariable array) + 8 * index := by
  rw [slotAddress, elementSlot, BitVec.ofNat_toNat, BitVec.setWidth_eq]

/-- The processor finds in a place what the data has there. -/
theorem State.contents_eq (host : Host) (state : State) (place : Storage) :
    state.contents host place = (state.data host).contents host place := by
  cases place <;> simp only [State.contents, Data.contents, State.data, Host.slotAddress_first]

/-- A place with a slot can be stored into, and a store puts the word of `rax` into the slot. -/
theorem exists_store_of_slot? (h : slot? place = some slot) :
    ∃ line, Assembly.store place = .ok line ∧ ∀ (host : Host) (state : State),
      state.executeLine host line =
        .next (state.setWord (host.slotAddress slot) (state.registers .rax)) := by
  cases place with
  | constant | string => contradiction
  | «variable» | parameter | temporary =>
    obtain rfl := Option.some.inj h
    refine ⟨_, rfl, fun host state => ?_⟩
    rw [Host.slotAddress_first]
    rfl

end Places

end Processor

end ThreeAddress
