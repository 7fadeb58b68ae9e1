import Mathlib.Data.BitVec

/-!
# Words in memory

Memory is addressed byte by byte, and addresses wrap around. A word takes eight bytes, the lowest
first. What has been written is read back, and writing back what is there already changes nothing.
-/

namespace ThreeAddress

namespace Processor

/-- A machine word; addresses are words too. -/
abbrev Word := BitVec 64

/-- A byte for every address. -/
abbrev Memory := Word → BitVec 8

/-- A byte of a value. -/
def byteOf {width : Nat} (value : BitVec width) (index : Nat) : BitVec 8 :=
  value.extractLsb' (8 * index) 8

/-- A value is determined by its bytes. -/
theorem eq_of_byteOf_eq {count : Nat} {first second : BitVec (8 * count)}
    (h : ∀ index < count, byteOf first index = byteOf second index) : first = second := by
  apply BitVec.eq_of_getLsbD_eq
  intro bit hbit
  have hbyte := congrArg (fun byte => byte.getLsbD (bit % 8)) (h (bit / 8) (by omega))
  have hlt : bit % 8 < 8 := Nat.mod_lt bit (by decide)
  simpa only [byteOf, BitVec.getLsbD_extractLsb', hlt, decide_true, Bool.true_and,
    Nat.div_add_mod] using hbyte

namespace Memory

/-- The value of a number of bytes from an address on. -/
def bytes (memory : Memory) (address : Word) : (count : Nat) → BitVec (8 * count)
  | 0 => 0#0
  | count + 1 => bytes memory (address + 1) count ++ memory address

/-- The memory after a number of bytes from an address on are written. -/
def setBytes (memory : Memory) (address : Word) (count : Nat) (value : BitVec (8 * count)) :
    Memory :=
  fun place =>
    if (place - address).toNat < count then byteOf value (place - address).toNat
    else memory place

/-- The word at an address. -/
def word (memory : Memory) (address : Word) : Word := memory.bytes address 8

/-- The memory after the word at an address is written. -/
def setWord (memory : Memory) (address value : Word) : Memory := memory.setBytes address 8 value

variable {memory : Memory} {address : Word} {count : Nat}

/-- The distance of a byte from the first is its index. -/
theorem offset_toNat {index : Nat} (h : index < 2 ^ 64) :
    (address + BitVec.ofNat 64 index - address).toNat = index := by
  rw [BitVec.add_comm, BitVec.add_sub_cancel, BitVec.toNat_ofNat]
  exact Nat.mod_eq_of_lt h

/-- The bytes of a value that is read are those in memory. -/
theorem byteOf_bytes {index : Nat} (h : index < count) :
    byteOf (memory.bytes address count) index = memory (address + BitVec.ofNat 64 index) := by
  induction count generalizing address index with
  | zero => exact absurd h (Nat.not_lt_zero index)
  | succ count ih =>
    cases index with
    | zero =>
      apply BitVec.eq_of_getLsbD_eq
      intro bit hbit
      simp [byteOf, bytes, BitVec.getLsbD_append, hbit]
    | succ index =>
      have hnext : address + BitVec.ofNat 64 (index + 1) = address + 1 + BitVec.ofNat 64 index := by
        rw [BitVec.add_assoc, Nat.add_comm index 1, BitVec.ofNat_add]
        rfl
      rw [hnext, ← ih (Nat.lt_of_succ_lt_succ h)]
      apply BitVec.eq_of_getLsbD_eq
      intro bit hbit
      have hbehind : ¬ 8 * (index + 1) + bit < 8 := by omega
      have hsub : 8 * (index + 1) + bit - 8 = 8 * index + bit := by omega
      simp only [byteOf, bytes, BitVec.getLsbD_extractLsb', BitVec.getLsbD_append, hbehind,
        hsub, if_false]

/-- What is written is read back. -/
theorem bytes_setBytes (hcount : count ≤ 2 ^ 64) (value : BitVec (8 * count)) :
    (memory.setBytes address count value).bytes address count = value := by
  apply eq_of_byteOf_eq
  intro index hindex
  rw [byteOf_bytes hindex, setBytes, offset_toNat (Nat.lt_of_lt_of_le hindex hcount),
    if_pos hindex]

/-- Writing back what is read changes nothing. -/
theorem setBytes_bytes : memory.setBytes address count (memory.bytes address count) = memory := by
  funext place
  by_cases hinside : (place - address).toNat < count
  · rw [setBytes, if_pos hinside, byteOf_bytes hinside, BitVec.ofNat_toNat, BitVec.setWidth_eq,
      BitVec.add_comm, BitVec.sub_add_cancel]
  · rw [setBytes, if_neg hinside]

/-- The word that is written is read back. -/
@[simp] theorem word_setWord (memory : Memory) (address value : Word) :
    (memory.setWord address value).word address = value := by
  unfold word setWord
  apply bytes_setBytes
  decide

/-- Writing back the word that is there changes nothing. -/
@[simp] theorem setWord_word (memory : Memory) (address : Word) :
    memory.setWord address (memory.word address) = memory :=
  setBytes_bytes

end Memory

end Processor

end ThreeAddress
