import ThreeAddress.Assembly.Data
import ThreeAddress.Proofs.Text.Characters

/-!
# String constants are read back

An assembler reads a string constant from its opening quote to the first quote that is not in an
escape. A backslash begins an escape: a quote, a backslash, a letter for a control character, or a
number of up to three octal digits, as many as there are. Read in this way, the constant that is
written for a text is the UTF-8 form of the text, whatever stands next to what in it.
-/

namespace ThreeAddress

namespace Asciz

/-- A character of ASCII that is no control. -/
abbrev IsPrintable (c : Char) : Prop := 0x20 ≤ c.toNat ∧ c.toNat ≤ 0x7e

/-- The byte that a character stands for behind a backslash, numbers apart. -/
def named? : Char → Option UInt8
  | '"' => some 0x22
  | '\\' => some 0x5c
  | 'n' => some 0x0a
  | 't' => some 0x09
  | 'r' => some 0x0d
  | _ => none

/-- The value of an octal digit. -/
def digit? (c : Char) : Option Nat :=
  if '0' ≤ c ∧ c ≤ '7' then some (c.toNat - '0'.toNat) else none

/-- A number with at most some octal digits more, and what is behind them. -/
def numbered : (most : Nat) → (number : Nat) → List Char → Nat × List Char
  | most + 1, number, c :: rest =>
    match digit? c with
    | some digit => numbered most (8 * number + digit) rest
    | none => (number, c :: rest)
  | _, number, text => (number, text)

/-- The byte of the escape behind a backslash, and what is behind the escape. -/
def escaped? : List Char → Option (UInt8 × List Char)
  | [] => none
  | c :: rest =>
    match named? c, digit? c with
    | some byte, _ => some (byte, rest)
    | none, some digit =>
      let (number, behind) := numbered 2 digit rest
      some (UInt8.ofNat number, behind)
    | none, none => none

/-- What is behind a number is part of the text. -/
theorem length_numbered_le (most number : Nat) (text : List Char) :
    (numbered most number text).2.length ≤ text.length := by
  fun_induction numbered most number text with
  | case1 most number c rest digit _ ih => exact Nat.le_succ_of_le ih
  | case2 | case3 => exact Nat.le_refl _

/-- An escape is not empty. -/
theorem length_lt_of_escaped? {text behind : List Char} {byte : UInt8}
    (h : escaped? text = some (byte, behind)) : behind.length < text.length := by
  unfold escaped? at h
  split at h
  · contradiction
  · next c rest =>
    split at h
    · cases h
      exact Nat.lt_succ_self _
    · next digit _ _ =>
      cases h
      exact Nat.lt_succ_of_le (length_numbered_le 2 digit rest)
    · contradiction

/-- The bytes of a string constant from behind its opening quote, and what is behind the closing
one; nothing if there is none, or if something before it can not be read. -/
def read? (text : List Char) : Option (List UInt8 × List Char) :=
  match text with
  | [] => none
  | c :: rest =>
    if c = '"' then some ([], rest)
    else if c = '\\' then
      match _h : escaped? rest with
      | some (byte, behind) => (read? behind).map fun (bytes, last) => (byte :: bytes, last)
      | none => none
    else if IsPrintable c then
      (read? rest).map fun (bytes, last) => (UInt8.ofNat c.toNat :: bytes, last)
    else none
termination_by text.length
decreasing_by
  · exact Nat.lt_succ_of_lt (length_lt_of_escaped? _h)
  · exact Nat.lt_succ_self _

/-- What a string constant is made of: characters that stand for themselves, and escapes. -/
inductive IsPiece : List Char → Prop
  | plain {c : Char} : IsPrintable c → c ≠ '"' → c ≠ '\\' → IsPiece [c]
  | named {c : Char} : (named? c).isSome → IsPiece ['\\', c]
  | numbered {first second third : Char} : (digit? first).isSome → (digit? second).isSome →
      (digit? third).isSome → IsPiece ['\\', first, second, third]

section Reading

variable {c : Char} {text behind rest : List Char} {byte : UInt8}

/-- A byte in front of what is read. -/
def withByte (byte : UInt8) (read : List UInt8 × List Char) : List UInt8 × List Char :=
  (byte :: read.1, read.2)

/-- A quote ends a string constant. -/
theorem read?_quote (rest : List Char) : read? ('"' :: rest) = some ([], rest) := by
  rw [read?, if_pos rfl]

/-- An escape is read as its byte. -/
theorem read?_escaped (h : escaped? text = some (byte, behind)) :
    read? ('\\' :: text) = (read? behind).map (withByte byte) := by
  rw [read?, if_neg (by decide), if_pos rfl]
  split
  · next byte' behind' heq =>
    obtain ⟨rfl, rfl⟩ := Prod.mk.inj (Option.some.inj (heq.symm.trans h))
    rfl
  · next hnone => rw [hnone] at h; contradiction

/-- A character that stands for itself is read as its code. -/
theorem read?_plain (hprintable : IsPrintable c) (hquote : c ≠ '"') (hbackslash : c ≠ '\\')
    (rest : List Char) :
    read? (c :: rest) = (read? rest).map (withByte (UInt8.ofNat c.toNat)) := by
  rw [read?, if_neg hquote, if_neg hbackslash, if_pos hprintable]
  rfl

/-- An octal digit has its value, and no other meaning behind a backslash. -/
theorem digit?_digitChar {number : Nat} (h : number < 8) :
    digit? number.digitChar = some number ∧ named? number.digitChar = none := by
  have hall : ∀ number < 8,
      digit? (Nat.digitChar number) = some number ∧ named? (Nat.digitChar number) = none := by
    decide
  exact hall number h

/-- The octal digits of a byte are read as the byte, whatever is behind them. -/
theorem escaped?_octal (byte : UInt8) (rest : List Char) :
    escaped? (octal byte ++ rest) = some (byte, rest) := by
  have hlt := byte.toNat_lt
  obtain ⟨hfirst, hnamed⟩ := digit?_digitChar (show byte.toNat / 64 < 8 by omega)
  obtain ⟨hsecond, -⟩ := digit?_digitChar (show byte.toNat / 8 % 8 < 8 by omega)
  obtain ⟨hthird, -⟩ := digit?_digitChar (show byte.toNat % 8 < 8 by omega)
  have hnumber :
      8 * (8 * (byte.toNat / 64) + byte.toNat / 8 % 8) + byte.toNat % 8 = byte.toNat := by
    omega
  simp [octal, escaped?, numbered, hfirst, hnamed, hsecond, hthird, hnumber]

/-- What is written for a byte is one piece, and is read back as the byte, whatever is behind
it. -/
theorem escapeByte_read (byte : UInt8) (rest : List Char) :
    IsPiece (escapeByte byte) ∧
      read? (escapeByte byte ++ rest) = (read? rest).map (withByte byte) := by
  have hnamed : ∀ c, named? c = some byte → IsPiece ['\\', c] ∧
      read? (['\\', c] ++ rest) = (read? rest).map (withByte byte) := fun c hc =>
    ⟨.named (by simp [hc]), read?_escaped (by simp [escaped?, hc])⟩
  unfold escapeByte
  split_ifs with hquote hbackslash hfeed htab hreturn hrange
  · exact hnamed '"' (congrArg some hquote.symm)
  · exact hnamed '\\' (congrArg some hbackslash.symm)
  · exact hnamed 'n' (congrArg some hfeed.symm)
  · exact hnamed 't' (congrArg some htab.symm)
  · exact hnamed 'r' (congrArg some hreturn.symm)
  · have hlow : 0x20 ≤ byte.toNat := UInt8.le_iff_toNat_le.mp hrange.1
    have hhigh : byte.toNat ≤ 0x7e := UInt8.le_iff_toNat_le.mp hrange.2
    have hcode : (Char.ofNat byte.toNat).toNat = byte.toNat := by
      rw [Char.ofNat, dif_pos (.inl (by omega))]
      rfl
    have hprintable : IsPrintable (Char.ofNat byte.toNat) := by
      rw [IsPrintable, hcode]
      exact ⟨hlow, hhigh⟩
    have hne : ∀ code : Char, byte ≠ UInt8.ofNat code.toNat → Char.ofNat byte.toNat ≠ code := by
      rintro code hcode' rfl
      exact hcode' (by rw [hcode, UInt8.ofNat_toNat])
    refine ⟨.plain hprintable (hne '"' hquote) (hne '\\' hbackslash), ?_⟩
    have hread := read?_plain hprintable (hne '"' hquote) (hne '\\' hbackslash) rest
    rwa [hcode, UInt8.ofNat_toNat] at hread
  · have hlt := byte.toNat_lt
    refine ⟨.numbered ?_ ?_ ?_, read?_escaped (escaped?_octal byte rest)⟩
    · rw [(digit?_digitChar (show byte.toNat / 64 < 8 by omega)).1]
      rfl
    · rw [(digit?_digitChar (show byte.toNat / 8 % 8 < 8 by omega)).1]
      rfl
    · rw [(digit?_digitChar (show byte.toNat % 8 < 8 by omega)).1]
      rfl

/-- What is written for bytes is read back as the bytes, up to the closing quote. -/
theorem read?_escapeBytes (bytes : List UInt8) (behind : List Char) :
    read? (bytes.flatMap escapeByte ++ '"' :: behind) = some (bytes, behind) := by
  induction bytes with
  | nil => exact read?_quote behind
  | cons byte bytes ih =>
    rw [List.flatMap_cons, List.append_assoc, (escapeByte_read byte _).2, ih]
    rfl

/-- Pieces of string constants are printable. -/
theorem IsPiece.isPrintable {piece : List Char} (h : IsPiece piece) :
    ∀ c ∈ piece, IsPrintable c := by
  have hbackslash : IsPrintable '\\' := by decide
  have hdigit : ∀ c, (digit? c).isSome → IsPrintable c := by
    intro c hc
    unfold digit? at hc
    split at hc
    · next hrange =>
      have hlow : '0'.toNat ≤ c.toNat := hrange.1
      have hhigh : c.toNat ≤ '7'.toNat := hrange.2
      exact ⟨Nat.le_trans (by decide) hlow, Nat.le_trans hhigh (by decide)⟩
    · exact absurd hc Bool.false_ne_true
  have hnamed : ∀ c, (named? c).isSome → IsPrintable c := by
    intro c hc
    unfold named? at hc
    split at hc
    case h_6 => exact absurd hc Bool.false_ne_true
    all_goals decide
  cases h with
  | plain hprintable => exact List.forall_mem_singleton.mpr hprintable
  | named hletter =>
    exact List.forall_mem_cons.mpr
      ⟨hbackslash, List.forall_mem_singleton.mpr (hnamed _ hletter)⟩
  | numbered hfirst hsecond hthird =>
    simp only [List.forall_mem_cons]
    exact ⟨hbackslash, hdigit _ hfirst, hdigit _ hsecond, hdigit _ hthird, List.forall_mem_nil _⟩

/-- The bytes of a text are its UTF-8 form. -/
theorem bytes_eq_toUTF8 (text : String) : bytes text = text.toUTF8.data.toList := by
  rw [String.toUTF8, ← String.utf8Encode_toList, List.utf8Encode, List.toList_data_toByteArray]
  rfl

end Reading

/-- A text is written as a string constant of printable characters, which are pieces: no quote and
no backslash stands outside an escape. From the opening quote of its line, the constant is read as
the UTF-8 form of the text, and it ends where the line does; whatever would follow the closing quote
plays no part. -/
theorem escape_read_back (symbol text : String) :
    Text.All IsPrintable (escape text) ∧
      (∃ pieces : List (List Char),
        (escape text).toList = pieces.flatten ∧ ∀ piece ∈ pieces, IsPiece piece) ∧
      (∀ behind, read? ((escape text).toList ++ '"' :: behind) =
        some (text.toUTF8.data.toList, behind)) ∧
      ∃ constant, (Datum.text symbol text).line = symbol ++ ": .asciz \"" ++ constant ∧
        read? constant.toList = some (text.toUTF8.data.toList, []) := by
  have hcharacters : (escape text).toList = (bytes text).flatMap escapeByte := String.toList_ofList
  have hpiece : ∀ byte, IsPiece (escapeByte byte) := fun byte => (escapeByte_read byte []).1
  have hread : ∀ behind, read? ((escape text).toList ++ '"' :: behind) =
      some (text.toUTF8.data.toList, behind) := fun behind => by
    rw [hcharacters, read?_escapeBytes, bytes_eq_toUTF8]
  refine ⟨?_, ⟨(bytes text).map escapeByte, ?_, ?_⟩, hread, escape text ++ "\"", ?_, ?_⟩
  · intro c hc
    rw [hcharacters] at hc
    obtain ⟨byte, -, hmem⟩ := List.mem_flatMap.mp hc
    exact (hpiece byte).isPrintable c hmem
  · rw [hcharacters, List.flatMap_def]
  · exact List.forall_mem_map.mpr fun byte _ => hpiece byte
  · rw [Datum.line, ← String.append_assoc]
  · rw [String.toList_append]
    exact hread []

end Asciz

end ThreeAddress
