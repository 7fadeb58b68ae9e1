/-!
# Strings in assembly text

An assembler reads a string constant between double quotes byte by byte. Printable ASCII
characters stand for themselves; the quote, the backslash and three control characters have an
escape of their own; every other byte is a backslash with three octal digits. Three digits are
always written, so that a digit which follows in the string is never taken into the escape.
-/

namespace ThreeAddress

namespace Asciz

/-- A byte as three octal digits. -/
def octal (byte : UInt8) : List Char :=
  [Nat.digitChar (byte.toNat / 64), Nat.digitChar (byte.toNat / 8 % 8),
    Nat.digitChar (byte.toNat % 8)]

/-- One byte of a string constant. -/
def escapeByte (byte : UInt8) : List Char :=
  if byte = 0x22 then ['\\', '"']
  else if byte = 0x5c then ['\\', '\\']
  else if byte = 0x0a then ['\\', 'n']
  else if byte = 0x09 then ['\\', 't']
  else if byte = 0x0d then ['\\', 'r']
  else if 0x20 ≤ byte ∧ byte ≤ 0x7e then [Char.ofNat byte.toNat]
  else '\\' :: octal byte

/-- The bytes of a text in UTF-8. -/
def bytes (text : String) : List UInt8 :=
  text.toList.flatMap String.utf8EncodeChar

/-- A text as the inside of a string constant. -/
def escape (text : String) : String :=
  String.ofList ((bytes text).flatMap escapeByte)

end Asciz

end ThreeAddress
